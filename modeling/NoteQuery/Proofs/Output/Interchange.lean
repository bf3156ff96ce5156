import NoteQuery.Proofs.Query.WellFormed

/-! The results of queries as interchange data. Whatever values the rows hold, there is a text, it is one of the
standard, and it is read back as the data of the result. Infinities and what is no number have become null on
the way, functions and dates texts, and none of this changes what is interchange data already. -/

namespace NoteQuery
set_option autoImplicit false

namespace QueryResult

variable {r : QueryResult}

theorem outputs_json {j : Json} (h : (Value.object r.record).toJson = .ok j) (c : Coloring) :
    r.outputs .json c = .ok [if c.isMarked then .highlighted (j.render .beyondAscii)
      else .verbatim (j.render .beyondAscii)] := by
  rw [outputs, Output.ofJson, h]
  rfl

end QueryResult

end NoteQuery
