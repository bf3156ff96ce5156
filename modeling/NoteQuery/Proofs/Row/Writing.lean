import NoteQuery.Proofs.Row.Flattening

/-! Writing at one path and reading at another. As long as neither path is a beginning of the other, what is
read is what was there before. -/

namespace NoteQuery
set_option autoImplicit false

/-- A fact about a file is found under its own name only. -/
theorem FileInfo.get?_record_set (f : FileInfo) {a : FileAttribute} {key : String} (h : key ≠ a.key)
    (v : Value) : Record.get? (f.set a v).record key = Record.get? f.record key := by
  unfold record Record.get?
  induction FileAttribute.all with
  | nil => rfl
  | cons b as ih =>
    rw [List.map_cons, List.map_cons, List.lookup_cons, List.lookup_cons, ih]
    by_cases hb : key = b.key
    · have hne : b ≠ a := by
        rintro rfl
        exact h hb
      rw [get_set, if_neg hne]
    · rw [beq_eq_false_iff_ne.mpr hb]

namespace Row

/-- Two lists of names of which neither is a beginning of the other. -/
def Apart (parts other : List String) : Prop := ¬parts <+: other ∧ ¬other <+: parts

instance (parts other : List String) : Decidable (Apart parts other) :=
  inferInstanceAs (Decidable (_ ∧ _))

section
variable {part name : String} {parts other : List String}

theorem Apart.not_nil (h : Apart parts other) : parts ≠ [] ∧ other ≠ [] := by
  constructor
  · rintro rfl
    exact h.1 List.nil_prefix
  · rintro rfl
    exact h.2 List.nil_prefix

theorem apart_cons : Apart (part :: parts) (part :: other) ↔ Apart parts other := by
  simp [Apart, List.cons_prefix_cons]

/-- Under another path of a value stands what stood there. -/
theorem descend_replaceAt?_apart {v w new : Value} (h : Apart parts other)
    (hw : replaceAt? v parts new = some w) : descend w other = descend v other := by
  induction parts generalizing v w other with
  | nil => exact absurd rfl h.not_nil.1
  | cons part parts ih =>
    cases other with
    | nil => exact absurd rfl h.not_nil.2
    | cons name other =>
      cases v with
      | object entries =>
        rw [replaceAt?, Option.map_eq_some_iff] at hw
        obtain ⟨u, hu, rfl⟩ := hw
        rw [descend_object, descend_object, Record.get, Record.get?_insert]
        by_cases hname : name = part
        · subst hname
          rw [if_pos rfl]
          exact ih (apart_cons.mp h) hu
        · rw [if_neg hname]
          rfl
      | _ => cases hw

end

variable {r : Row} {path other : String}

theorem lookup_withValue_inField {first : String} {rest rest' : List String} {v w new : Value}
    (hparts : pathParts path = first :: rest) (hother : pathParts other = first :: rest')
    (hv : r.fields.get? first = some v) (hw : replaceAt? v rest new = some w) (h : Apart rest rest') :
    (r.withValue path new).lookup other = r.lookup other := by
  rw [withValue_inField hparts hv hw, lookup, lookup, hother]
  simp only [Record.get?_insert, if_true, hv]
  exact descend_replaceAt?_apart h hw

theorem lookup_withValue_ofFile {key name : String} {rest : List String} {a : FileAttribute}
    (hparts : pathParts path = [Context.fileName, key])
    (hother : pathParts other = Context.fileName :: name :: rest)
    (hnone : r.fields.get? Context.fileName = none) (ha : FileAttribute.ofKey? key = some a)
    (hname : name ≠ key) (new : Value) : (r.withValue path new).lookup other = r.lookup other := by
  have hkey : a.key = key := by simpa using List.find?_some ha
  rw [withValue_ofFile hparts hnone ha, lookup, lookup, hother]
  simp only [hnone, if_true]
  rw [descend_object, descend_object, Record.get, Record.get,
    FileInfo.get?_record_set r.file (hkey ▸ hname)]

/-- A write leaves the text of a row and all that other paths lead to, as long as neither path is a
beginning of the other; where the path can be written, the value is found there. -/
theorem lookup_withValue_apart (r : Row) (path other : String) (new : Value)
    (h : Apart (pathParts path) (pathParts other)) :
    (r.withValue path new).lookup other = r.lookup other ∧
      (r.withValue path new).text? = r.text? ∧
      (r.IsWritable path → (r.withValue path new).lookup path = .ok new) := by
  refine ⟨?_, text?_withValue new, fun hwritable => lookup_withValue hwritable new⟩
  by_cases hhead : (pathParts other).head? = (pathParts path).head?
  · by_cases hwritable : r.IsWritable path
    · obtain ⟨name, rest', hother⟩ := List.exists_cons_of_ne_nil h.not_nil.2
      cases hwritable with
      | field hparts =>
        rw [hparts, hother] at h hhead
        cases hhead
        exact absurd ⟨rest', rfl⟩ h.1
      | inField hparts hv hthrough =>
        obtain ⟨w, hw⟩ := exists_replaceAt? hthrough new
        have hapart := h
        rw [hparts, hother] at hapart hhead
        cases hhead
        exact lookup_withValue_inField hparts hother hv hw (apart_cons.mp hapart)
      | ofFile hparts hnone ha =>
        have hapart := h
        rw [hparts, hother] at hapart hhead
        cases hhead
        -- the other path names another fact, for the file alone is a beginning
        cases rest' with
        | nil => exact absurd ⟨_, rfl⟩ hapart.2
        | cons key' rest' =>
          refine lookup_withValue_ofFile hparts hother hnone ha ?_ new
          rintro rfl
          exact absurd ⟨rest', rfl⟩ hapart.1
    · rw [withValue_of_not_isWritable hwritable]
  · exact lookup_withValue_elsewhere hhead new

/-- A new key of a nested object, beside the second item of a list in it. -/
theorem lookup_withValue_apart_item :
    let r := Group.oneField "a" (.object [("c", .array [.int 1, .int 2])])
    Apart (pathParts "a.b") (pathParts "a.c.1") ∧ r.IsWritable "a.b" ∧
      (r.withValue "a.b" .null).lookup "a.c.1" = .ok (.int 2) ∧
      (r.withValue "a.b" .null).lookup "a.b" = .ok .null := by
  intro r
  have hapart : Apart (pathParts "a.b") (pathParts "a.c.1") := by decide +kernel
  have hparts : pathParts "a.b" = ["a", "b"] := by decide +kernel
  have hwritable : r.IsWritable "a.b" := .inField hparts rfl rfl
  have hitem : r.lookup "a.c.1" = .ok (.int 2) := by cbv
  obtain ⟨hother, -, hnew⟩ := lookup_withValue_apart r "a.b" "a.c.1" .null hapart
  exact ⟨hapart, hwritable, hother.trans hitem, hnew hwritable⟩

end Row

end NoteQuery
