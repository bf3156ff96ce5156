import NoteQuery.Note.Frontmatter
import NoteQuery.Yaml.Document
import NoteQuery.Yaml.Message

/-! The fields that the frontmatter of a note sets. -/

namespace NoteQuery.Note
set_option autoImplicit false

/-- The fields that frontmatter sets, or nothing where it is no mapping. Dates are moments of
universal time. -/
def readFields (front? : Option (List Char)) : Except Yaml.Fault (Option Record) :=
  match front? with
  | none => .ok (some [])
  | some cs =>
    if cs.all Text.isBlank then .ok (some [])
    else do
      match ← Yaml.readDocument cs with
      | .object es => some <$> (Yaml.universalEntries es).mapError .outOfRange
      | _ => return none

end NoteQuery.Note
