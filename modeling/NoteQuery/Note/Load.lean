import NoteQuery.Files.Node
import NoteQuery.Log.Basic
import NoteQuery.Note.Fields
import NoteQuery.Note.Outlink
import NoteQuery.Row.Basic
import NoteQuery.Text.Utf8

/-!
Loading notes as rows. Notes that cannot be read, and those whose frontmatter is no document, are left
out. Values of frontmatter that are out of range end the loading.
-/

namespace NoteQuery.Note
set_option autoImplicit false

/-- A note to load: its name, and the name it has from where its vault starts. -/
structure Source where
  path : Path
  relative : Path
  node : FileNode

inductive Fault where
  | directory (path : Path)
  | undecodable (fault : Text.Utf8Fault)
  | frontmatter (fault : Yaml.Fault)
  deriving DecidableEq

namespace Fault

/-- Whether a note with this fault is left out. -/
def isSkipped : Fault → Bool
  | directory _ => true
  | undecodable _ => true
  | frontmatter f => f == .malformed

def message : Fault → String
  | directory p => "[Errno 21] Is a directory: " ++ Text.quoted p.text
  | undecodable f => f.message
  | frontmatter f => f.message

end Fault

/-- The name that a title gives to a note. -/
def titleIn (fields : Record) : Option String :=
  match fields.get "title" with
  | .text s => if s.toList.all Text.isBlank then none else some s
  | _ => none

def timeValue (m : Moment) : Value := .date (.clock m)

/-- The row of a note with this content. -/
def rowOf (relative : Path) (times : FileTimes) (size : Nat) (fields : Record) (body : List Char) : Row :=
  let file := FileInfo.ofPath relative.text (titleIn fields) (timeValue times.changed)
    (timeValue times.modified) (.int size) (outlinks body)
  ⟨file, fields, some (String.ofList body)⟩

/-- Reads a note. -/
def load (s : Source) : Logged Fault Row := do
  match s.node with
  | .directory _ => throw (.directory s.path)
  | .file bytes times =>
    Logged.info ("Processing " ++ s.path.text ++ "...")
    let (front, body) ← match Text.readUtf8 bytes with
      | .error f => throw (.undecodable f)
      | .ok cs => pure (splitFrontmatter (Text.unifyLineEnds cs))
    let fields ← match readFields front with
      | .error f => throw (.frontmatter f)
      | .ok (some fields) => pure fields
      | .ok none => do
        Logged.info ("Ignoring non-mapping frontmatter in " ++ s.path.text)
        pure []
    return rowOf s.relative times bytes.length fields body

/-- Reads a note, or notes why it is left out. -/
def loadOrSkip (s : Source) : Logged Fault (Option Row) := do
  let (r, log) := (load s).result
  match r with
  | .ok row => Logged.ofResult (.ok (some row), log)
  | .error f => do
    Logged.ofResult (.ok (), log)
    if f.isSkipped then
      Logged.warning ("Skipping " ++ s.path.text ++ ": " ++ f.message)
      return none
    else throw f

def loadAll (sources : List Source) : Logged Fault (List Row) := do
  let rows := (← sources.mapM loadOrSkip).filterMap id
  Logged.info ("Loaded " ++ toString rows.length ++ " row(s)")
  return rows

/-- The notes that names lead to; the first name that leads nowhere is refused. Without names all
notes below the current directory are meant. -/
def sources (look : Path → Except PathFault FileNode) (names : List String) :
    Except String (List Source) := do
  let names := if names.isEmpty then ["."] else names
  let found ← names.mapM fun name =>
    let path := Path.ofText name
    match look path with
    | .error _ => .error name
    | .ok (.file bytes times) => .ok [⟨path, ⟨false, [path.name]⟩, .file bytes times⟩]
    | .ok (.directory es) =>
      .ok ((FileNode.directory es).notes.map fun n => ⟨path.append n.1, ⟨false, n.1⟩, n.2⟩)
  return found.flatten

/-- How a name that leads nowhere is refused. -/
def notFoundMessage (name : String) : String := "Path '" ++ name ++ "' not found"

end NoteQuery.Note
