import NoteQuery.Value.Basic
import NoteQuery.Text.Search

/-!
Facts about a note file. They are values, since a query may put others in their place.
-/

namespace NoteQuery
set_option autoImplicit false

inductive FileAttribute where
  | path
  | name
  | folder
  | ext
  | ctime
  | mtime
  | size
  | outlinks
  deriving DecidableEq

structure FileInfo where
  path : Value
  name : Value
  folder : Value
  ext : Value
  ctime : Value
  mtime : Value
  size : Value
  outlinks : Value

namespace FileAttribute

def key : FileAttribute → String
  | path => "path"
  | name => "name"
  | folder => "folder"
  | ext => "ext"
  | ctime => "ctime"
  | mtime => "mtime"
  | size => "size"
  | outlinks => "outlinks"

def all : List FileAttribute := [path, name, folder, ext, ctime, mtime, size, outlinks]

def ofKey? (key : String) : Option FileAttribute := all.find? fun a => a.key == key

end FileAttribute

/-- The parts of a path. -/
structure PathParts where
  folder : List Char
  stem : List Char
  ext : List Char

/-- The parts before and after the last occurrence of a character. -/
def cutLast? (c : Char) (cs : List Char) : Option (List Char × List Char) :=
  match Text.cut? [c] cs.reverse with
  | some (after, before) => some (before.reverse, after.reverse)
  | none => none

/-- The folder of a path, and the name of its file before and after the last point. -/
def PathParts.ofPath (path : List Char) : PathParts :=
  let (folder, file) := (cutLast? '/' path).getD ([], path)
  match cutLast? '.' file with
  | some (stem, ext) => ⟨folder, stem, ext⟩
  | none => ⟨folder, file, []⟩

namespace FileInfo

def get (f : FileInfo) : FileAttribute → Value
  | .path => f.path
  | .name => f.name
  | .folder => f.folder
  | .ext => f.ext
  | .ctime => f.ctime
  | .mtime => f.mtime
  | .size => f.size
  | .outlinks => f.outlinks

def set (f : FileInfo) (a : FileAttribute) (v : Value) : FileInfo :=
  match a with
  | .path => { f with path := v }
  | .name => { f with name := v }
  | .folder => { f with folder := v }
  | .ext => { f with ext := v }
  | .ctime => { f with ctime := v }
  | .mtime => { f with mtime := v }
  | .size => { f with size := v }
  | .outlinks => { f with outlinks := v }

theorem get_set (f : FileInfo) (a b : FileAttribute) (v : Value) :
    (f.set a v).get b = if b = a then v else f.get b := by
  cases a <;> cases b <;> rfl

/-- The facts as a record, in which queries look them up. -/
def record (f : FileInfo) : Record := FileAttribute.all.map fun a => (a.key, f.get a)

/-- The facts that follow from a path; a name that is not empty stands for that of the file. -/
def ofPath (path : String) (name? : Option String) (ctime mtime size : Value)
    (outlinks : List String) : FileInfo :=
  let parts := PathParts.ofPath path.toList
  let name := match name? with
    | some n => if n.isEmpty then String.ofList parts.stem else n
    | none => String.ofList parts.stem
  { path := .text path
    name := .text name
    folder := .text (String.ofList parts.folder)
    ext := .text (String.ofList parts.ext)
    ctime, mtime, size
    outlinks := .array (outlinks.map .text) }

end FileInfo
end NoteQuery
