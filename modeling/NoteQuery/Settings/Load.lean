import NoteQuery.Files.Node
import NoteQuery.Settings.Basic
import NoteQuery.Text.Utf8

/-! The file with the settings: its name on a command line, and what is in it. -/

namespace NoteQuery
set_option autoImplicit false

inductive SettingsFault where
  | malformed
  | undecodable (fault : Text.Utf8Fault)
  deriving DecidableEq

namespace SettingsFault

def message : SettingsFault → String
  | malformed => "Malformed config"
  | undecodable f => f.message

end SettingsFault

namespace Settings

def defaultName : String := ".notedql.json"

/-- The first name that arguments give for the file. -/
def nameIn : List String → String
  | [] => defaultName
  | [arg] => (nameWithin? arg).getD defaultName
  | arg :: next :: rest =>
    if arg = "--config" then next else (nameWithin? arg).getD (nameIn (next :: rest))
where
  nameWithin? (arg : String) : Option String :=
    (Text.after? "--config=".toList arg.toList).map String.ofList

def ofBytes (bs : List UInt8) : Except SettingsFault Settings :=
  match Text.readUtf8 bs with
  | .error f => .error (.undecodable f)
  | .ok cs => ((Json.read? cs).bind ofDocument?).elim (.error .malformed) .ok

/-- The settings in what a name leads to. Without a file nothing is set. -/
def load : Except PathFault FileNode → Except SettingsFault Settings
  | .ok (.file bs _) => ofBytes bs
  | .ok (.directory _) => .error .malformed
  | .error .notADirectory => .error .malformed
  | .error .missing => .ok {}

end Settings
end NoteQuery
