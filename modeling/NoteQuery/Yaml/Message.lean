import NoteQuery.Text.Quoted
import NoteQuery.Yaml.Cursor

/-! How faults of documents are worded. -/

namespace NoteQuery.Yaml
set_option autoImplicit false

/-- A span of minutes, as whole days and seconds of the rest of a day. -/
def spanText (minutes : Int) : String :=
  let days := minutes / 1440
  let seconds := minutes % 1440 * 60
  let dayPart := if days = 0 then [] else ["days=" ++ toString days]
  let secondPart := if seconds = 0 then [] else ["seconds=" ++ toString seconds]
  "datetime.timedelta(" ++ ", ".intercalate (dayPart ++ secondPart) ++ ")"

def Fault.message : Fault → String
  | .malformed => ""
  | .badInteger base s =>
    "invalid literal for int() with base " ++ toString base ++ ": " ++ Text.quoted s
  | .badReal s => "could not convert string to float: " ++ Text.quoted s
  | .badBoolean s => Text.quoted s
  | .emptyNumber => "string index out of range"
  | .badTimestamp => "'NoneType' object has no attribute 'groupdict'"
  | .badYear n => "year " ++ toString n ++ " is out of range"
  | .badMonth => "month must be in 1..12"
  | .badDay => "day is out of range for month"
  | .badHour => "hour must be in 0..23"
  | .badMinute => "minute must be in 0..59"
  | .badSecond => "second must be in 0..59"
  | .badOffset minutes =>
    "offset must be a timedelta strictly between -timedelta(hours=24) and timedelta(hours=24), not " ++
      spanText minutes
  | .badCodePoint _ => "chr() arg not in range(0x110000)"
  | .outOfRange e => e.message

end NoteQuery.Yaml
