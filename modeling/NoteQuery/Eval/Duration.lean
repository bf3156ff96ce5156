import NoteQuery.Eval.Failure
import NoteQuery.Text.Blank
import NoteQuery.Text.Case
import NoteQuery.Text.Digit

/-!
Durations written in text, such as `2h 30m`: all amounts with a unit are added up, and everything
else in the text counts for nothing.
-/

namespace NoteQuery
set_option autoImplicit false
open NoteQuery.Text

inductive TimeUnit where
  | week
  | day
  | hour
  | minute
  | second
  deriving DecidableEq

namespace TimeUnit

def seconds : TimeUnit → Nat
  | week => 604800
  | day => 86400
  | hour => 3600
  | minute => 60
  | second => 1

/-- The spellings of the units, in the order in which they are tried. -/
def spellings : List (String × TimeUnit) := [
  ("weeks", week), ("week", week), ("w", week), ("days", day), ("day", day), ("d", day),
  ("hours", hour), ("hour", hour), ("hrs", hour), ("hr", hour), ("h", hour),
  ("minutes", minute), ("minute", minute), ("mins", minute), ("min", minute), ("m", minute),
  ("seconds", second), ("second", second), ("secs", second), ("sec", second), ("s", second)]

/-- Reads a spelling, in any case, that no letter follows. -/
def readSpelling? (word cs : List Char) : Option (List Char × List Char) :=
  match readWord? word cs with
  | some (read, rest) => if rest.head?.any isLatinLetter then none else some (read, rest)
  | none => none

/-- Reads a unit; answers it with the characters it is written in and the rest. -/
def read? (cs : List Char) : Option (TimeUnit × List Char × List Char) :=
  spellings.findSome? fun s => (readSpelling? s.1.toList cs).map fun r => (s.2, r)

theorem length_of_readWord? {word cs read rest : List Char}
    (h : readWord? word cs = some (read, rest)) : rest.length ≤ cs.length := by
  rw [readWord?_append word cs read rest h]
  simp

theorem length_of_read? {cs read rest : List Char} {u : TimeUnit}
    (h : read? cs = some (u, read, rest)) : rest.length ≤ cs.length := by
  obtain ⟨s, _, hs⟩ := List.exists_of_findSome?_eq_some h
  obtain ⟨r, hr, he⟩ := Option.map_eq_some_iff.1 hs
  cases he
  unfold readSpelling? at hr
  split at hr
  · next read' rest' hw =>
    split at hr
    · cases hr
    · cases hr
      exact length_of_readWord? hw
  · cases hr

end TimeUnit

namespace Duration

/-- The seconds of an amount with a unit. A long s is no unit, although it is read like one. -/
def amount (digits : List Char) (unit : TimeUnit) (written : List Char) : Outcome Int :=
  match written with
  | 'ſ' :: _ => .error (.unknownUnit 'ſ')
  | _ => .ok (naturalOfDigits digits * unit.seconds)

theorem length_skip_le (cs : List Char) :
    (skipBlanks (cs.dropWhile isDecimal)).length ≤ cs.length :=
  Nat.le_trans (List.dropWhile_sublist isBlank).length_le (List.dropWhile_sublist isDecimal).length_le

/-- The seconds of all amounts in a text. -/
def total (cs : List Char) : Outcome Int :=
  match cs with
  | [] => .ok 0
  | c :: rest =>
    if isDecimal c then
      match h : TimeUnit.read? (skipBlanks (rest.dropWhile isDecimal)) with
      | some (unit, written, after) =>
        have : after.length < (c :: rest).length :=
          Nat.lt_succ_of_le (Nat.le_trans (TimeUnit.length_of_read? h) (length_skip_le rest))
        do
          let n ← amount (c :: rest.takeWhile isDecimal) unit written
          return n + (← total after)
      | none => total rest
    else total rest
termination_by cs.length
decreasing_by
  · exact this
  · exact Nat.lt_succ_self _
  · exact Nat.lt_succ_self _

end Duration
end NoteQuery
