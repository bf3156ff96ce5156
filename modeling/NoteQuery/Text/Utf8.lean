import NoteQuery.Text.Quoted

/-!
Reading text from bytes. A character takes one to four bytes; the first tells how many follow, and
which bytes may follow it. Surrogates and longer forms than needed are refused.
-/

namespace NoteQuery.Text
set_option autoImplicit false

inductive Utf8Cause where
  | badStart
  | badContinuation
  | cutShort
  deriving DecidableEq

/-- Bytes that are no text, by the place of the first and their number. -/
structure Utf8Fault where
  cause : Utf8Cause
  first : UInt8
  position : Nat
  count : Nat
  deriving DecidableEq

namespace Utf8Fault

def reason (f : Utf8Fault) : String :=
  match f.cause with
  | .badStart => "invalid start byte"
  | .badContinuation => "invalid continuation byte"
  | .cutShort => "unexpected end of data"

def message (f : Utf8Fault) : String :=
  let where_ :=
    if f.count = 1 then
      "byte 0x" ++ String.ofList (hexDigits 2 f.first.toNat) ++ " in position " ++ toString f.position
    else
      "bytes in position " ++ toString f.position ++ "-" ++ toString (f.position + f.count - 1)
  "'utf-8' codec can't decode " ++ where_ ++ ": " ++ f.reason

end Utf8Fault

/-- How many bytes follow a first byte, and the values of the second. -/
structure Utf8Lead where
  more : Nat
  low : Nat
  high : Nat

def Utf8Lead.ofByte? (n : Nat) : Option Utf8Lead :=
  if n < 0x80 then some ⟨0, 0, 0⟩
  else if n < 0xc2 then none
  else if n < 0xe0 then some ⟨1, 0x80, 0xbf⟩
  else if n < 0xf0 then
    some ⟨2, if n = 0xe0 then 0xa0 else 0x80, if n = 0xed then 0x9f else 0xbf⟩
  else if n < 0xf5 then
    some ⟨3, if n = 0xf0 then 0x90 else 0x80, if n = 0xf4 then 0x8f else 0xbf⟩
  else none

/-- The bytes that follow a first byte as far as they fit, at most `more`. -/
def continuation (low high : Nat) : Nat → List UInt8 → List UInt8
  | 0, _ => []
  | _ + 1, [] => []
  | more + 1, b :: bs =>
    if low ≤ b.toNat ∧ b.toNat ≤ high then b :: continuation 0x80 0xbf more bs else []

/-- The code point of a first byte that `more` bytes follow. -/
def codePoint (first : UInt8) (following : List UInt8) : Nat :=
  let start := match following.length with
    | 0 => first.toNat
    | 1 => first.toNat % 0x20
    | 2 => first.toNat % 0x10
    | _ => first.toNat % 0x08
  following.foldl (fun n b => n * 0x40 + b.toNat % 0x40) start

/-- The text in bytes that start at a position of a file; `skip` bytes are part of what is read. -/
def readUtf8From (position : Nat) (skip : Nat) : List UInt8 → Except Utf8Fault (List Char)
  | [] => .ok []
  | b :: bs =>
    match skip with
    | skip + 1 => readUtf8From (position + 1) skip bs
    | 0 =>
      match Utf8Lead.ofByte? b.toNat with
      | none => .error ⟨.badStart, b, position, 1⟩
      | some lead =>
        let following := continuation lead.low lead.high lead.more bs
        if following.length = lead.more then do
          let cs ← readUtf8From (position + 1) lead.more bs
          return Char.ofNat (codePoint b following) :: cs
        else
          let cause := if following.length = bs.length then .cutShort else .badContinuation
          .error ⟨cause, b, position, following.length + 1⟩

def readUtf8 (bs : List UInt8) : Except Utf8Fault (List Char) := readUtf8From 0 0 bs

/-- Line ends as a single character: a carriage return, with or without a line feed, counts as one. -/
def unifyLineEnds : List Char → List Char
  | [] => []
  | '\r' :: '\n' :: cs => '\n' :: unifyLineEnds cs
  | c :: cs => (if c = '\r' then '\n' else c) :: unifyLineEnds cs

end NoteQuery.Text
