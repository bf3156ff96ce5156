import NoteQuery.Pattern.Matching
import NoteQuery.Pattern.Reader

/-!
What replaces the matches of a pattern: text in which escapes stand for characters or for what a
group matched. A template is read for a pattern, which has the groups.
-/

namespace NoteQuery.Pattern
set_option autoImplicit false
open NoteQuery.Text

inductive Part where
  | char (c : Char)
  | group (n : Nat)
  deriving Repr

inductive TemplateFault where
  | malformed
  | unknownGroup (name : String)
  deriving DecidableEq, Repr

/-- A group of the pattern by its number. -/
def groupPart (p : Pattern) (n : Nat) : Except TemplateFault Part :=
  if p.groupCount < n then .error .malformed else .ok (.group n)

/-- A group by what stands between angle brackets: its name, or its number. -/
def namedPart (p : Pattern) (name : List Char) : Except TemplateFault Part :=
  if isIdentifier name then
    match p.names.lookup (String.ofList name) with
    | some n => groupPart p n
    | none => .error (.unknownGroup (String.ofList name))
  else
    match Numeral.integer? name with
    | some (.ofNat n) => groupPart p n
    | _ => .error .malformed

/-- Octal digits that are next, at most `n`. -/
def octalRun : Nat → List Piece → List Char
  | n + 1, .plain c :: ps => if isOctal c then c :: octalRun n ps else []
  | _, _ => []

/-- The part that an escaped digit starts, and how many further pieces it takes. -/
def digitPart (p : Pattern) (c : Char) (ps : List Piece) : Except TemplateFault (Part × Nat) :=
  let octal (digits : List Char) : Char := Char.ofNat (numberIn 8 digits % 256)
  let more := octalRun 2 ps
  if c == '0' then .ok (.char (octal (c :: more)), more.length)
  else if isOctal c && more.length == 2 then
    if 0o377 < numberIn 8 (c :: more) then .error .malformed
    else .ok (.char (octal (c :: more)), 2)
  else
    match ps with
    | .plain d :: _ =>
      if d.isDigit then (groupPart p (numberIn 10 [c, d])).map (·, 1)
      else (groupPart p (numberIn 10 [c])).map (·, 0)
    | _ => (groupPart p (numberIn 10 [c])).map (·, 0)

/-- The parts of a template. A backslash at the end is seen one piece ahead. -/
def partsFrom (p : Pattern) : Nat → List Piece → Except TemplateFault (List Part)
  | 0, _ => .ok []
  | _ + 1, [] => .ok []
  | fuel + 1, piece :: ps =>
    match piece with
    | .dangling => .error .malformed
    | .plain c => do return .char c :: (← partsFrom p fuel ps)
    | .escaped c =>
      if c == 'g' then
        match ps with
        | .plain '<' :: rest =>
          let name := (rest.takeWhile (· != .plain '>')).flatMap Piece.chars
          match rest.dropWhile (· != .plain '>') with
          | [] => .error .malformed
          | [_, .dangling] => .error .malformed
          | _ :: rest => do
            let part ← namedPart p name
            return part :: (← partsFrom p fuel rest)
        | _ => .error .malformed
      else if c.isDigit then do
        let (part, taken) ← digitPart p c ps
        return part :: (← partsFrom p fuel (ps.drop taken))
      else
        match control? c with
        | some n => do return .char (Char.ofNat n) :: (← partsFrom p fuel ps)
        | none =>
          if c.isAlpha then .error .malformed
          else do return .char '\\' :: .char c :: (← partsFrom p fuel ps)

def template (p : Pattern) (cs : List Char) : Except TemplateFault (List Part) :=
  let ps := piecesOf cs
  partsFrom p (ps.length + 1) ps

/-- What a part stands for in a match; a group that matched nothing stands for nothing. -/
def Part.image (first last : Spot) : Part → List Char
  | char c => [c]
  | group 0 => last.since first.position
  | group n => (last.group? n).getD []

/-- Replaces every match of a pattern. -/
def substitute (p : Pattern) (replacement cs : List Char) : Except TemplateFault (List Char) := do
  let parts ← p.template replacement
  return p.replaceAll (fun first last => parts.flatMap (·.image first last)) cs

end NoteQuery.Pattern
