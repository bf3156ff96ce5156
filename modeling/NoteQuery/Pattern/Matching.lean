import NoteQuery.Pattern.Basic

/-!
Matching a pattern. A node is matched against a place in a text and hands every place where it may
end to what follows, in the order of preference; the first that leads to the end of the pattern
counts.
-/

namespace NoteQuery.Pattern
set_option autoImplicit false
open NoteQuery.Text

/-- A place in a text, with the groups matched so far. What stands before the place is read
backwards. -/
structure Spot where
  before : List Char
  after : List Char
  position : Nat
  groups : List (Nat × List Char)

namespace Spot

def ofChars (cs : List Char) : Spot := ⟨[], cs, 0, []⟩

/-- The whole text. -/
def chars (s : Spot) : List Char := s.before.reverse ++ s.after

def next? (s : Spot) : Option (Char × Spot) :=
  match s.after with
  | [] => none
  | c :: cs => some (c, ⟨c :: s.before, cs, s.position + 1, s.groups⟩)

/-- The place some characters earlier. -/
def back? (s : Spot) : Nat → Option Spot
  | 0 => some s
  | n + 1 =>
    match s.before with
    | [] => none
    | c :: cs => back? ⟨cs, c :: s.after, s.position - 1, s.groups⟩ n

/-- What stands between an earlier place and this one. -/
def since (s : Spot) (start : Nat) : List Char := (s.before.take (s.position - start)).reverse

def group? (s : Spot) (n : Nat) : Option (List Char) := s.groups.lookup n

def setGroup (s : Spot) (n : Nat) (cs : List Char) : Spot :=
  { s with groups := (n, cs) :: s.groups.filter (·.1 != n) }

/-- Reads the characters of `cs` up to case. -/
def read? (folding : Folding) (s : Spot) : List Char → Option Spot
  | [] => some s
  | d :: ds =>
    match s.next? with
    | none => none
    | some (c, t) => if folding.lower c == folding.lower d then read? folding t ds else none

end Spot

namespace Place

def wordAt (ascii : Bool) (cs : List Char) : Bool :=
  (cs.head?.map (CharClass.word.holds ascii)).getD false

/-- An empty text has neither word boundaries nor other places. -/
def holds (s : Spot) : Place → Bool
  | textStart => s.before.isEmpty
  | textEnd => s.after.isEmpty
  | lineStart => s.before.isEmpty || s.before.head? == some '\n'
  | lineEnd => s.after.isEmpty || s.after.head? == some '\n'
  | lastLineEnd => s.after.isEmpty || s.after == ['\n']
  | boundary ascii negated =>
    !(s.before.isEmpty && s.after.isEmpty) &&
      ((wordAt ascii s.before != wordAt ascii s.after) != negated)

end Place

/-- What is tried at a place: the end of the match, if there is one. -/
abbrev Attempt := Spot → Option Spot

/-- A matcher turns the attempt at what follows into the attempt at the node and what follows. -/
abbrev Matcher := Attempt → Attempt

/-- The first attempt that succeeds. -/
def firstOf (a b : Attempt) : Attempt := fun s =>
  match a s with
  | some t => some t
  | none => b s

/-- Repetitions of `body`, most or fewest first. Beyond the least count, one that took nothing is
not repeated. `count` repetitions are done, the last of which started at `last` if it was beyond the
least count; `fuel` bounds those to come. -/
def repeatFrom (fewestFirst : Bool) (least : Nat) (most : Option Nat) (body : Matcher)
    (following : Attempt) : Nat → Nat → Option Nat → Attempt
  | 0, _, _ => fun _ => none
  | fuel + 1, count, last => fun s =>
    if count < least then body (repeatFrom fewestFirst least most body following fuel (count + 1) last) s
    else
      let again : Attempt := fun s =>
        if most.any (· ≤ count) || last == some s.position then none
        else
          body (repeatFrom fewestFirst least most body following fuel (count + 1) (some s.position)) s
      if fewestFirst then firstOf following again s else firstOf again following s

/-- As many repetitions as there are, each in the way it is found first. -/
def repeatOnly (least : Nat) (most : Option Nat) (body : Attempt) : Nat → Nat → Option Nat → Attempt
  | 0, _, _ => fun _ => none
  | fuel + 1, count, last => fun s =>
    if count < least then
      match body s with
      | none => none
      | some t => repeatOnly least most body fuel (count + 1) last t
    else if most.any (· ≤ count) || last == some s.position then some s
    else
      match body s with
      | none => some s
      | some t => repeatOnly least most body fuel (count + 1) (some s.position) t

/-- The attempt at a node and what follows it, in a text of `size` characters. Look-behinds go back
by the least width of what they look for, which is also the most. -/
def Node.attempt (size : Nat) : Node → Matcher
  | empty, k => k
  | char test, k => fun s =>
    match s.next? with
    | none => none
    | some (c, t) => if test.holds c then k t else none
  | place p, k => fun s => if p.holds s then k s else none
  | seq a b, k => a.attempt size (b.attempt size k)
  | either a b, k => firstOf (a.attempt size k) (b.attempt size k)
  | repeated greed least most body, k =>
    let fuel := least + size + 2
    match greed with
    | .greedy => repeatFrom false least most (body.attempt size) k fuel 0 none
    | .lazy => repeatFrom true least most (body.attempt size) k fuel 0 none
    | .possessive => fun s =>
      match repeatOnly least most (body.attempt size some) fuel 0 none s with
      | none => none
      | some t => k t
  | group n body, k => fun s =>
    body.attempt size (fun t => k (t.setGroup n (t.since s.position))) s
  | again n folding, k => fun s =>
    match (s.group? n).bind (s.read? folding) with
    | none => none
    | some t => k t
  | given n yes no, k => fun s =>
    if (s.group? n).isSome then yes.attempt size k s else no.attempt size k s
  | ahead negated body, k => fun s =>
    match body.attempt size some s with
    | some t => if negated then none else k { s with groups := t.groups }
    | none => if negated then k s else none
  | behind negated back body, k => fun s =>
    match (s.back? back.least).bind (body.attempt size some) with
    | some t => if negated then none else k { s with groups := t.groups }
    | none => if negated then k s else none
  | atomic body, k => fun s =>
    match body.attempt size some s with
    | none => none
    | some t => k t

/-- The end of the first match at a place; one that must move takes at least a character. -/
def matchAt? (p : Pattern) (size : Nat) (mustMove : Bool) (s : Spot) : Option Spot :=
  p.node.attempt size (fun t => if mustMove && t.position == s.position then none else some t) s

/-- The start and the end of the first match at or after a place. -/
def findFrom? (p : Pattern) (size : Nat) (mustMove : Bool) (before : List Char) (position : Nat)
    (after : List Char) : Option (Spot × Spot) :=
  let s : Spot := ⟨before, after, position, []⟩
  match p.matchAt? size mustMove s with
  | some t => some (s, t)
  | none =>
    match after with
    | [] => none
    | c :: cs => findFrom? p size false (c :: before) (position + 1) cs

/-- All matches from a place on. After an empty match the next one at its place must move. -/
def matchesFrom (p : Pattern) (size : Nat) : Nat → Bool → Spot → List (Spot × Spot)
  | 0, _, _ => []
  | fuel + 1, mustMove, s =>
    match p.findFrom? size mustMove s.before s.position s.after with
    | none => []
    | some (first, last) =>
      (first, last) :: matchesFrom p size fuel (first.position == last.position) last

def allMatches (p : Pattern) (cs : List Char) : List (Spot × Spot) :=
  p.matchesFrom cs.length (2 * cs.length + 2) false (.ofChars cs)

/-- Whether a pattern matches somewhere in a text. -/
def occursIn (p : Pattern) (cs : List Char) : Bool := (p.findFrom? cs.length false [] 0 cs).isSome

/-- Writes the image of each match for it, from `from` on. -/
def writeFrom (image : Spot → Spot → List Char) (start : Spot) : List (Spot × Spot) → List Char
  | [] => start.after
  | (first, last) :: ms =>
    first.since start.position ++ image first last ++ writeFrom image last ms

def replaceAll (p : Pattern) (image : Spot → Spot → List Char) (cs : List Char) : List Char :=
  writeFrom image (.ofChars cs) (p.allMatches cs)

end NoteQuery.Pattern
