import NoteQuery.Text.Case
import NoteQuery.Text.Digit
import NoteQuery.Text.Blank

/-!
Patterns over characters: what a pattern is made of, which characters each test takes, and how wide
a match can be. Case is decided when a pattern is read, so that a node needs no setting around it.
-/

namespace NoteQuery
set_option autoImplicit false

namespace Pattern
open NoteQuery.Text

/-- How far two characters are told apart: entirely, up to the case of ASCII letters, or up to
case. -/
inductive Folding where
  | exact
  | latin
  | full
  deriving DecidableEq, Repr

/-- Classes of characters; each has an ASCII reading. -/
inductive CharClass where
  | digit
  | blank
  | word
  deriving DecidableEq, Repr

namespace CharClass

def holds (ascii : Bool) : CharClass → Char → Bool
  | digit, c => if ascii then c.isDigit else isDecimal c
  | blank, c => if ascii then c == ' ' || (9 ≤ c.toNat && c.toNat ≤ 13) else isBlank c
  | word, c => if ascii then c.isAlphanum || c == '_' else isWord c

end CharClass

/-- A member of a set of characters. Codes may lie outside the characters. -/
inductive Member where
  | one (code : Nat)
  | range (first last : Nat)
  | cls (k : CharClass) (negated ascii : Bool)
  deriving DecidableEq, Repr

/-- A test on one character. -/
inductive CharTest where
  | any (lineBreaks : Bool)
  | code (n : Nat) (folding : Folding) (negated : Bool)
  | set (members : List Member) (folding : Folding) (negated : Bool)
  deriving Repr

def Folding.lower : Folding → Char → Char
  | exact, c => c
  | latin, c => c.toLower
  | full, c => lowerChar c

/-- Lower-case characters that a caseless test takes for the lower-case character `c`. -/
def Folding.alike : Folding → Char → List Char
  | full, c => Text.alike c
  | _, c => [c]

/-- The characters of which `c` is the lower case. -/
def Folding.sources : Folding → Char → List Nat
  | exact, c => [c.toNat]
  | latin, c => if c.isUpper then [] else if c.isLower then [c.toNat, c.toNat - 32] else [c.toNat]
  | full, c =>
    let capitals :=
      if c.isLower then (c.toNat - 32) :: lowerRuns.filterMap (·.preimage? c.toNat)
      else lowerRuns.filterMap (·.preimage? c.toNat)
    if lowerChar c == c then c.toNat :: capitals else capitals

/-- The codes that surrogate pairs are made of; no character has one. -/
def isSurrogate (n : Nat) : Bool := 0xd800 ≤ n && n < 0xe000

/-- The characters that count as the one of a code. -/
def Folding.ofCode (folding : Folding) (n : Nat) : List Char :=
  if isSurrogate n then [] else folding.alike (folding.lower (Char.ofNat n))

/-- The largest code of the basic plane. Sets fold the case of characters up to it one by one. -/
def lastBasic : Nat := 0xffff

/-- The first character of the upper case. -/
def firstUpper (c : Char) : Char := (upperChar c).headD c

namespace Member

/-- Whether a member takes a character that the folding has put into lower case. -/
def holds (folding : Folding) : Member → Char → Bool
  | one n, c =>
    if lastBasic < n then c.toNat == n else (folding.ofCode n).contains c
  | range first last, c =>
    if folding = .exact then first ≤ c.toNat && c.toNat ≤ last
    else
      let inside (n : Nat) : Bool := first ≤ n && n ≤ last
      ((folding.alike c).any fun d => (folding.sources d).any fun n => n ≤ lastBasic && inside n) ||
        (lastBasic < last && (inside c.toNat || inside (firstUpper c).toNat))
  | cls k negated ascii, c => k.holds ascii c != negated

end Member

namespace CharTest

def holds : CharTest → Char → Bool
  | any lineBreaks, c => lineBreaks || c != '\n'
  | code n folding negated, c =>
    (folding.ofCode n).contains (folding.lower c) != negated
  | set members folding negated, c =>
    members.any (·.holds folding (folding.lower c)) != negated

end CharTest

/-- Places between characters. -/
inductive Place where
  | textStart
  | textEnd
  | lineStart
  | lineEnd
  | lastLineEnd
  | boundary (ascii negated : Bool)
  deriving DecidableEq, Repr

/-- In which order a repetition tries its counts: most first, fewest first, or most only. -/
inductive Greed where
  | greedy
  | lazy
  | possessive
  deriving DecidableEq, Repr

/-- The least and the most characters of a match; no most where there is no bound. -/
structure Width where
  least : Nat
  most : Option Nat
  deriving Repr

namespace Width

def fixed (n : Nat) : Width := ⟨n, some n⟩

def add (a b : Width) : Width := ⟨a.least + b.least, do return (← a.most) + (← b.most)⟩

def union (a b : Width) : Width := ⟨min a.least b.least, do return max (← a.most) (← b.most)⟩

def times (least : Nat) (most : Option Nat) (w : Width) : Width :=
  ⟨least * w.least,
    match most, w.most with
    | _, some 0 => some 0
    | some n, some m => some (n * m)
    | some 0, none => some 0
    | _, _ => none⟩

end Width

/-- What a pattern is made of. A look-behind carries the width of what it looks for. -/
inductive Node where
  | empty
  | char (test : CharTest)
  | place (p : Place)
  | seq (first second : Node)
  | either (first second : Node)
  | repeated (greed : Greed) (least : Nat) (most : Option Nat) (body : Node)
  | group (n : Nat) (body : Node)
  | again (n : Nat) (folding : Folding)
  | given (n : Nat) (yes no : Node)
  | ahead (negated : Bool) (body : Node)
  | behind (negated : Bool) (back : Width) (body : Node)
  | atomic (body : Node)
  deriving Repr

/-- The width of a node, from the widths of the groups that it repeats. -/
def Node.width (groups : Nat → Width) : Node → Width
  | empty => .fixed 0
  | char _ => .fixed 1
  | place _ => .fixed 0
  | seq a b => (a.width groups).add (b.width groups)
  | either a b => (a.width groups).union (b.width groups)
  | repeated _ least most body => (body.width groups).times least most
  | group _ body => body.width groups
  | again n _ => groups n
  | given _ yes no => (yes.width groups).union (no.width groups)
  | ahead _ _ => .fixed 0
  | behind _ _ _ => .fixed 0
  | atomic body => body.width groups

/-- Whether all look-behinds look for what has one width. -/
def Node.hasFixedBacks : Node → Bool
  | behind _ back body => back.most == some back.least && body.hasFixedBacks
  | seq a b => a.hasFixedBacks && b.hasFixedBacks
  | either a b => a.hasFixedBacks && b.hasFixedBacks
  | given _ a b => a.hasFixedBacks && b.hasFixedBacks
  | repeated _ _ _ body => body.hasFixedBacks
  | group _ body => body.hasFixedBacks
  | ahead _ body => body.hasFixedBacks
  | atomic body => body.hasFixedBacks
  | _ => true

end Pattern

/-- A pattern: its top node, the number of its groups, and the names of some of them. -/
structure Pattern where
  node : Pattern.Node
  groupCount : Nat
  names : List (String × Nat)

end NoteQuery
