import NoteQuery.Text.Search

/-!
Markup of a console. A tag in square brackets sets the style of what follows, up to the closing `[/]`.
A backslash before a tag makes it text, and two backslashes before one stand for a backslash.
-/

namespace NoteQuery.Markup
set_option autoImplicit false

/-- Characters with which a tag starts. -/
def startsTag (c : Char) : Bool := ('a' ≤ c && c ≤ 'z') || c == '#' || c == '/' || c == '@'

/-- Whether a text begins with a tag: brackets around text that has no bracket in it. -/
def tagAhead : List Char → Bool
  | '[' :: c :: cs => startsTag c && (cs.dropWhile fun d => d != '[' && d != ']').head? == some ']'
  | _ => false

/-- Escapes the tags in a text that follows `n` backslashes. -/
def escapeTags (n : Nat) : List Char → List Char
  | [] => List.replicate n '\\'
  | c :: cs =>
    if c = '\\' then escapeTags (n + 1) cs
    else List.replicate (if tagAhead (c :: cs) then 2 * n + 1 else n) '\\' ++ c :: escapeTags 0 cs

def endsOpen (cs : List Char) : Bool := Text.endsWith ['\\'] cs && !Text.endsWith ['\\', '\\'] cs

/-- Text as markup that shows it. A single backslash at the end would escape a tag that follows, so
it is doubled. -/
def escape (cs : List Char) : List Char :=
  let escaped := escapeTags 0 cs
  if endsOpen escaped then escaped ++ ['\\'] else escaped

/-- Text in a style. -/
def styled (style : String) (cs : List Char) : List Char :=
  '[' :: style.toList ++ ']' :: escape cs ++ ['[', '/', ']']

/-- Where a reader of markup is: after some backslashes, or within a tag. -/
inductive Spot where
  | text (slashes : Nat)
  | tag

/-- What markup shows, without the styles. -/
def shownFrom : Spot → List Char → List Char
  | .text n, [] => List.replicate n '\\'
  | .tag, [] => []
  | .tag, c :: cs => shownFrom (if c = ']' then .text 0 else .tag) cs
  | .text n, c :: cs =>
    if c = '\\' then shownFrom (.text (n + 1)) cs
    else if tagAhead (c :: cs) then
      List.replicate (n / 2) '\\' ++
        if n % 2 = 1 then c :: shownFrom (.text 0) cs else shownFrom .tag cs
    else List.replicate (if c = '[' then n - 1 else n) '\\' ++ c :: shownFrom (.text 0) cs

def shown (cs : List Char) : List Char := shownFrom (.text 0) cs

end NoteQuery.Markup
