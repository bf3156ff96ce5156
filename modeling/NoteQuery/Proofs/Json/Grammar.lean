import NoteQuery.Json.Reader

/-! Which texts are interchange data, and what they denote, said without a reader. A text is built up from
its parts, so a proof about all texts has one case for each way to build one. The words that stand for
values are a parameter: the standard has three of them, and a reader may know more. -/

namespace NoteQuery.Json
set_option autoImplicit false
open Text

/-! ### Numerals -/

/-- Digits in front of a point: no zero in front of others. -/
structure IsWhole (ds : List Char) : Prop where
  ne_nil : ds ≠ []
  isDigit : ∀ c ∈ ds, c.isDigit = true
  noZero : ds.head? = some '0' → ds.length = 1

inductive FractionPart : List Char → List Char → Prop
  | absent : FractionPart [] []
  | present {ds : List Char} : ds ≠ [] → (∀ c ∈ ds, c.isDigit = true) → FractionPart ('.' :: ds) ds

inductive SignPart : List Char → Bool → Prop
  | absent : SignPart [] false
  | plus : SignPart ['+'] false
  | minus : SignPart ['-'] true

inductive ExponentPart : List Char → Option Int → Prop
  | absent : ExponentPart [] none
  | present {mark : Char} {sign ds : List Char} {negative : Bool} : mark = 'e' ∨ mark = 'E' →
      SignPart sign negative → ds ≠ [] → (∀ c ∈ ds, c.isDigit = true) →
      ExponentPart (mark :: (sign ++ ds)) (some (Numeral.signed negative (naturalOfDigits ds)))

/-- A numeral with a point or an exponent is floating, any other an integer. -/
inductive IsNumeral : List Char → Number → Prop
  | int {negative : Bool} {whole : List Char} : IsWhole whole →
      IsNumeral (Binary64.signText negative ++ whole)
        (.int (Numeral.signed negative (naturalOfDigits whole)))
  | real {negative : Bool} {whole point digits mark : List Char} {e : Option Int} : IsWhole whole →
      FractionPart point digits → ExponentPart mark e → point ++ mark ≠ [] →
      IsNumeral (Binary64.signText negative ++ (whole ++ (point ++ mark)))
        (.real (Numeral.realOf negative whole digits (e.getD 0)))

/-! ### Texts -/

/-- A unit of sixteen bits in hexadecimal digits. -/
inductive UnitEscape : List Char → Nat → Prop
  | digits {a b c d : Char} {i j k l : Nat} : hexValue? a = some i → hexValue? b = some j →
      hexValue? c = some k → hexValue? d = some l →
      UnitEscape ['\\', 'u', a, b, c, d] (((i * 16 + j) * 16 + k) * 16 + l)

/-- The second half of a pair stands here. -/
def StartsLow (cs : List Char) : Prop := ∃ v k, UnitEscape v k ∧ isLowUnit k = true ∧ v <+: cs

/-- What stands between two quotes, and the characters it denotes. Two units that belong together are one
character; a lone half of a pair has none and counts as the replacement character. -/
inductive Body : List Char → List Char → Prop
  | nil : Body [] []
  | plain {c : Char} {cs ds : List Char} : 32 ≤ c.toNat → c ≠ '"' → c ≠ '\\' → Body cs ds →
      Body (c :: cs) (c :: ds)
  | short {c d : Char} {cs ds : List Char} : simpleEscape? c = some d → Body cs ds →
      Body ('\\' :: c :: cs) (d :: ds)
  | unit {u cs ds : List Char} {n : Nat} : UnitEscape u n → isHighUnit n = false →
      isLowUnit n = false → Body cs ds → Body (u ++ cs) (Char.ofNat n :: ds)
  | pair {u v cs ds : List Char} {n k : Nat} : UnitEscape u n → isHighUnit n = true →
      UnitEscape v k → isLowUnit k = true → Body cs ds →
      Body (u ++ (v ++ cs)) (Char.ofNat (0x10000 + (n - 0xd800) * 0x400 + (k - 0xdc00)) :: ds)
  | loneLow {u cs ds : List Char} {n : Nat} : UnitEscape u n → isLowUnit n = true → Body cs ds →
      Body (u ++ cs) ('\ufffd' :: ds)
  | loneHigh {u cs ds : List Char} {n : Nat} : UnitEscape u n → isHighUnit n = true →
      ¬StartsLow cs → Body cs ds →
      Body (u ++ cs) ('\ufffd' :: ds)

/-- A text with its quotes. -/
inductive IsText : List Char → String → Prop
  | quoted {cs ds : List Char} : Body cs ds → IsText ('"' :: (cs ++ ['"'])) (String.ofList ds)

/-! ### Values -/

/-- Blank characters, or none. -/
def IsGap (cs : List Char) : Prop := ∀ c ∈ cs, isGap c = true

/-- Members in the order of a text; of two with one name the later one counts, in the earlier's place. -/
def gather (ms : List (String × Json)) : List (String × Json) :=
  ms.foldl (fun out m => insertMember out m.1 m.2) []

/-- A name with the blanks around it. -/
inductive IsName : List Char → String → Prop
  | padded {gap cs gap' : List Char} {s : String} : IsGap gap → IsText cs s → IsGap gap' →
      IsName (gap ++ (cs ++ gap')) s

mutual

/-- The value that a text without blanks around it denotes. -/
inductive DenotesBare (words : List (String × Json)) : List Char → Json → Prop
  | word {w : String} {j : Json} : (w, j) ∈ words → DenotesBare words w.toList j
  | number {cs : List Char} {n : Number} : IsNumeral cs n → DenotesBare words cs (number n)
  | text {cs : List Char} {s : String} : IsText cs s → DenotesBare words cs (text s)
  | noItems {gap : List Char} : IsGap gap → DenotesBare words ('[' :: (gap ++ [']'])) (array [])
  | array {cs : List Char} {js : List Json} : DenotesItems words cs js →
      DenotesBare words ('[' :: (cs ++ [']'])) (array js)
  | noMembers {gap : List Char} : IsGap gap →
      DenotesBare words ('\x7b' :: (gap ++ ['\x7d'])) (object [])
  | object {cs : List Char} {ms : List (String × Json)} : DenotesMembers words cs ms →
      DenotesBare words ('\x7b' :: (cs ++ ['\x7d'])) (object (gather ms))

/-- The value that a text denotes. -/
inductive Denotes (words : List (String × Json)) : List Char → Json → Prop
  | padded {gap cs gap' : List Char} {j : Json} : IsGap gap → DenotesBare words cs j →
      IsGap gap' → Denotes words (gap ++ (cs ++ gap')) j

/-- Values between commas, at least one. -/
inductive DenotesItems (words : List (String × Json)) : List Char → List Json → Prop
  | one {cs : List Char} {j : Json} : Denotes words cs j → DenotesItems words cs [j]
  | more {cs rest : List Char} {j : Json} {js : List Json} : Denotes words cs j →
      DenotesItems words rest js → DenotesItems words (cs ++ ',' :: rest) (j :: js)

/-- Named values between commas, at least one. -/
inductive DenotesMembers (words : List (String × Json)) : List Char → List (String × Json) → Prop
  | one {name cs : List Char} {k : String} {j : Json} : IsName name k → Denotes words cs j →
      DenotesMembers words (name ++ ':' :: cs) [(k, j)]
  | more {name cs rest : List Char} {k : String} {j : Json} {ms : List (String × Json)} :
      IsName name k → Denotes words cs j → DenotesMembers words rest ms →
      DenotesMembers words (name ++ ':' :: (cs ++ ',' :: rest)) ((k, j) :: ms)

end

/-! ### Names of members -/

def names (ms : List (String × Json)) : List String := ms.map Prod.fst

@[simp] theorem names_cons (k : String) (j : Json) (ms : List (String × Json)) :
    names ((k, j) :: ms) = k :: names ms := rfl

theorem names_insertMember (ms : List (String × Json)) (k : String) (j : Json) :
    names (insertMember ms k j) = if k ∈ names ms then names ms else names ms ++ [k] := by
  induction ms with
  | nil => rfl
  | cons m ms ih =>
    obtain ⟨l, i⟩ := m
    by_cases h : l = k
    · subst h
      simp [insertMember]
    · have hk : k ≠ l := fun hk => h hk.symm
      rw [insertMember, if_neg h]
      simp only [names_cons, ih, List.mem_cons, hk, false_or]
      split <;> rfl

theorem nodup_insertMember {ms : List (String × Json)} (h : (names ms).Nodup) (k : String) (j : Json) :
    (names (insertMember ms k j)).Nodup := by
  rw [names_insertMember]
  split
  · exact h
  · next hk =>
    refine List.nodup_append.mpr ⟨h, by simp, ?_⟩
    rintro l hl m hm rfl
    exact hk (List.mem_singleton.mp hm ▸ hl)

theorem nodup_gather (ms : List (String × Json)) : (names (gather ms)).Nodup := by
  have hfold (out : List (String × Json)) (h : (names out).Nodup) :
      (names (ms.foldl (fun out m => insertMember out m.1 m.2) out)).Nodup := by
    induction ms generalizing out with
    | nil => exact h
    | cons m ms ih => exact ih _ (nodup_insertMember h m.1 m.2)
  exact hfold [] List.nodup_nil

/-- The members of an object that a text denotes have names of their own. -/
theorem Denotes.nodup {cs : List Char} {ms : List (String × Json)}
    (h : Denotes lenientWords cs (object ms)) : (names ms).Nodup := by
  obtain ⟨-, hbare, -⟩ := h
  generalize hj : object ms = j at hbare
  cases hbare with
  | word hmem =>
    subst hj
    simp [lenientWords, standardWords] at hmem
  | number => cases hj
  | text => cases hj
  | noItems => cases hj
  | array => cases hj
  | noMembers =>
    cases hj
    exact List.nodup_nil
  | object =>
    cases hj
    exact nodup_gather _

end NoteQuery.Json
