import NoteQuery.Proofs.Json.Numerals
import NoteQuery.Proofs.Json.Reading

/-! What is written for interchange data denotes it, and uses no word beyond those of the standard. Numbers
have to be finite and rounded, and the members of an object to have names of their own. -/

namespace NoteQuery
set_option autoImplicit false

namespace Json

/-! ### Texts -/

theorem hexValue?_digitChar {k : Nat} (hk : k < 16) : hexValue? (Nat.digitChar k) = some k := by
  interval_cases k <;> rfl

theorem unitEscape_escapeUnit {n : Nat} (hn : n < 0x10000) : UnitEscape (escapeUnit n) n := by
  have h := UnitEscape.digits (hexValue?_digitChar (Nat.mod_lt (n >>> 12) (by decide)))
    (hexValue?_digitChar (Nat.mod_lt (n >>> 8) (by decide)))
    (hexValue?_digitChar (Nat.mod_lt (n >>> 4) (by decide)))
    (hexValue?_digitChar (Nat.mod_lt (n >>> 0) (by decide)))
  have hvalue : ((n >>> 12 % 16 * 16 + n >>> 8 % 16) * 16 + n >>> 4 % 16) * 16 + n >>> 0 % 16 = n := by
    simp only [Nat.shiftRight_eq_div_pow]
    omega
  rw [hvalue] at h
  exact h

variable {cs ds : List Char}

/-- A character is one unit, or beyond sixteen bits a pair. -/
theorem Body.units (c : Char) (h : Body cs ds) : Body (escapeUnits c.toNat ++ cs) (c :: ds) := by
  have hvalid : c.toNat < 0xd800 ∨ 0xdfff < c.toNat ∧ c.toNat < 0x110000 := c.valid
  have hchar : Char.ofNat c.toNat = c := Char.ofNat_toNat c
  unfold escapeUnits
  split
  · next hsmall =>
    have hbody := Body.unit (unitEscape_escapeUnit hsmall)
      (by simp only [isHighUnit, Bool.and_eq_false_iff, decide_eq_false_iff_not]; omega)
      (by simp only [isLowUnit, Bool.and_eq_false_iff, decide_eq_false_iff_not]; omega) h
    rwa [hchar] at hbody
  · next hlarge =>
    dsimp only
    generalize hk : c.toNat - 0x10000 = k
    have hpair : 0x10000 + (0xd800 + k / 0x400 - 0xd800) * 0x400 + (0xdc00 + k % 0x400 - 0xdc00) =
        c.toNat := by omega
    have hbody := Body.pair (unitEscape_escapeUnit (n := 0xd800 + k / 0x400) (by omega))
      (by simp only [isHighUnit, Bool.and_eq_true, decide_eq_true_eq]; omega)
      (unitEscape_escapeUnit (n := 0xdc00 + k % 0x400) (by omega))
      (by simp only [isLowUnit, Bool.and_eq_true, decide_eq_true_eq]; omega) h
    rwa [hpair, hchar, ← List.append_assoc] at hbody

theorem Body.char (e : Escaping) (c : Char) (h : Body cs ds) : Body (escapeChar e c ++ cs) (c :: ds) := by
  unfold escapeChar
  split_ifs with hquote hslash hn hr ht hb hf hunits
  · obtain rfl := eq_of_beq hquote
    exact .short rfl h
  · obtain rfl := eq_of_beq hslash
    exact .short rfl h
  · obtain rfl := eq_of_beq hn
    exact .short rfl h
  · obtain rfl := eq_of_beq hr
    exact .short rfl h
  · obtain rfl := eq_of_beq ht
    exact .short rfl h
  · obtain rfl := eq_of_beq hb
    exact .short rfl h
  · obtain rfl := eq_of_beq hf
    exact .short rfl h
  · exact h.units c
  · rw [beq_iff_eq] at hquote hslash
    exact .plain (by omega) hquote hslash h

theorem isText_textChars (e : Escaping) (s : String) : IsText (textChars e s) s := by
  have hbody (cs : List Char) : Body (cs.flatMap (escapeChar e)) cs := by
    induction cs with
    | nil => exact .nil
    | cons c cs ih => exact ih.char e c
  have h := IsText.quoted (hbody s.toList)
  rwa [String.ofList_toList] at h

/-! ### Members -/

theorem insertMember_of_not_mem {out : List (String × Json)} {k : String} (hk : k ∉ names out) (j : Json) :
    insertMember out k j = out ++ [(k, j)] := by
  induction out with
  | nil => rfl
  | cons m out ih =>
    obtain ⟨l, i⟩ := m
    obtain ⟨hne, hk⟩ := not_or.mp (List.mem_cons.not.mp hk)
    rw [insertMember, if_neg (Ne.symm hne), ih hk]
    rfl

/-- Members with names of their own are all kept. -/
theorem gather_eq {ms : List (String × Json)} (h : (names ms).Nodup) : gather ms = ms := by
  have hfold (out rest : List (String × Json)) (h : (names (out ++ rest)).Nodup) :
      rest.foldl (fun out m => insertMember out m.1 m.2) out = out ++ rest := by
    induction rest generalizing out with
    | nil => rw [List.append_nil, List.foldl_nil]
    | cons m rest ih =>
      have hm : m.1 ∉ names out := by
        intro hmem
        rw [names, List.map_append, List.map_cons] at h
        exact (List.nodup_append.mp h).2.2 _ hmem _ List.mem_cons_self rfl
      rw [List.append_cons] at h
      rw [List.foldl_cons, insertMember_of_not_mem hm, ih _ h, ← List.append_cons]
  exact hfold [] ms h

/-! ### Values -/

mutual

/-- Data that the standard has a text for. -/
def IsStrict : Json → Prop
  | number n => n.IsRounded ∧ n.IsFinite
  | array items => AllStrict items
  | object members => (names members).Nodup ∧ MembersStrict members
  | _ => True

def AllStrict : List Json → Prop
  | [] => True
  | j :: js => j.IsStrict ∧ AllStrict js

def MembersStrict : List (String × Json) → Prop
  | [] => True
  | (_, j) :: ms => j.IsStrict ∧ MembersStrict ms

end

section
variable {words : List (String × Json)} {cs : List Char}

theorem isGap_blank : IsGap [' '] := List.forall_mem_singleton.mpr rfl

theorem DenotesBare.denotes {j : Json} (h : DenotesBare words cs j) : Denotes words cs j := by
  have hpadded := Denotes.padded IsGap.nil h IsGap.nil
  rwa [List.nil_append, List.append_nil] at hpadded

theorem isName_textChars (e : Escaping) (k : String) : IsName (textChars e k) k := by
  have h := IsName.padded IsGap.nil (isText_textChars e k) IsGap.nil
  rwa [List.nil_append, List.append_nil] at h

mutual

/-- What is written for strict data denotes it. -/
theorem IsStrict.denotes (hwords : ∀ w ∈ standardWords, w ∈ words) (e : Escaping) :
    (j : Json) → j.IsStrict → DenotesBare words (chars e j) j
  | null, _ => .word (hwords ("null", null) (by simp [standardWords]))
  | bool true, _ => .word (hwords ("true", bool true) (by simp [standardWords]))
  | bool false, _ => .word (hwords ("false", bool false) (by simp [standardWords]))
  | number n, h => by
    rw [IsStrict] at h
    exact .number (n.isNumeral_exactText h.1 h.2)
  | text s, _ => .text (isText_textChars e s)
  | array items, h => by
    rw [IsStrict] at h
    obtain rfl | hne := eq_or_ne items []
    · exact .noItems IsGap.nil
    · exact .array (AllStrict.denotes hwords e items hne h)
  | object members, h => by
    rw [IsStrict] at h
    obtain rfl | hne := eq_or_ne members []
    · exact .noMembers IsGap.nil
    · have hobject := DenotesBare.object (MembersStrict.denotes hwords e members hne h.2)
      rwa [gather_eq h.1] at hobject

theorem AllStrict.denotes (hwords : ∀ w ∈ standardWords, w ∈ words) (e : Escaping) :
    (js : List Json) → js ≠ [] → AllStrict js →
    DenotesItems words (commas (itemChars e js)) js
  | [], hne, _ => absurd rfl hne
  | [j], _, h => .one (IsStrict.denotes hwords e j h.1).denotes
  | j :: i :: js, _, h => .more (IsStrict.denotes hwords e j h.1).denotes
      ((AllStrict.denotes hwords e (i :: js) (List.cons_ne_nil i js) h.2).gap isGap_blank)

theorem MembersStrict.denotes (hwords : ∀ w ∈ standardWords, w ∈ words) (e : Escaping) :
    (ms : List (String × Json)) → ms ≠ [] → MembersStrict ms →
    DenotesMembers words (commas (memberChars e ms)) ms
  | [], hne, _ => absurd rfl hne
  | [(k, j)], _, h =>
    .one (isName_textChars e k) ((IsStrict.denotes hwords e j h.1).denotes.gap isGap_blank)
  | (k, j) :: m :: ms, _, h => by
    have hvalue := (IsStrict.denotes hwords e j h.1).denotes.gap isGap_blank
    have hrest := (MembersStrict.denotes hwords e (m :: ms) (List.cons_ne_nil m ms) h.2).gap isGap_blank
    have hmore := DenotesMembers.more (isName_textChars e k) hvalue hrest
    simpa [memberChars, commas] using hmore

end

end

variable {j : Json}

theorem IsStrict.denotes_render (h : j.IsStrict) (e : Escaping) :
    Denotes standardWords (j.render e).toList j := by
  rw [render, String.toList_ofList]
  exact (IsStrict.denotes (fun _ hw => hw) e j h).denotes

/-- What is written for strict data is read as that data. -/
theorem IsStrict.read?_render (h : j.IsStrict) (e : Escaping) :
    read? (j.render e).toList = some j := by
  rw [render, String.toList_ofList]
  exact read?_eq_some.mpr (IsStrict.denotes (fun _ hw => List.mem_append_left _ hw) e j h).denotes

end Json
end NoteQuery
