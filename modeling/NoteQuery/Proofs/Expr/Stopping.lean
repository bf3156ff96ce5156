import NoteQuery.Proofs.Expr.Layers

/-! Where a phrase ends. A token that can follow a phrase inside a longer one does so in one layer only,
so a list of tokens stops the phrases of a layer when its first token belongs to a weaker layer or to
none. -/

namespace NoteQuery
set_option autoImplicit false
open NoteQuery.Expr

/-- The place of a layer, counted from the weakest. -/
def Layer.rank : Layer → Nat
  | disjunction => 0
  | conjunction => 1
  | comparison => 2
  | sum => 3
  | product => 4
  | prefixed => 5
  | postfixed => 6
  | primary => 7

/-- What holds of a layer holds of the weaker ones, if it passes from the operand of a layer to the
layer. -/
theorem Layer.descend {motive : Layer → Prop}
    (step : ∀ l, l ≠ primary → motive l.operand → motive l) {l m : Layer} (h : motive m)
    (hle : l.rank ≤ m.rank) : motive l := by
  induction hn : m.rank - l.rank generalizing l with
  | zero =>
    have hrank : l.rank = m.rank := by omega
    have hsame : l = m := by cases l <;> cases m <;> first | rfl | cases hrank
    rw [hsame]
    exact h
  | succ n ih =>
    have hne : l ≠ primary := by
      rintro rfl
      cases m <;> simp [rank] at hn
    have hrank : l.operand.rank = l.rank + 1 := by cases l <;> first | rfl | exact absurd rfl hne
    exact step l hne (ih (by omega) (by omega))

/-- A phrase of a layer is one of each weaker layer. -/
theorem Derives.weaken {after : List Token → Prop} {l m : Layer} {ts rest : List Token} {e : Expr}
    (h : Derives after m ts e rest) (hle : l.rank ≤ m.rank) : Derives after l ts e rest :=
  Layer.descend (motive := fun k => Derives after k ts e rest) (fun _ hne hk => .operand hne hk) h hle

theorem Derives.of_primary {after : List Token → Prop} {ts rest : List Token} {e : Expr}
    (h : Derives after .primary ts e rest) (l : Layer) : Derives after l ts e rest :=
  h.weaken (by cases l <;> decide)

theorem Derives.expression {after : List Token → Prop} {l : Layer} {ts rest : List Token} {e : Expr}
    (h : Derives after l ts e rest) : Derives after .disjunction ts e rest :=
  h.weaken (Nat.zero_le l.rank)

/-- The layer in which a token can follow a phrase inside a longer one. -/
def Token.layer? (t : Token) : Option Layer :=
  match t.kind with
  | .punctuation =>
    if t.text = "(" then some .primary
    else if t.text = "." ∨ t.text = "[" then some .postfixed
    else none
  | .operator =>
    if t.text = "=>" then some .primary
    else if t.text = "*" ∨ t.text = "/" ∨ t.text = "%" then some .product
    else if t.text = "+" ∨ t.text = "-" then some .sum
    else if t.text = "&&" then some .conjunction
    else if t.text = "||" then some .disjunction
    else if (Comparison.ofSymbol? t.text).isSome then some .comparison
    else none
  | .keyword =>
    if t.text = "AND" then some .conjunction
    else if t.text = "OR" then some .disjunction
    else none
  | _ => none

/-- The first of the tokens carries on no phrase of a layer or of a stronger one. -/
def Stops (l : Layer) (ts : List Token) : Prop :=
  ∀ t ∈ ts.head?, ∀ m ∈ t.layer?, m.rank < l.rank

theorem layer?_of_mark {t : Token} {symbol : String} (h : t.isMark symbol) :
    t.layer? = Token.layer? ⟨.punctuation, symbol, 0⟩ := by
  simp only [Token.isMark, Bool.and_eq_true, decide_eq_true_eq, beq_iff_eq] at h
  simp [Token.layer?, h.1, h.2]

theorem layer?_of_operator {t : Token} {symbol : String} (h : t.isOperator symbol) :
    t.layer? = Token.layer? ⟨.operator, symbol, 0⟩ := by
  simp only [Token.isOperator, Bool.and_eq_true, decide_eq_true_eq, beq_iff_eq] at h
  simp [Token.layer?, h.1, h.2]

theorem layer?_of_keyword {t : Token} {word : String} (h : t.isKeyword word) :
    t.layer? = Token.layer? ⟨.keyword, word, 0⟩ := by
  simp only [Token.isKeyword, Bool.and_eq_true, decide_eq_true_eq, beq_iff_eq] at h
  simp [Token.layer?, h.1, h.2]

theorem layer?_of_connective? {l : Layer} {t : Token} {op : Connective}
    (h : l.connective? t = some op) : t.layer? = some l := by
  cases l with
  | disjunction =>
    simp only [Layer.connective?, Option.ite_none_right_eq_some, Bool.or_eq_true] at h
    rcases h.1 with h | h
    · exact layer?_of_keyword h
    · exact layer?_of_operator h
  | conjunction =>
    simp only [Layer.connective?, Option.ite_none_right_eq_some, Bool.or_eq_true] at h
    rcases h.1 with h | h
    · exact layer?_of_keyword h
    · exact layer?_of_operator h
  | _ => simp [Layer.connective?] at h

theorem layer?_of_arithmetic? {l : Layer} {t : Token} {op : Arithmetic}
    (h : l.arithmetic? t = some op) : t.layer? = some l := by
  cases l with
  | sum =>
    simp only [Layer.arithmetic?] at h
    split at h
    · next hs => exact layer?_of_operator hs
    · split at h
      · next hs => exact layer?_of_operator hs
      · cases h
  | product =>
    simp only [Layer.arithmetic?] at h
    split at h
    · next hs => exact layer?_of_operator hs
    · split at h
      · next hs => exact layer?_of_operator hs
      · split at h
        · next hs => exact layer?_of_operator hs
        · cases h
  | _ => simp [Layer.arithmetic?] at h

theorem layer?_of_join? {l : Layer} {t : Token} {f : Expr → Expr → Expr}
    (h : l.join? t = some f) : t.layer? = some l := by
  rcases Option.or_eq_some_iff.mp h with h | ⟨_, h⟩
  · obtain ⟨op, hop, _⟩ := Option.map_eq_some_iff.mp h
    exact layer?_of_connective? hop
  · obtain ⟨op, hop, _⟩ := Option.map_eq_some_iff.mp h
    exact layer?_of_arithmetic? hop

theorem layer?_of_comparison? {t : Token} {c : Comparison} (h : t.comparison? = some c) :
    t.layer? = some .comparison := by
  simp only [Token.comparison?, Option.ite_none_right_eq_some] at h
  obtain ⟨hk, h⟩ := h
  unfold Comparison.ofSymbol? at h
  split at h
  case h_8 => cases h
  all_goals simp [Token.layer?, Comparison.ofSymbol?, *]

namespace Stops

variable {l : Layer} {t : Token} {ts : List Token}

theorem nil (l : Layer) : Stops l [] := by
  intro t ht
  simp at ht

theorem cons (h : ∀ m ∈ t.layer?, m.rank < l.rank) (ts : List Token) : Stops l (t :: ts) := by
  intro s hs
  cases hs
  exact h

theorem operand (h : Stops l ts) : Stops l.operand ts := by
  intro t ht m hm
  refine Nat.lt_of_lt_of_le (h t ht m hm) ?_
  cases l <;> simp [Layer.operand, Layer.rank]

/-- A token that joins phrases of a layer carries on none of the stronger ones. -/
theorem of_layer? {m : Layer} (h : t.layer? = some m) (hlt : m.rank < l.rank) (ts : List Token) :
    Stops l (t :: ts) := by
  refine cons ?_ ts
  intro k hk
  rw [h] at hk
  cases hk
  exact hlt

/-- What closes a group, an index or an argument carries nothing on. -/
theorem of_mark {symbol : String} (h : t.isMark symbol) (hs : symbol ∈ [")", "]", ","])
    (l : Layer) (ts : List Token) : Stops l (t :: ts) := by
  refine cons ?_ ts
  intro m hm
  rw [layer?_of_mark h] at hm
  simp only [List.mem_cons, List.not_mem_nil, or_false] at hs
  rcases hs with rfl | rfl | rfl <;> simp [Token.layer?] at hm

/-- So does the end of the tokens, or a closing parenthesis. -/
theorem of_closing (hc : ∀ t ∈ ts.head?, t.isMark ")") (l : Layer) : Stops l ts := by
  cases ts with
  | nil => exact nil l
  | cons t ts => exact of_mark (hc t rfl) (by simp) l ts

theorem isMark_eq_false {symbol : String} {m : Layer} (h : Stops l (t :: ts))
    (hm : Token.layer? ⟨.punctuation, symbol, 0⟩ = some m) (hle : l.rank ≤ m.rank) :
    t.isMark symbol = false := by
  cases ht : t.isMark symbol with
  | false => rfl
  | true => exact absurd (h t rfl m ((layer?_of_mark ht).trans hm)) (Nat.not_lt.mpr hle)

theorem isOperator_eq_false {symbol : String} {m : Layer} (h : Stops l (t :: ts))
    (hm : Token.layer? ⟨.operator, symbol, 0⟩ = some m) (hle : l.rank ≤ m.rank) :
    t.isOperator symbol = false := by
  cases ht : t.isOperator symbol with
  | false => rfl
  | true => exact absurd (h t rfl m ((layer?_of_operator ht).trans hm)) (Nat.not_lt.mpr hle)

theorem join?_eq_none (h : Stops l ts) : ∀ t ∈ ts.head?, l.join? t = none := by
  intro t ht
  cases hj : l.join? t with
  | none => rfl
  | some f => exact absurd (h t ht l (layer?_of_join? hj)) (Nat.lt_irrefl _)

end Stops

end NoteQuery
