import NoteQuery.Proofs.Text.Blanks
import NoteQuery.Query.Mask

/-! Cells and cuts of a text that is put together. Where all quotes and brackets are closed the cells of
what follows do not depend on what came before; a part without cuts of its own is passed over, if the
reader of separators answers the same with and without what follows the part. -/

namespace NoteQuery
set_option autoImplicit false
open Text

/-- The depth at a character, where `d` is the depth before it. -/
def depthHere (d : Nat) (c : Char) : Nat := if closesBracket c then d - 1 else d

/-- The depth after a character. -/
def depthNext (d : Nat) (c : Char) : Nat :=
  if opensBracket c then depthHere d c + 1 else depthHere d c

/-- The cells of a text from a state of quotes and brackets on. -/
def cellsFrom (q : Quoting) (d : Nat) : List Char → List Cell
  | [] => []
  | c :: cs =>
    let shown := if q.hides c then Quoting.mask else c
    ⟨c, shown, depthHere d shown⟩ :: cellsFrom (q.next c) (depthNext d shown) cs

/-- Every quote is closed, and so is every bracket outside quotes. -/
def Balanced (p : List Char) : Prop :=
  p.foldl Quoting.next .outside = .outside ∧ (maskQuoted p).foldl depthNext 0 = 0

/-- A character that is no quote and no bracket. -/
def isPlain (c : Char) : Bool := !(Quoting.isQuote c || opensBracket c || closesBracket c)

theorem ofChars_eq_cellsFrom (cs : List Char) : Cell.ofChars cs = cellsFrom .outside 0 cs := by
  have hfrom (q : Quoting) (d : Nat) :
      (cs.zip ((maskFrom q cs).zip (depthsFrom d (maskFrom q cs)))).map
        (fun x => (⟨x.1, x.2.1, x.2.2⟩ : Cell)) = cellsFrom q d cs := by
    induction cs generalizing q d with
    | nil => rfl
    | cons c cs ih =>
      rw [maskFrom, depthsFrom, List.zip_cons_cons, List.zip_cons_cons, List.map_cons, cellsFrom]
      exact congrArg _ (ih (q.next c) _)
  exact hfrom .outside 0

theorem cellsFrom_append (q : Quoting) (d : Nat) (as bs : List Char) :
    cellsFrom q d (as ++ bs) = cellsFrom q d as ++
      cellsFrom (as.foldl Quoting.next q) ((maskFrom q as).foldl depthNext d) bs := by
  induction as generalizing q d with
  | nil => rfl
  | cons a as ih =>
    rw [List.cons_append, cellsFrom, cellsFrom, ih, List.cons_append]
    rfl

theorem shownText_cellsFrom (q : Quoting) (d : Nat) (cs : List Char) :
    Cell.shownText (cellsFrom q d cs) = maskFrom q cs := by
  induction cs generalizing q d with
  | nil => rfl
  | cons c cs ih => exact congrArg _ (ih _ _)

theorem length_cellsFrom (q : Quoting) (d : Nat) (cs : List Char) :
    (cellsFrom q d cs).length = cs.length := by
  have hlength := congrArg List.length (shownText_cellsFrom q d cs)
  rw [Cell.shownText, List.length_map, length_maskFrom] at hlength
  exact hlength

section
variable {p q : List Char}

theorem Balanced.ofChars_append (h : Balanced p) (cs : List Char) :
    Cell.ofChars (p ++ cs) = Cell.ofChars p ++ Cell.ofChars cs := by
  have hmask : (maskFrom .outside p).foldl depthNext 0 = 0 := h.2
  rw [ofChars_eq_cellsFrom, cellsFrom_append, h.1, hmask, ← ofChars_eq_cellsFrom,
    ← ofChars_eq_cellsFrom]

theorem next_of_isPlain {c : Char} (h : isPlain c) : Quoting.next .outside c = .outside := by
  simp only [isPlain, Bool.not_eq_true', Bool.or_eq_false_iff] at h
  rw [Quoting.next, h.1.1]
  rfl

theorem depthHere_of_isPlain {c : Char} (h : isPlain c) (d : Nat) : depthHere d c = d := by
  simp only [isPlain, Bool.not_eq_true', Bool.or_eq_false_iff] at h
  rw [depthHere, h.2]
  rfl

theorem depthNext_of_isPlain {c : Char} (h : isPlain c) (d : Nat) : depthNext d c = d := by
  have hhere := depthHere_of_isPlain h d
  simp only [isPlain, Bool.not_eq_true', Bool.or_eq_false_iff] at h
  rw [depthNext, h.1.2, hhere]
  rfl

theorem cellsFrom_of_isPlain (h : ∀ c ∈ p, isPlain c) (d : Nat) :
    cellsFrom .outside d p = p.map fun c => ⟨c, c, d⟩ := by
  induction p with
  | nil => rfl
  | cons c p ih =>
    rw [List.forall_mem_cons] at h
    have hshown : (if Quoting.hides .outside c then Quoting.mask else c) = c := rfl
    simp only [cellsFrom, hshown, next_of_isPlain h.1, depthHere_of_isPlain h.1,
      depthNext_of_isPlain h.1, List.map_cons]
    rw [ih h.2]

theorem ofChars_of_isPlain (h : ∀ c ∈ p, isPlain c) : Cell.ofChars p = p.map fun c => ⟨c, c, 0⟩ := by
  rw [ofChars_eq_cellsFrom, cellsFrom_of_isPlain h]

theorem foldl_depthNext_of_isPlain (h : ∀ c ∈ p, isPlain c) (d : Nat) : p.foldl depthNext d = d := by
  induction p with
  | nil => rfl
  | cons c p ih =>
    rw [List.forall_mem_cons] at h
    rw [List.foldl_cons, depthNext_of_isPlain h.1]
    exact ih h.2

theorem balanced_of_isPlain (h : ∀ c ∈ p, isPlain c) : Balanced p := by
  unfold Balanced maskQuoted
  induction p with
  | nil => exact ⟨rfl, rfl⟩
  | cons c p ih =>
    rw [List.forall_mem_cons] at h
    have hshown : (if Quoting.hides .outside c then Quoting.mask else c) = c := rfl
    rw [List.foldl_cons, maskFrom, next_of_isPlain h.1, hshown, List.foldl_cons, depthNext_of_isPlain h.1]
    exact ih h.2

theorem isPlain_of_isBlank {c : Char} (h : isBlank c) : isPlain c := by
  exact forall_isBlank (p := fun c => isPlain c) (by decide +kernel) h

end

section
variable {κ : Type} {read? : SeparatorReader κ}

theorem cutAt_nil (before : Option Cell) (piece : List Cell) :
    cutAt read? before piece [] = (piece.reverse, []) := by rw [cutAt]

theorem cutAt_none {before : Option Cell} {c : Cell} {cs : List Cell} (h : read? before c cs = none)
    (piece : List Cell) :
    cutAt read? before piece (c :: cs) = cutAt read? (some c) (c :: piece) cs := by
  rw [cutAt]
  simp only [h]

theorem cutAt_of_none {cells rest : List Cell}
    (h : ∀ before c cs, c :: cs <:+ cells → read? before c (cs ++ rest) = none)
    (before : Option Cell) (piece : List Cell) : cutAt read? before piece (cells ++ rest) =
      cutAt read? (cells.getLast?.or before) (cells.reverse ++ piece) rest := by
  induction cells generalizing before piece with
  | nil => rfl
  | cons c cells ih =>
    rw [List.cons_append, cutAt_none (h before c cells List.suffix_rfl),
      ih fun b d ds hd => h b d ds (hd.trans (List.suffix_cons c cells)), List.getLast?_cons,
      List.reverse_cons, List.append_assoc]
    cases cells.getLast? <;> rfl

theorem cutAt_some {before : Option Cell} {c : Cell} {cs : List Cell} {k : κ} {extra : Nat}
    (h : read? before c cs = some (k, extra)) (piece : List Cell) :
    cutAt read? before piece (c :: cs) =
      if c.depth = 0 then
        (piece.reverse, ⟨k, c :: cs.take extra,
          (cutAt read? (c :: cs.take extra).getLast? [] (cs.drop extra)).1⟩ ::
            (cutAt read? (c :: cs.take extra).getLast? [] (cs.drop extra)).2)
      else cutAt read? (c :: cs.take extra).getLast? ((c :: cs.take extra).reverse ++ piece)
        (cs.drop extra) := by
  rw [cutAt]
  simp only [h]

theorem cutAt_pass {cells rest : List Cell}
    (hread : ∀ before c cs, c :: cs <:+ cells → read? before c (cs ++ rest) = read? before c cs)
    (hextra : ∀ before c cs k extra, read? before c cs = some (k, extra) → extra ≤ cs.length)
    (before : Option Cell) (piece : List Cell) (hnone : (cutAt read? before piece cells).2 = []) :
    cutAt read? before piece (cells ++ rest) =
      cutAt read? (cells.getLast?.or before) (cells.reverse ++ piece) rest := by
  induction hn : cells.length using Nat.strongRecOn generalizing before piece cells with
  | ind n ih =>
    cases cells with
    | nil => rfl
    | cons c cs =>
      have hstep := hread before c cs List.suffix_rfl
      cases hc : read? before c cs with
      | none =>
        rw [hc] at hstep
        rw [cutAt_none hc] at hnone
        rw [List.cons_append, cutAt_none hstep,
          ih cs.length (by simp only [List.length_cons] at hn; omega)
            (fun b d ds hd => hread b d ds (hd.trans (List.suffix_cons c cs))) _ _ hnone rfl,
          List.getLast?_cons, List.reverse_cons, List.append_assoc]
        cases cs.getLast? <;> rfl
      | some r =>
        obtain ⟨k, extra⟩ := r
        have hle := hextra _ _ _ _ _ hc
        rw [hc] at hstep
        rw [cutAt_some hc] at hnone
        rw [List.cons_append, cutAt_some hstep, List.take_append_of_le_length hle,
          List.drop_append_of_le_length hle]
        split
        · next hzero =>
          rw [if_pos hzero] at hnone
          cases hnone
        · next hzero =>
          rw [if_neg hzero] at hnone
          have hshorter : (cs.drop extra).length < n := by
            rw [List.length_drop]
            simp only [List.length_cons] at hn
            omega
          rw [ih _ hshorter (fun b d ds hd => hread b d ds (hd.trans ((List.drop_suffix extra cs).trans
            (List.suffix_cons c cs)))) _ _ hnone rfl]
          have hall : c :: cs = (c :: cs.take extra) ++ cs.drop extra := by
            rw [List.cons_append, List.take_append_drop]
          have hlast : (cs.drop extra).getLast?.or (c :: cs.take extra).getLast? =
              (c :: cs).getLast?.or before := by
            rw [hall, List.getLast?_append, Option.or_assoc, List.getLast?_cons, Option.some_or]
          rw [hlast, ← List.append_assoc, ← List.reverse_append, ← hall]

end

end NoteQuery
