import NoteQuery.Proofs.Text.Blanks
import NoteQuery.Text.Search

/-! The lines of a text that is put together. A text without line breaks belongs to one line. Whole lines stay what
they are when a text is written behind them, unless a carriage return at their end meets a line feed; and lines
that follow one another in a text are the lines of the text they make. -/

namespace NoteQuery
set_option autoImplicit false
open Text

def OneLine (cs : List Char) : Prop := ∀ c ∈ cs, isLineBreak c = false

/-- A text that is empty or ends with a line break. -/
def EndsLine (cs : List Char) : Prop := ∀ c ∈ cs.getLast?, isLineBreak c

section
variable {c : Char} {cs ds p : List Char} {l : Line} {front back : List Line}

theorem isLineBreak_of_notBlank (h : isBlank c = false) : isLineBreak c = false := by
  cases hbreak : isLineBreak c with
  | false => rfl
  | true =>
    rw [isBlank_of_isLineBreak hbreak] at h
    cases h

/-- A text has no line break, or a first one. -/
theorem oneLine_or_break (cs : List Char) : OneLine cs ∨
    ∃ front c back, cs = front ++ c :: back ∧ OneLine front ∧ isLineBreak c := by
  cases hfind : cs.find? isLineBreak with
  | none =>
    left
    intro c hc
    simpa using List.find?_eq_none.mp hfind c hc
  | some c =>
    obtain ⟨hc, front, back, hcs, hfront⟩ := List.find?_eq_some_iff_append.mp hfind
    right
    refine ⟨front, c, back, hcs, ?_, hc⟩
    intro d hd
    simpa using hfront d hd

theorem lines_cons_of_not_isLineBreak (h : isLineBreak c = false) (cs : List Char) :
    lines (c :: cs) = extendFirst c (lines cs) := by
  rw [lines.eq_def]
  split
  · next heq => cases heq
  · next heq =>
    cases heq
    exact absurd h (by decide)
  · next heq =>
    cases heq
    rw [if_neg (by simp [h])]

/-- A line break ends a line, alone or as a carriage return with the line feed after it. -/
theorem lines_cons_of_isLineBreak (h : isLineBreak c) (cs : List Char) :
    ∃ ending rest, lines (c :: cs) = ⟨[], ending⟩ :: lines rest ∧ (cs = rest ∨ cs = '\n' :: rest) := by
  rw [lines.eq_def]
  split
  · next heq => cases heq
  · next rest heq =>
    cases heq
    exact ⟨_, rest, rfl, .inr rfl⟩
  · next heq =>
    cases heq
    rw [if_pos h]
    exact ⟨_, cs, rfl, .inl rfl⟩

theorem lines_append {us : List Char} (h : OneLine us) (cs : List Char) :
    lines (us ++ cs) = us.foldr extendFirst (lines cs) := by
  induction us with
  | nil => rfl
  | cons u us ih =>
    rw [List.cons_append, lines_cons_of_not_isLineBreak (h u List.mem_cons_self),
      ih fun d hd => h d (List.mem_cons_of_mem u hd), List.foldr_cons]

theorem foldr_extendFirst (us : List Char) (l : Line) (ls : List Line) :
    us.foldr extendFirst (l :: ls) = ⟨us ++ l.content, l.ending⟩ :: ls := by
  induction us with
  | nil => rfl
  | cons u us ih =>
    rw [List.foldr_cons, ih]
    rfl

theorem lines_of_oneLine (h : OneLine p) (hne : p ≠ []) : lines p = [⟨p, []⟩] := by
  have hlines := lines_append h []
  rw [List.append_nil] at hlines
  rw [hlines]
  clear hlines h
  induction p with
  | nil => exact absurd rfl hne
  | cons u us ih =>
    cases us with
    | nil => rfl
    | cons v vs =>
      rw [List.foldr_cons, ih (by simp)]
      rfl

theorem OneLine.append {as : List Char} (h : OneLine p) (k : OneLine as) : OneLine (p ++ as) := by
  intro c hc
  rcases List.mem_append.mp hc with hc | hc
  · exact h c hc
  · exact k c hc

theorem lines_lineFeed (h : OneLine p) (cs : List Char) : lines (p ++ '\n' :: cs) = ⟨p, ['\n']⟩ :: lines cs := by
  have hlines : lines ('\n' :: cs) = ⟨[], ['\n']⟩ :: lines cs := rfl
  rw [lines_append h, hlines, foldr_extendFirst, List.append_nil]

/-- Lines written with line feeds between them, and perhaps one behind the last. -/
theorem lineContents_joinWith {ps : List (List Char)} (hps : ∀ p ∈ ps, OneLine p ∧ p ≠ []) (hne : ps ≠ [])
    {ending : List Char} (hending : ending = [] ∨ ending = ['\n']) :
    lineContents (joinWith ['\n'] ps ++ ending) = ps := by
  induction ps with
  | nil => exact absurd rfl hne
  | cons p ps ih =>
    obtain ⟨⟨hline, hnonempty⟩, hrest⟩ := List.forall_mem_cons.mp hps
    cases ps with
    | nil =>
      rw [joinWith, lineContents]
      rcases hending with rfl | rfl
      · rw [List.append_nil, lines_of_oneLine hline hnonempty]
        rfl
      · rw [lines_lineFeed hline]
        rfl
    | cons q ps =>
      have hmore := ih hrest (List.cons_ne_nil q ps)
      rw [lineContents] at hmore ⊢
      rw [joinWith, List.append_assoc, List.append_assoc, List.singleton_append, lines_lineFeed hline,
        List.map_cons, hmore]

/-! ### Whole lines -/

/-- A line break ends a line by itself, unless it is a carriage return with a line feed behind it. -/
theorem lines_cons_of_alone (h : isLineBreak c) (halone : c = '\r' → cs.head? ≠ some '\n') :
    lines (c :: cs) = ⟨[], [c]⟩ :: lines cs := by
  rw [lines.eq_def]
  split
  · next heq => cases heq
  · next heq =>
    cases heq
    exact absurd rfl (halone rfl)
  · next heq =>
    cases heq
    rw [if_pos h]

theorem extendFirst_append (c : Char) (ls ks : List Line) (h : ls ≠ []) :
    extendFirst c (ls ++ ks) = extendFirst c ls ++ ks := by
  cases ls with
  | nil => exact absurd rfl h
  | cons l ls => rfl

theorem lines_ne_nil (h : cs ≠ []) : lines cs ≠ [] := by
  intro hlines
  have hjoined := joined_lines cs
  rw [hlines] at hjoined
  exact h hjoined.symm

theorem EndsLine.tail (h : EndsLine (c :: cs)) : EndsLine cs := by
  intro d hd
  apply h d
  rw [List.getLast?_cons, Option.mem_def.mp hd]
  rfl

/-- Whole lines stay what they are when a text is written behind them. -/
theorem lines_append_of_endsLine (h : EndsLine cs)
    (halone : cs.getLast? = some '\r' → ds.head? ≠ some '\n') :
    lines (cs ++ ds) = lines cs ++ lines ds := by
  fun_induction lines cs with
  | case1 => rfl
  | case2 rest ih =>
    have hrest : lines (rest ++ ds) = lines rest ++ lines ds := by
      refine ih h.tail.tail fun hlast => halone ?_
      rw [List.getLast?_cons, List.getLast?_cons, hlast]
      rfl
    exact congrArg (_ :: ·) hrest
  | case3 c rest hpair hc ih =>
    have hrest : lines (rest ++ ds) = lines rest ++ lines ds := by
      refine ih h.tail fun hlast => halone ?_
      rw [List.getLast?_cons, hlast]
      rfl
    rw [List.cons_append, lines_cons_of_alone hc, hrest, List.cons_append]
    intro hreturn hfeed
    cases rest with
    | nil => exact halone (congrArg some hreturn) hfeed
    | cons d rest => exact hpair rest hreturn (congrArg (· :: rest) (Option.some.inj hfeed))
  | case4 c rest hpair hc ih =>
    have hne : rest ≠ [] := by
      rintro rfl
      exact hc (h c rfl)
    have hrest : lines (rest ++ ds) = lines rest ++ lines ds := by
      refine ih h.tail fun hlast => halone ?_
      rw [List.getLast?_cons, hlast]
      rfl
    rw [List.cons_append, lines_cons_of_not_isLineBreak (by simpa using hc), hrest,
      extendFirst_append c _ _ (lines_ne_nil hne)]

theorem joined_append (front back : List Line) :
    Line.joined (front ++ back) = Line.joined front ++ Line.joined back := List.flatMap_append

theorem lines_joined_lines (cs : List Char) : lines (Line.joined (lines cs)) = lines cs := by rw [joined_lines]

/-- Lines of a text that follow one another are the lines of the text they make. -/
theorem lines_joined_of_append (front : List Line) (h : lines cs = front ++ back) :
    lines (Line.joined front) = front ∧ lines (Line.joined back) = back := by
  fun_induction lines cs generalizing front with
  | case1 =>
    obtain ⟨rfl, rfl⟩ := List.append_eq_nil_iff.mp h.symm
    exact ⟨rfl, rfl⟩
  | case2 rest ih =>
    cases front with
    | nil =>
      cases h
      exact ⟨rfl, congrArg (_ :: ·) (lines_joined_lines rest)⟩
    | cons l front =>
      obtain ⟨rfl, hrest⟩ := List.cons.inj h
      obtain ⟨hfront, hback⟩ := ih front hrest
      exact ⟨congrArg (_ :: ·) hfront, hback⟩
  | case3 c rest hpair hc ih =>
    have hline {start more : List Char} (hrest : rest = start ++ more) :
        lines (c :: start) = ⟨[], [c]⟩ :: lines start := by
      refine lines_cons_of_alone hc fun hreturn hfeed => ?_
      obtain ⟨as, rfl⟩ := List.head?_eq_some_iff.mp hfeed
      exact hpair _ hreturn hrest
    cases front with
    | nil =>
      cases h
      have hwhole := lines_joined_lines (c :: rest)
      rw [hline (List.append_nil rest).symm] at hwhole
      exact ⟨rfl, hwhole⟩
    | cons l front =>
      obtain ⟨rfl, hlines⟩ := List.cons.inj h
      obtain ⟨hfront, hback⟩ := ih front hlines
      have hrest : rest = Line.joined front ++ Line.joined back := by
        rw [← joined_append, ← joined_lines rest]
        exact congrArg Line.joined hlines
      refine ⟨(hline hrest).trans ?_, hback⟩
      rw [hfront]
  | case4 c rest hpair hc ih =>
    have hline := lines_cons_of_not_isLineBreak (Bool.eq_false_iff.mpr hc)
    cases front with
    | nil =>
      cases h
      have hwhole := lines_joined_lines (c :: rest)
      rw [hline] at hwhole
      exact ⟨rfl, hwhole⟩
    | cons l front =>
      cases hlines : lines rest with
      | nil =>
        rw [hlines] at h
        obtain ⟨rfl, hnil⟩ := List.cons.inj h
        obtain ⟨rfl, rfl⟩ := List.append_eq_nil_iff.mp hnil.symm
        exact ⟨hline [], rfl⟩
      | cons k ks =>
        rw [hlines] at h ih
        obtain ⟨rfl, hks⟩ := List.cons.inj h
        obtain ⟨hfront, hback⟩ := ih (k :: front) (congrArg (k :: ·) hks)
        exact ⟨(hline (Line.joined (k :: front))).trans (congrArg (extendFirst c) hfront), hback⟩

/-- The line of a text by itself. -/
theorem lines_chars (h : l ∈ lines cs) : lines l.chars = [l] := by
  obtain ⟨front, back, hlines⟩ := List.append_of_mem h
  obtain ⟨-, hback⟩ := lines_joined_of_append front hlines
  obtain ⟨hline, -⟩ := lines_joined_of_append [l] hback
  rw [Line.joined, List.flatMap_cons, List.flatMap_nil, List.append_nil] at hline
  exact hline

theorem ending_of_mem_extendFirst {ls : List Line} (h : l ∈ extendFirst c ls) :
    l.ending = [] ∨ ∃ k ∈ ls, l.ending = k.ending := by
  cases ls with
  | nil =>
    rw [List.mem_singleton.mp h]
    exact .inl rfl
  | cons k ks =>
    rcases List.mem_cons.mp h with rfl | h
    · exact .inr ⟨k, List.mem_cons_self, rfl⟩
    · exact .inr ⟨l, List.mem_cons_of_mem k h, rfl⟩

/-- How a line ends is blank. -/
theorem blanks_ending (h : l ∈ lines cs) : Blanks l.ending := by
  fun_induction lines cs generalizing l with
  | case1 => cases h
  | case2 rest ih =>
    rcases List.mem_cons.mp h with rfl | h
    · exact .cons rfl (.cons rfl .nil)
    · exact ih h
  | case3 c rest hpair hc ih =>
    rcases List.mem_cons.mp h with rfl | h
    · exact .cons (isBlank_of_isLineBreak hc) .nil
    · exact ih h
  | case4 c rest hpair hc ih =>
    rcases ending_of_mem_extendFirst h with hnil | ⟨k, hk, hending⟩
    · rw [hnil]
      exact .nil
    · rw [hending]
      exact ih hk

end

end NoteQuery
