import NoteQuery.Proofs.Value.Dates

/-! Keys and deep equality. The keys of two values agree exactly when the values are deeply equal, and
agreeing is an equivalence, as long as numbers are numbers and no function is among the values. The
entries of objects may stand in any order. -/

namespace NoteQuery
set_option autoImplicit false

/-- Under the name of an entry stands its own value where each name stands once. -/
theorem Record.lookup_of_mem {β : Type} {es : List (String × β)} {e : String × β}
    (h : (es.map (·.1)).Nodup) (he : e ∈ es) : es.lookup e.1 = some e.2 := by
  induction es with
  | nil => cases he
  | cons f fs ih =>
    rw [List.map_cons, List.nodup_cons] at h
    rcases List.mem_cons.mp he with rfl | he
    · rw [List.lookup_cons, beq_self_eq_true]
    · have hne : e.1 ≠ f.1 := fun hf => h.1 (hf ▸ List.mem_map_of_mem he)
      rw [List.lookup_cons, beq_eq_false_iff_ne.mpr hne]
      exact ih h.2 he

theorem Record.mem_of_lookup {β : Type} {es : List (String × β)} {n : String} {b : β}
    (h : es.lookup n = some b) : (n, b) ∈ es := by
  obtain ⟨before, after, rfl, -⟩ := List.lookup_eq_some_iff.mp h
  simp

theorem Record.lookup_perm {β : Type} {es fs : List (String × β)} (hperm : es.Perm fs)
    (h : (fs.map (·.1)).Nodup) (n : String) : es.lookup n = fs.lookup n := by
  have hes : (es.map (·.1)).Nodup := (hperm.map _).nodup_iff.mpr h
  cases hn : es.lookup n with
  | some b => exact (Record.lookup_of_mem h (hperm.subset (Record.mem_of_lookup hn))).symm
  | none =>
    cases hm : fs.lookup n with
    | none => rfl
    | some b =>
      rw [Record.lookup_of_mem hes (hperm.symm.subset (Record.mem_of_lookup hm))] at hn
      cases hn

namespace Key

/-! ### Agreement -/

theorem number_eq_trans {a b c : Number} (hab : a.eq b = true) (hbc : b.eq c = true) :
    a.eq c = true := by
  unfold Number.eq at *
  cases ha : a.place? <;> cases hb : b.place? <;> cases hc : c.place? <;>
    simp_all only [Bool.false_eq_true, decide_eq_true_eq]

mutual

theorem agree_symm : (k l : Key) → k.agree l = l.agree k
  | number a, l => by
    cases l with
    | number b => exact a.eq_comm b
    | _ => rfl
  | array as, l => by
    cases l with
    | array bs =>
      rw [agree, agree]
      exact agreeAll_symm as bs
    | _ => rfl
  | object as, l => by
    cases l with
    | object bs =>
      rw [agree, agree]
      exact agreeEntries_symm as bs
    | _ => rfl
  | null, l => by cases l <;> rfl
  | bool a, l => by
    cases l with
    | bool b => exact Bool.beq_comm
    | _ => rfl
  | text a, l => by
    cases l with
    | text b => exact Bool.beq_comm
    | _ => rfl
  | date a, l => by
    cases l with
    | date b => exact decide_eq_decide.mpr eq_comm
    | _ => rfl
  | function a, l => by
    cases l with
    | function b => exact Bool.beq_comm
    | _ => rfl

theorem agreeAll_symm : (ks ls : List Key) → agreeAll ks ls = agreeAll ls ks
  | [], [] | [], _ :: _ | _ :: _, [] => rfl
  | k :: ks, l :: ls => by
    rw [agreeAll, agreeAll, agree_symm k l, agreeAll_symm ks ls]

theorem agreeEntries_symm : (ks ls : List (String × Key)) → agreeEntries ks ls = agreeEntries ls ks
  | [], [] | [], _ :: _ | _ :: _, [] => rfl
  | (n, k) :: ks, (m, l) :: ls => by
    rw [agreeEntries, agreeEntries, agree_symm k l, agreeEntries_symm ks ls, Bool.beq_comm]

end

mutual

theorem agree_trans : (k : Key) → ∀ {l m : Key}, k.agree l = true → l.agree m = true →
    k.agree m = true
  | array as, l, m, hkl, hlm => by
    cases l <;> first | cases hkl | skip
    cases m <;> first | cases hlm | skip
    rw [agree] at *
    exact agreeAll_trans as hkl hlm
  | object as, l, m, hkl, hlm => by
    cases l <;> first | cases hkl | skip
    cases m <;> first | cases hlm | skip
    rw [agree] at *
    exact agreeEntries_trans as hkl hlm
  | number a, l, m, hkl, hlm => by
    cases l <;> first | cases hkl | skip
    cases m <;> first | cases hlm | skip
    exact number_eq_trans hkl hlm
  | null, l, m, hkl, hlm => by
    cases l <;> first | exact hlm | cases hkl
  | bool a, l, m, hkl, hlm => by
    cases l <;> first | cases hkl | skip
    rwa [show a = _ from eq_of_beq hkl]
  | text a, l, m, hkl, hlm => by
    cases l <;> first | cases hkl | skip
    rwa [show a = _ from eq_of_beq hkl]
  | date a, l, m, hkl, hlm => by
    cases l <;> first | cases hkl | skip
    rwa [show a = _ from of_decide_eq_true hkl]
  | function a, l, m, hkl, hlm => by
    cases l <;> first | cases hkl | skip
    rwa [show a = _ from eq_of_beq hkl]

theorem agreeAll_trans : (ks : List Key) → ∀ {ls ms : List Key}, agreeAll ks ls = true →
    agreeAll ls ms = true → agreeAll ks ms = true
  | [], ls, ms, hkl, hlm => by
    cases ls <;> first | exact hlm | cases hkl
  | k :: ks, ls, ms, hkl, hlm => by
    cases ls <;> first | cases hkl | skip
    cases ms <;> first | cases hlm | skip
    rw [agreeAll, Bool.and_eq_true] at *
    exact ⟨agree_trans k hkl.1 hlm.1, agreeAll_trans ks hkl.2 hlm.2⟩

theorem agreeEntries_trans : (ks : List (String × Key)) → ∀ {ls ms : List (String × Key)},
    agreeEntries ks ls = true → agreeEntries ls ms = true → agreeEntries ks ms = true
  | [], ls, ms, hkl, hlm => by
    cases ls <;> first | exact hlm | cases hkl
  | (n, k) :: ks, ls, ms, hkl, hlm => by
    cases ls <;> first | cases hkl | skip
    cases ms <;> first | cases hlm | skip
    simp only [agreeEntries, Bool.and_eq_true, beq_iff_eq] at *
    exact ⟨⟨hkl.1.1.trans hlm.1.1, agree_trans k hkl.1.2 hlm.1.2⟩, agreeEntries_trans ks hkl.2 hlm.2⟩

end

/-- The kind of the values that have a key. -/
def kind : Key → Kind
  | null => .null
  | bool _ => .bool
  | number _ => .number
  | text _ => .text
  | date _ => .date
  | array _ => .array
  | object _ => .object
  | function _ => .function

theorem length_eq_of_agreeAll {ks ls : List Key} (h : agreeAll ks ls = true) :
    ks.length = ls.length := by
  induction ks generalizing ls with
  | nil => cases ls <;> first | rfl | cases h
  | cons k ks ih =>
    cases ls with
    | nil => cases h
    | cons l ls =>
      rw [agreeAll, Bool.and_eq_true] at h
      rw [List.length_cons, List.length_cons, ih h.2]

theorem agreeEntries_self {es : List (String × Key)} (h : ∀ e ∈ es, e.2.agree e.2 = true) :
    agreeEntries es es = true := by
  induction es with
  | nil => rfl
  | cons e es ih =>
    rw [List.forall_mem_cons] at h
    simp [agreeEntries, h.1, ih h.2]

/-! ### Entries in order -/

variable {es ks ls : List (String × Key)}

theorem insertEntry_perm (e : String × Key) (es : List (String × Key)) :
    (insertEntry e es).Perm (e :: es) := by
  induction es with
  | nil => exact .refl _
  | cons f fs ih =>
    rw [insertEntry]
    split
    · exact (ih.cons f).trans (.swap e f fs)
    · exact .refl _

theorem sortEntries_perm (es : List (String × Key)) : (sortEntries es).Perm es := by
  induction es with
  | nil => exact .refl _
  | cons e es ih => exact (insertEntry_perm e _).trans (ih.cons e)

theorem insertEntry_sorted (e : String × Key) (h : es.Pairwise fun e f => e.1 ≤ f.1) :
    (insertEntry e es).Pairwise fun e f => e.1 ≤ f.1 := by
  induction es with
  | nil => simp [insertEntry]
  | cons f fs ih =>
    have hfs := List.pairwise_cons.mp h
    rw [insertEntry]
    split
    · next hlt =>
      refine List.pairwise_cons.mpr ⟨fun g hg => ?_, ih hfs.2⟩
      rcases List.mem_cons.mp ((insertEntry_perm e fs).subset hg) with rfl | hg
      · exact String.not_lt.mp (String.lt_asymm hlt)
      · exact hfs.1 g hg
    · next hle =>
      refine List.pairwise_cons.mpr ⟨fun g hg => ?_, h⟩
      rcases List.mem_cons.mp hg with rfl | hg
      · exact String.not_lt.mp hle
      · exact String.le_trans (String.not_lt.mp hle) (hfs.1 g hg)

theorem sortEntries_sorted (es : List (String × Key)) :
    (sortEntries es).Pairwise fun e f => e.1 ≤ f.1 := by
  induction es with
  | nil => exact .nil
  | cons e es ih => exact insertEntry_sorted e ih

/-- Sorted names are the same when the names are. -/
theorem sortEntries_names (h : (ks.map (·.1)).Perm (ls.map (·.1))) :
    (sortEntries ks).map (·.1) = (sortEntries ls).map (·.1) := by
  refine List.Perm.eq_of_pairwise (fun _ _ _ _ => String.le_antisymm) ?_ ?_ ?_
  · exact List.pairwise_map.mpr (sortEntries_sorted ks)
  · exact List.pairwise_map.mpr (sortEntries_sorted ls)
  · exact (((sortEntries_perm ks).map _).trans h).trans ((sortEntries_perm ls).map _).symm

/-- Whether the keys under the names of the first entries agree with those of the second ones. -/
def agreeUnder (ks ls : List (String × Key)) : Bool :=
  ks.all fun e => (ls.lookup e.1).any e.2.agree

/-- Entries in the same order agree when they agree by name. -/
theorem agreeEntries_eq (hls : (ls.map (·.1)).Nodup) (h : ks.map (·.1) = ls.map (·.1)) :
    agreeEntries ks ls = agreeUnder ks ls := by
  induction ks generalizing ls with
  | nil =>
    cases ls with
    | nil => rfl
    | cons l ls => cases h
  | cons e ks ih =>
    cases ls with
    | nil => cases h
    | cons f ls =>
      obtain ⟨n, k⟩ := e
      obtain ⟨m, l⟩ := f
      simp only [List.map_cons, List.cons.injEq] at h
      obtain ⟨rfl, hnames⟩ := h
      rw [List.map_cons, List.nodup_cons] at hls
      have hrest : agreeUnder ks ((n, l) :: ls) = agreeUnder ks ls := by
        rw [agreeUnder, agreeUnder, Bool.eq_iff_iff, List.all_eq_true, List.all_eq_true]
        refine forall₂_congr fun e he => ?_
        have hne : e.1 ≠ n := by
          rintro rfl
          have hmem : e.1 ∈ ks.map (·.1) := List.mem_map_of_mem he
          rw [hnames] at hmem
          exact hls.1 hmem
        rw [List.lookup_cons, beq_eq_false_iff_ne.mpr hne]
      rw [agreeEntries, ih hls.2 hnames, ← hrest]
      simp [agreeUnder]

theorem names_of_agreeEntries (h : agreeEntries ks ls = true) : ks.map (·.1) = ls.map (·.1) := by
  induction ks generalizing ls with
  | nil => cases ls <;> first | rfl | cases h
  | cons e ks ih =>
    cases ls with
    | nil => cases h
    | cons f ls =>
      rw [agreeEntries, Bool.and_eq_true, Bool.and_eq_true, beq_iff_eq] at h
      rw [List.map_cons, List.map_cons, h.1.1, ih h.2]

/-- Sorted entries agree when they have the same names and agree by name. -/
theorem agreeEntries_sortEntries (hls : (ls.map (·.1)).Nodup) (h : (ks.map (·.1)).Perm (ls.map (·.1))) :
    agreeEntries (sortEntries ks) (sortEntries ls) = agreeUnder ks ls := by
  have hsorted : ((sortEntries ls).map (·.1)).Nodup :=
    ((sortEntries_perm ls).map _).nodup_iff.mpr hls
  rw [agreeEntries_eq hsorted (sortEntries_names h), agreeUnder, agreeUnder, Bool.eq_iff_iff,
    List.all_eq_true, List.all_eq_true]
  simp only [(sortEntries_perm ks).mem_iff, Record.lookup_perm (sortEntries_perm ls) hls]

theorem agreeEntries_sortEntries_false (h : ¬(ks.map (·.1)).Perm (ls.map (·.1))) :
    agreeEntries (sortEntries ks) (sortEntries ls) = false := by
  rw [← Bool.not_eq_true]
  intro hagree
  have hnames := (names_of_agreeEntries hagree).symm
  refine h (((sortEntries_perm ks).map _).symm.trans ?_)
  rw [← hnames]
  exact (sortEntries_perm ls).map _

end Key

namespace Value

/-! ### Regular values -/

mutual

/-- No number that is none, no function, and no name twice in an object, at any depth. -/
def Regular : Value → Prop
  | number n => n.isNaN = false
  | array items => AllRegular items
  | object entries => (Record.keys entries).Nodup ∧ EntriesRegular entries
  | function .. => False
  | _ => True

def AllRegular : List Value → Prop
  | [] => True
  | v :: vs => v.Regular ∧ AllRegular vs

def EntriesRegular : List (String × Value) → Prop
  | [] => True
  | (_, v) :: es => v.Regular ∧ EntriesRegular es

end

theorem allRegular_iff {vs : List Value} : AllRegular vs ↔ ∀ v ∈ vs, v.Regular := by
  induction vs with
  | nil => simp [AllRegular]
  | cons v vs ih => rw [AllRegular, ih, List.forall_mem_cons]

theorem entriesRegular_iff {es : List (String × Value)} :
    EntriesRegular es ↔ ∀ e ∈ es, e.2.Regular := by
  induction es with
  | nil => simp [EntriesRegular]
  | cons e es ih => rw [EntriesRegular, ih, List.forall_mem_cons]

/-! ### The keys of lists and objects -/

theorem itemKeys_cons {v : Value} {vs : List Value} {ks : List Key} :
    itemKeys (v :: vs) = .ok ks ↔
      ∃ k rest, v.key = .ok k ∧ itemKeys vs = .ok rest ∧ k :: rest = ks := by
  rw [itemKeys, bind_eq_ok]
  constructor
  · rintro ⟨k, hk, h⟩
    obtain ⟨rest, hrest, h⟩ := bind_eq_ok.mp h
    exact ⟨k, rest, hk, hrest, Except.ok.inj h⟩
  · rintro ⟨k, rest, hk, hrest, rfl⟩
    exact ⟨k, hk, bind_eq_ok.mpr ⟨rest, hrest, rfl⟩⟩

theorem entryKeys_cons {n : String} {v : Value} {es : List (String × Value)}
    {ks : List (String × Key)} :
    entryKeys ((n, v) :: es) = .ok ks ↔
      ∃ k rest, v.key = .ok k ∧ entryKeys es = .ok rest ∧ (n, k) :: rest = ks := by
  rw [entryKeys, bind_eq_ok]
  constructor
  · rintro ⟨k, hk, h⟩
    obtain ⟨rest, hrest, h⟩ := bind_eq_ok.mp h
    exact ⟨k, rest, hk, hrest, Except.ok.inj h⟩
  · rintro ⟨k, rest, hk, hrest, rfl⟩
    exact ⟨k, hk, bind_eq_ok.mpr ⟨rest, hrest, rfl⟩⟩

theorem length_itemKeys {vs : List Value} {ks : List Key} (h : itemKeys vs = .ok ks) :
    ks.length = vs.length := by
  induction vs generalizing ks with
  | nil =>
    cases h
    rfl
  | cons v vs ih =>
    obtain ⟨k, rest, -, hrest, rfl⟩ := itemKeys_cons.mp h
    rw [List.length_cons, List.length_cons, ih hrest]

variable {es : List (String × Value)} {ks : List (String × Key)}

theorem names_entryKeys (h : entryKeys es = .ok ks) : ks.map (·.1) = Record.keys es := by
  induction es generalizing ks with
  | nil =>
    cases h
    rfl
  | cons e es ih =>
    obtain ⟨k, rest, -, hrest, rfl⟩ := entryKeys_cons.mp h
    rw [List.map_cons, ih hrest]
    rfl

/-- Under a name of an object stands the key of the value there. -/
theorem lookup_entryKeys (h : entryKeys es = .ok ks) {n : String} (hn : n ∈ Record.keys es) :
    ∃ k, ks.lookup n = some k ∧ (Record.get es n).key = .ok k := by
  induction es generalizing ks with
  | nil => cases hn
  | cons e es ih =>
    obtain ⟨m, v⟩ := e
    obtain ⟨k, rest, hk, hrest, rfl⟩ := entryKeys_cons.mp h
    unfold Record.get Record.get?
    rw [List.lookup_cons, List.lookup_cons]
    by_cases hnm : n = m
    · rw [beq_iff_eq.mpr hnm]
      exact ⟨k, rfl, hk⟩
    · rw [beq_eq_false_iff_ne.mpr hnm]
      exact ih hrest ((List.mem_cons.mp hn).resolve_left hnm)

theorem regular_get (h : EntriesRegular es) (n : String) : (Record.get es n).Regular := by
  unfold Record.get Record.get?
  cases hv : es.lookup n with
  | none => trivial
  | some v => exact entriesRegular_iff.mp h (n, v) (Record.mem_of_lookup hv)

theorem has_iff {n : String} : Record.has es n = true ↔ n ∈ Record.keys es := by
  unfold Record.has Record.get? Record.keys
  rw [List.lookup_isSome_iff, List.mem_map]
  refine exists_congr fun e => and_congr_right fun _ => ?_
  rw [beq_iff_eq, eq_comm]

/-- Objects have the same names, in any order. -/
theorem sameNames_iff {fs : List (String × Value)} (hes : (Record.keys es).Nodup)
    (hfs : (Record.keys fs).Nodup) :
    (es.all (fun e => Record.has fs e.1) && fs.all fun e => Record.has es e.1) = true ↔
      (Record.keys es).Perm (Record.keys fs) := by
  rw [List.perm_ext_iff_of_nodup hes hfs, Bool.and_eq_true, List.all_eq_true, List.all_eq_true]
  simp only [has_iff]
  constructor
  · rintro ⟨hef, hfe⟩ n
    exact ⟨List.forall_mem_map.mpr hef n, List.forall_mem_map.mpr hfe n⟩
  · intro h
    exact ⟨fun e he => (h e.1).mp (List.mem_map_of_mem he),
      fun e he => (h e.1).mpr (List.mem_map_of_mem he)⟩

/-! ### Kinds -/

theorem kind_of_key {v : Value} {k : Key} (h : v.key = .ok k) : k.kind = v.kind := by
  cases v with
  | date d =>
    rw [key, map_eq_ok] at h
    obtain ⟨m, -, rfl⟩ := h
    rfl
  | array items =>
    rw [key, map_eq_ok] at h
    obtain ⟨ks, -, rfl⟩ := h
    rfl
  | object entries =>
    rw [key, bind_eq_ok] at h
    obtain ⟨ks, -, h⟩ := h
    cases h
    rfl
  | _ =>
    cases h
    rfl

/-- Values of different kinds are not equal, and neither do their keys agree. -/
theorem deepEqual_of_kind_ne {a b : Value} {k l : Key} (h : a.kind ≠ b.kind) (hk : a.key = .ok k)
    (hl : b.key = .ok l) : a.deepEqual b = .ok (k.agree l) := by
  have hne : k.kind ≠ l.kind := by rwa [kind_of_key hk, kind_of_key hl]
  have hagree : k.agree l = false := by
    cases k <;> cases l <;> first | rfl | exact (hne rfl).elim
  rw [hagree]
  cases a <;> cases b <;> first | rfl | exact (h rfl).elim

/-! ### Deep equality -/

mutual

/-- Values are deeply equal exactly when their keys agree. -/
theorem deepEqual_of_keys : (a : Value) → ∀ {b : Value} {k l : Key}, a.Regular → b.Regular →
    a.key = .ok k → b.key = .ok l → a.deepEqual b = .ok (k.agree l)
  | null, b, k, l, _, _, hk, hl => by
    cases b with
    | null =>
      cases hk
      cases hl
      rfl
    | _ => exact deepEqual_of_kind_ne nofun hk hl
  | bool x, b, k, l, _, _, hk, hl => by
    cases b with
    | bool _ =>
      cases hk
      cases hl
      rfl
    | _ => exact deepEqual_of_kind_ne nofun hk hl
  | number x, b, k, l, _, _, hk, hl => by
    cases b with
    | number _ =>
      cases hk
      cases hl
      rfl
    | _ => exact deepEqual_of_kind_ne nofun hk hl
  | text x, b, k, l, _, _, hk, hl => by
    cases b with
    | text _ =>
      cases hk
      cases hl
      rfl
    | _ => exact deepEqual_of_kind_ne nofun hk hl
  | date d, b, k, l, _, _, hk, hl => by
    cases b with
    | date e =>
      rw [key, map_eq_ok] at hk hl
      obtain ⟨m, hm, rfl⟩ := hk
      obtain ⟨n, hn, rfl⟩ := hl
      rw [deepEqual, hm, hn]
      rfl
    | _ => exact deepEqual_of_kind_ne nofun hk hl
  | array as, b, k, l, ha, hb, hk, hl => by
    cases b with
    | array bs =>
      rw [key, map_eq_ok] at hk hl
      obtain ⟨ks, hks, rfl⟩ := hk
      obtain ⟨ls, hls, rfl⟩ := hl
      rw [Regular] at ha hb
      rw [deepEqual, itemsEqual_of_keys as ha hb hks hls, Key.agree]
      split
      · rfl
      · next hne =>
        rw [← length_itemKeys hks, ← length_itemKeys hls] at hne
        rw [Bool.eq_false_iff.mpr fun h => hne (Key.length_eq_of_agreeAll h)]
    | _ => exact deepEqual_of_kind_ne nofun hk hl
  | object as, b, k, l, ha, hb, hk, hl => by
    cases b with
    | object bs =>
      rw [key, bind_eq_ok] at hk hl
      obtain ⟨ks, hks, hk⟩ := hk
      obtain ⟨ls, hls, hl⟩ := hl
      cases hk
      cases hl
      rw [Regular] at ha hb
      have hnames := sameNames_iff ha.1 hb.1
      rw [← names_entryKeys hks, ← names_entryKeys hls] at hnames
      have hnodup : (ls.map (·.1)).Nodup := by rw [names_entryKeys hls]; exact hb.1
      rw [deepEqual, Key.agree]
      split
      · next hsame =>
        have hperm := hnames.mp hsame
        rw [Key.agreeEntries_sortEntries hnodup hperm]
        rw [names_entryKeys hks, names_entryKeys hls] at hperm
        exact entriesEqual_of_keys as ha.2 hb.2 hks hls hperm.subset
      · next hsame => rw [Key.agreeEntries_sortEntries_false (fun h => hsame (hnames.mpr h))]
    | _ => exact deepEqual_of_kind_ne nofun hk hl
  | function origin x body, b, k, l, ha, _, _, _ => by
    rw [Regular] at ha
    exact ha.elim

theorem itemsEqual_of_keys : (as : List Value) → ∀ {bs : List Value} {ks ls : List Key},
    AllRegular as → AllRegular bs → itemKeys as = .ok ks → itemKeys bs = .ok ls →
    itemsEqual as bs = .ok (Key.agreeAll ks ls)
  | [], bs, ks, ls, _, _, hk, hl => by
    cases hk
    cases bs with
    | nil =>
      cases hl
      rfl
    | cons b bs =>
      obtain ⟨l, rest, -, -, rfl⟩ := itemKeys_cons.mp hl
      rfl
  | a :: as, [], ks, ls, _, _, hk, hl => by
    cases hl
    obtain ⟨k, rest, -, -, rfl⟩ := itemKeys_cons.mp hk
    rfl
  | a :: as, b :: bs, ks, ls, ha, hb, hk, hl => by
    obtain ⟨k, ks, hka, hks, rfl⟩ := itemKeys_cons.mp hk
    obtain ⟨l, ls, hlb, hls, rfl⟩ := itemKeys_cons.mp hl
    rw [AllRegular] at ha hb
    rw [itemsEqual, deepEqual_of_keys a ha.1 hb.1 hka hlb, Key.agreeAll]
    cases k.agree l with
    | true => exact itemsEqual_of_keys as ha.2 hb.2 hks hls
    | false => rfl

theorem entriesEqual_of_keys : (as : List (String × Value)) → ∀ {bs : List (String × Value)}
    {ks ls : List (String × Key)}, EntriesRegular as → EntriesRegular bs →
    entryKeys as = .ok ks → entryKeys bs = .ok ls → Record.keys as ⊆ Record.keys bs →
    entriesEqual as bs = .ok (Key.agreeUnder ks ls)
  | [], bs, ks, ls, _, _, hk, _, _ => by
    cases hk
    rfl
  | (n, a) :: as, bs, ks, ls, ha, hb, hk, hl, hsub => by
    obtain ⟨k, ks, hka, hks, rfl⟩ := entryKeys_cons.mp hk
    obtain ⟨l, hlookup, hget⟩ := lookup_entryKeys hl (hsub List.mem_cons_self)
    rw [EntriesRegular] at ha
    have hrest : Key.agreeUnder ((n, k) :: ks) ls = (k.agree l && Key.agreeUnder ks ls) := by
      simp [Key.agreeUnder, hlookup]
    rw [entriesEqual, deepEqual_of_keys a ha.1 (regular_get hb n) hka hget, hrest]
    cases k.agree l with
    | true => exact entriesEqual_of_keys as ha.2 hb hks hl fun m hm => hsub (List.mem_cons_of_mem n hm)
    | false => rfl

end

/-! ### Which values have keys that agree with themselves -/

theorem number_eq_self {n : Number} (h : n.isNaN = false) : n.eq n = true := by
  unfold Number.eq
  cases n with
  | int n => exact decide_eq_true rfl
  | real x =>
    cases x with
    | nan => cases h
    | infinite s => exact decide_eq_true rfl
    | finite s m e => exact decide_eq_true rfl

mutual

theorem agree_self : (v : Value) → ∀ {k : Key}, v.Regular → v.key = .ok k → k.agree k = true
  | null, k, _, hk => by
    cases hk
    rfl
  | bool b, k, _, hk => by
    cases hk
    exact beq_self_eq_true b
  | number n, k, hv, hk => by
    cases hk
    rw [Regular] at hv
    exact number_eq_self hv
  | text s, k, _, hk => by
    cases hk
    exact beq_self_eq_true s
  | date d, k, _, hk => by
    rw [key, map_eq_ok] at hk
    obtain ⟨m, -, rfl⟩ := hk
    exact decide_eq_true rfl
  | array items, k, hv, hk => by
    rw [key, map_eq_ok] at hk
    obtain ⟨ks, hks, rfl⟩ := hk
    rw [Regular] at hv
    rw [Key.agree]
    exact agreeAll_self items hv hks
  | object entries, k, hv, hk => by
    rw [key, bind_eq_ok] at hk
    obtain ⟨ks, hks, hk⟩ := hk
    cases hk
    rw [Regular] at hv
    rw [Key.agree]
    refine Key.agreeEntries_self fun e he => ?_
    exact agreeEntry_self entries hv.2 hks e ((Key.sortEntries_perm ks).subset he)
  | function .., k, hv, _ => by
    rw [Regular] at hv
    exact hv.elim

theorem agreeAll_self : (vs : List Value) → ∀ {ks : List Key}, AllRegular vs →
    itemKeys vs = .ok ks → Key.agreeAll ks ks = true
  | [], ks, _, hk => by
    cases hk
    rfl
  | v :: vs, ks, hv, hk => by
    obtain ⟨k, rest, hkey, hrest, rfl⟩ := itemKeys_cons.mp hk
    rw [AllRegular] at hv
    rw [Key.agreeAll, agree_self v hv.1 hkey, agreeAll_self vs hv.2 hrest]
    rfl

theorem agreeEntry_self : (es : List (String × Value)) → ∀ {ks : List (String × Key)},
    EntriesRegular es → entryKeys es = .ok ks → ∀ e ∈ ks, e.2.agree e.2 = true
  | [], ks, _, hk => by
    cases hk
    exact nofun
  | (n, v) :: es, ks, hv, hk => by
    obtain ⟨k, rest, hkey, hrest, rfl⟩ := entryKeys_cons.mp hk
    rw [EntriesRegular] at hv
    rw [List.forall_mem_cons]
    exact ⟨agree_self v hv.1 hkey, agreeEntry_self es hv.2 hrest⟩

end

mutual

/-- A value that has a key has moments for all its dates. -/
theorem holds_of_key {dates : Stamp → Prop} (hd : ∀ d m, d.moment = .ok m → dates d) :
    (v : Value) → ∀ {k : Key}, v.key = .ok k → v.Holds (fun _ => True) dates
  | date d, k, hk => by
    rw [key, map_eq_ok] at hk
    obtain ⟨m, hm, -⟩ := hk
    rw [Holds]
    exact hd d m hm
  | array items, k, hk => by
    rw [key, map_eq_ok] at hk
    obtain ⟨ks, hks, -⟩ := hk
    rw [Holds]
    exact allHold_of_itemKeys hd items hks
  | object entries, k, hk => by
    rw [key, bind_eq_ok] at hk
    obtain ⟨ks, hks, -⟩ := hk
    rw [Holds]
    exact entriesHold_of_entryKeys hd entries hks
  | null, _, _ | bool _, _, _ | number _, _, _ | text _, _, _ | function .., _, _ => by simp [Holds]

theorem allHold_of_itemKeys {dates : Stamp → Prop} (hd : ∀ d m, d.moment = .ok m → dates d) :
    (vs : List Value) → ∀ {ks : List Key}, itemKeys vs = .ok ks →
      AllHold (fun _ => True) dates vs
  | [], _, _ => by simp [AllHold]
  | v :: vs, ks, hk => by
    obtain ⟨k, rest, hv, hrest, -⟩ := itemKeys_cons.mp hk
    rw [AllHold]
    exact ⟨holds_of_key hd v hv, allHold_of_itemKeys hd vs hrest⟩

theorem entriesHold_of_entryKeys {dates : Stamp → Prop} (hd : ∀ d m, d.moment = .ok m → dates d) :
    (es : List (String × Value)) → ∀ {ks : List (String × Key)}, entryKeys es = .ok ks →
      EntriesHold (fun _ => True) dates es
  | [], _, _ => by simp [EntriesHold]
  | (n, v) :: es, ks, hk => by
    obtain ⟨k, rest, hv, hrest, -⟩ := entryKeys_cons.mp hk
    rw [EntriesHold]
    exact ⟨holds_of_key hd v hv, entriesHold_of_entryKeys hd es hrest⟩

end

end Value

end NoteQuery
