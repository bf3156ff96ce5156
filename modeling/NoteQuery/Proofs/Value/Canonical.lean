import NoteQuery.Proofs.Value.Coherence

/-! Keys stand for values up to deep equality. Values that are deeply equal have keys, and these agree: every
date of theirs has been compared. So deep equality is an equivalence of the values that have keys. -/

namespace NoteQuery
set_option autoImplicit false

theorem Stamp.inCalendar_of_moment {d : Stamp} {m : Moment} (h : d.moment = .ok m) : d.InCalendar := by
  rw [InCalendar, h]
  trivial

namespace Value

/-- A value has a key exactly where its dates have moments. -/
theorem exists_key_iff {v : Value} : (∃ k, v.key = .ok k) ↔ v.DatesInCalendar := by
  constructor
  · rintro ⟨k, hk⟩
    exact holds_of_key (fun _ _ => Stamp.inCalendar_of_moment) v hk
  · intro h
    obtain ⟨k, hk, -⟩ := (failsOnly_key (fun _ hd => hd) v h).exists_ok
    exact ⟨k, hk⟩

mutual

theorem Regular.keyed : {v : Value} → v.Regular → v.Keyed
  | array _, h => AllRegular.keyed h
  | object _, h => ⟨h.1, EntriesRegular.keyed h.2⟩
  | null, _ | bool _, _ | number _, _ | text _, _ | date _, _ | function .., _ => trivial

theorem AllRegular.keyed : {vs : List Value} → AllRegular vs → AllKeyed vs
  | [], _ => trivial
  | _ :: _, h => ⟨Regular.keyed h.1, AllRegular.keyed h.2⟩

theorem EntriesRegular.keyed : {es : List (String × Value)} → EntriesRegular es → EntriesKeyed es
  | [], _ => trivial
  | _ :: _, h => ⟨Regular.keyed h.1, EntriesRegular.keyed h.2⟩

end

mutual

/-- All dates of a value that is deeply equal to another one have been compared. -/
theorem datesInCalendar_of_deepEqual : (a : Value) → ∀ {b : Value}, a.deepEqual b = .ok true →
    a.Holds (fun _ => True) Stamp.InCalendar
  | date d, b, h => by
    cases b <;> first | cases h | skip
    rw [deepEqual] at h
    obtain ⟨m, hm, -⟩ := bind_eq_ok.mp h
    exact Stamp.inCalendar_of_moment hm
  | array as, b, h => by
    cases b <;> first | cases h | skip
    rw [deepEqual] at h
    split at h
    · exact allHold_of_itemsEqual as h
    · cases h
  | object as, b, h => by
    cases b <;> first | cases h | skip
    exact entriesHold_of_entriesEqual as (deepEqual_object_iff.mp h).2
  | null, _, _ | bool _, _, _ | number _, _, _ | text _, _, _ | function .., _, _ => trivial

theorem allHold_of_itemsEqual : (as : List Value) → ∀ {bs : List Value}, itemsEqual as bs = .ok true →
    AllHold (fun _ => True) Stamp.InCalendar as
  | [], _, _ => trivial
  | a :: as, bs, h => by
    cases bs with
    | nil => cases h
    | cons b bs =>
      rw [itemsEqual_cons_iff] at h
      exact ⟨datesInCalendar_of_deepEqual a h.1, allHold_of_itemsEqual as h.2⟩

theorem entriesHold_of_entriesEqual : (as : List (String × Value)) → ∀ {bs : Record},
    (∀ e ∈ as, e.2.deepEqual (Record.get bs e.1) = .ok true) →
      EntriesHold (fun _ => True) Stamp.InCalendar as
  | [], _, _ => trivial
  | (k, a) :: as, bs, h => by
    rw [List.forall_mem_cons] at h
    exact ⟨datesInCalendar_of_deepEqual a h.1, entriesHold_of_entriesEqual as h.2⟩

end

/-- Values are deeply equal exactly where they have keys that agree. -/
theorem deepEqual_iff_exists_keys {a b : Value} (ha : a.Regular) (hb : b.Regular) :
    a.deepEqual b = .ok true ↔ ∃ k l, a.key = .ok k ∧ b.key = .ok l ∧ k.agree l = true := by
  constructor
  · intro h
    obtain ⟨k, hk⟩ := exists_key_iff.mpr (datesInCalendar_of_deepEqual a h)
    obtain ⟨l, hl⟩ := exists_key_iff.mpr (datesInCalendar_of_deepEqual b (deepEqual_symm a hb.keyed h))
    refine ⟨k, l, hk, hl, ?_⟩
    rw [deepEqual_of_keys a ha hb hk hl] at h
    exact Except.ok.inj h
  · rintro ⟨k, l, hk, hl, hagree⟩
    rw [deepEqual_of_keys a ha hb hk hl, hagree]

/-- Among the values that have keys, deep equality is an equivalence. -/
theorem deepEqual_equivalence :
    Equivalence fun a b : { v : Value // v.Regular ∧ v.DatesInCalendar } =>
      a.val.deepEqual b.val = .ok true := by
  refine ⟨fun v => ?_, ?_, ?_⟩
  · obtain ⟨k, hk⟩ := exists_key_iff.mpr v.property.2
    rw [deepEqual_of_keys v.val v.property.1 v.property.1 hk hk, agree_self v.val v.property.1 hk]
  · exact fun {a b} h => deepEqual_symm a.val b.property.1.keyed h
  · intro a b c hab hbc
    rw [deepEqual_iff_exists_keys a.property.1 b.property.1] at hab
    rw [deepEqual_iff_exists_keys b.property.1 c.property.1] at hbc
    obtain ⟨k, l, hk, hl, hkl⟩ := hab
    obtain ⟨l', m, hl', hm, hlm⟩ := hbc
    cases hl.symm.trans hl'
    rw [deepEqual_of_keys a.val a.property.1 c.property.1 hk hm, Key.agree_trans k hkl hlm]

/-- Keys are a canonical form up to deep equality: where all dates have moments there are keys, and they
agree exactly where the values are deeply equal. Values with other dates have none, and are equal to
nothing, themselves included; on all others deep equality is an equivalence. -/
theorem key_isCanonical {a b : Value} (ha : a.Regular) (hb : b.Regular) :
    ((∃ k l, a.key = .ok k ∧ b.key = .ok l ∧ a.deepEqual b = .ok (k.agree l)) ↔
      a.DatesInCalendar ∧ b.DatesInCalendar) ∧
    (a.deepEqual b = .ok true ↔ ∃ k l, a.key = .ok k ∧ b.key = .ok l ∧ k.agree l = true) ∧
    (a.deepEqual a = .ok true ↔ a.DatesInCalendar) ∧
    Equivalence fun a b : { v : Value // v.Regular ∧ v.DatesInCalendar } =>
      a.val.deepEqual b.val = .ok true := by
  refine ⟨⟨fun ⟨k, l, hk, hl, _⟩ => ?_, fun ⟨hda, hdb⟩ => ?_⟩,
    deepEqual_iff_exists_keys ha hb, ?_, deepEqual_equivalence⟩
  · exact ⟨exists_key_iff.mp ⟨k, hk⟩, exists_key_iff.mp ⟨l, hl⟩⟩
  · obtain ⟨k, hk⟩ := exists_key_iff.mpr hda
    obtain ⟨l, hl⟩ := exists_key_iff.mpr hdb
    exact ⟨k, l, hk, hl, deepEqual_of_keys a ha hb hk hl⟩
  · exact ⟨datesInCalendar_of_deepEqual a, fun hda => deepEqual_equivalence.refl ⟨a, ha, hda⟩⟩

/-- Entries in another order, a float for an integer and a moment with an offset make no other value, but a
truth value for a number does. -/
theorem key_isCanonical_entries :
    let a := object [("n", array [int 1, bool true, null]),
      ("d", date (.zoned ⟨⟨2024, 3, 1, by decide⟩, ⟨1, 30, 0, 0, by decide⟩⟩ 7200000000))]
    let b := object [("d", date (.clock ⟨⟨2024, 2, 29, by decide⟩, ⟨23, 30, 0, 0, by decide⟩⟩)),
      ("n", array [number (.real (.ofInt 1)), bool true, null])]
    let c := object [("d", date (.clock ⟨⟨2024, 2, 29, by decide⟩, ⟨23, 30, 0, 0, by decide⟩⟩)),
      ("n", array [bool true, bool true, null])]
    (a.Regular ∧ b.Regular ∧ c.Regular) ∧
      (∃ k l, a.key = .ok k ∧ b.key = .ok l ∧ k.agree l = true) ∧
      ¬∃ k l, b.key = .ok k ∧ c.key = .ok l ∧ k.agree l = true := by
  intro a b c
  have hregular : a.Regular ∧ b.Regular ∧ c.Regular := by
    simp [a, b, c, Regular, AllRegular, EntriesRegular, Record.keys, int, Number.isNaN]
    decide +kernel
  obtain ⟨ha, hb, hc⟩ := hregular
  have hsame : a.deepEqual b = .ok true := rfl
  have hother : b.deepEqual c = .ok false := rfl
  refine ⟨⟨ha, hb, hc⟩, (key_isCanonical ha hb).2.1.mp hsame, fun h => ?_⟩
  have hequal := (key_isCanonical hb hc).2.1.mpr h
  rw [hother] at hequal
  cases hequal

/-- Five hours east of the first moment of all a date has no key, is not null, and is not even equal to
itself. -/
theorem key_earlyDate :
    let d := date (.zoned default 18000000000)
    d.Regular ∧ d.key = .error .dateOutOfRange ∧ d.deepEqual null = .ok false ∧
      d.deepEqual d = .error .dateOutOfRange :=
  ⟨trivial, by decide +kernel, rfl, by decide +kernel⟩

end Value

end NoteQuery
