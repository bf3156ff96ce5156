import NoteQuery.Proofs.Json.Grammar
import NoteQuery.Proofs.Value.Keys
import NoteQuery.Settings.Basic

/-! Which members make settings, and which settings they make. Each member is judged by itself, color
apart, which is asked for and refused under two names; what a member says is then looked up by its name,
so that the order of the members says nothing. -/

namespace NoteQuery
set_option autoImplicit false

theorem OutputFormat.name_injective : Function.Injective OutputFormat.name := by
  intro f g h
  rw [← Option.some_inj, ← ofName?_name f, h, ofName?_name g]

namespace Settings

variable {ms ns : Members} {m : String × Json} {s t : Settings}

/-- Members that can stand among the defaults. -/
inductive IsSetting : String × Json → Prop
  | color (b : Bool) : IsSetting ("--color", .bool b)
  | noColor (b : Bool) : IsSetting ("--no-color", .bool b)
  | most (n : Nat) : IsSetting ("--max-results", .number (.int n))
  | format (f : OutputFormat) : IsSetting ("--out", .text f.name)
  | verbose (b : Bool) : IsSetting ("--verbose", .bool b)

theorem IsSetting.switch {m : String × Json} (h : IsSetting m)
    (hname : m.1 = "--color" ∨ m.1 = "--no-color") : ∃ b, m.2 = .bool b := by
  cases h with
  | color b => exact ⟨b, rfl⟩
  | noColor b => exact ⟨b, rfl⟩
  | most n => simp at hname
  | format f => simp at hname
  | verbose b => simp at hname

/-- All members can stand among the defaults, and color is not both asked for and refused. -/
structure IsValid (ms : Members) : Prop where
  settings : ∀ m ∈ ms, IsSetting m
  oneColor : ¬(("--color", .bool true) ∈ ms ∧ ("--no-color", .bool true) ∈ ms)

theorem IsValid.perm (h : IsValid ms) (hperm : ns.Perm ms) : IsValid ns where
  settings m hm := h.settings m (hperm.subset hm)
  oneColor hboth := h.oneColor ⟨hperm.subset hboth.1, hperm.subset hboth.2⟩

/-! ### Settings by the names of their parameters -/

theorem lookup_color (s : Settings) : s.members.lookup "color_flag" = s.color?.map .bool := by
  obtain ⟨_ | _, _ | _, _ | _, _ | _⟩ := s <;> rfl

theorem lookup_most (s : Settings) :
    s.members.lookup "max_results" = s.maxResults?.map fun n => .number (.int n) := by
  obtain ⟨_ | _, _ | _, _ | _, _ | _⟩ := s <;> rfl

theorem lookup_format (s : Settings) : s.members.lookup "out" = s.format?.map fun f => .text f.name := by
  obtain ⟨_ | _, _ | _, _ | _, _ | _⟩ := s <;> rfl

theorem lookup_verbose (s : Settings) : s.members.lookup "verbose" = s.verbose?.map .bool := by
  obtain ⟨_ | _, _ | _, _ | _, _ | _⟩ := s <;> rfl

/-- The names of the parameters that can be set. -/
def parameters : List String := ["color_flag", "max_results", "out", "verbose"]

theorem members_known (h : m ∈ s.members) : m.1 ∈ parameters := by
  simp only [members, List.mem_append, Option.mem_toList, Option.map_eq_some_iff] at h
  obtain ((⟨b, -, rfl⟩ | ⟨n, -, rfl⟩) | ⟨f, -, rfl⟩) | ⟨b, -, rfl⟩ := h <;> simp [parameters]

/-- Settings are told apart by what stands under the names of their parameters. -/
theorem eq_of_lookups (h : ∀ p ∈ parameters, s.members.lookup p = t.members.lookup p) : s = t := by
  simp only [parameters, List.forall_mem_cons, List.not_mem_nil, false_implies, implies_true, and_true,
    lookup_color, lookup_most, lookup_format, lookup_verbose] at h
  obtain ⟨hcolor, hmost, hformat, hverbose⟩ := h
  have hbool : Function.Injective Json.bool := fun _ _ => Json.bool.inj
  have hnumber : Function.Injective fun n : Nat => Json.number (.int n) := by
    intro n k hnk
    exact Int.ofNat.inj (Number.int.inj (Json.number.inj hnk))
  have hname : Function.Injective fun f : OutputFormat => Json.text f.name :=
    fun _ _ hfg => OutputFormat.name_injective (Json.text.inj hfg)
  obtain ⟨color?, most?, format?, verbose?⟩ := s
  congr 1
  · exact Option.map_injective hbool hcolor
  · exact Option.map_injective hnumber hmost
  · exact Option.map_injective hname hformat
  · exact Option.map_injective hbool hverbose

theorem mem_forCommand : m ∈ forCommand ms ↔ m ∈ ms ∧ m.1 ≠ "verbose" := by
  rw [forCommand, List.mem_filter, bne_iff_ne]

theorem lookup_forCommand {name : String} (h : name ≠ "verbose") :
    (forCommand ms).lookup name = ms.lookup name := by
  induction ms with
  | nil => rfl
  | cons m ms ih =>
    rw [forCommand] at ih ⊢
    by_cases hm : m.1 = "verbose"
    · have hne : (name == m.1) = false := beq_false_of_ne (hm ▸ h)
      rw [List.filter_cons_of_neg (by simpa using hm), ih, List.lookup_cons, hne]
    · rw [List.filter_cons_of_pos (by simpa using hm), List.lookup_cons, List.lookup_cons, ih]

/-! ### One member -/

/-- What one member makes of settings. Those on color were read before. -/
inductive Adds (s : Settings) : String × Json → Settings → Prop
  | color (j : Json) : Adds s ("--color", j) s
  | noColor (j : Json) : Adds s ("--no-color", j) s
  | most (n : Nat) : Adds s ("--max-results", .number (.int n)) { s with maxResults? := some n }
  | format (f : OutputFormat) : Adds s ("--out", .text f.name) { s with format? := some f }
  | verbose (b : Bool) : Adds s ("--verbose", .bool b) { s with verbose? := some b }

theorem find?_name (f : OutputFormat) : (OutputFormat.all.find? fun g => g.name == f.name) = some f := by
  cases f <;> decide

theorem withMember?_eq_some : withMember? s m = some t ↔ Adds s m t := by
  constructor
  · intro h
    unfold withMember? at h
    split at h
    · cases h
      exact .color _
    · cases h
      exact .noColor _
    · next n =>
      obtain ⟨hn, h⟩ := Option.ite_none_left_eq_some.mp h
      cases h
      obtain ⟨k, rfl⟩ := Int.eq_ofNat_of_zero_le (Int.not_lt.mp hn)
      exact .most k
    · next name =>
      obtain ⟨f, hf, rfl⟩ := Option.map_eq_some_iff.mp h
      have hname := List.find?_some hf
      rw [beq_iff_eq] at hname
      subst hname
      exact .format f
    · cases h
      exact .verbose _
    · cases h
  · rintro (j | j | n | f | b)
    · rfl
    · rfl
    · rfl
    · rw [withMember?, find?_name]
      rfl
    · rfl

/-- Whether a member is accepted does not depend on the settings so far. -/
theorem exists_withMember? :
    (∃ t, withMember? s m = some t) ↔ m.1 = "--color" ∨ m.1 = "--no-color" ∨ IsSetting m := by
  simp only [withMember?_eq_some]
  constructor
  · rintro ⟨t, j | j | n | f | b⟩
    · exact .inl rfl
    · exact .inr (.inl rfl)
    · exact .inr (.inr (.most n))
    · exact .inr (.inr (.format f))
    · exact .inr (.inr (.verbose b))
  · obtain ⟨name, j⟩ := m
    rintro (rfl | rfl | (b | b | n | f | b))
    · exact ⟨s, .color j⟩
    · exact ⟨s, .noColor j⟩
    · exact ⟨s, .color _⟩
    · exact ⟨s, .noColor _⟩
    · exact ⟨_, .most n⟩
    · exact ⟨_, .format f⟩
    · exact ⟨_, .verbose b⟩

/-- Names of members that are kept as they are, with the names of their parameters. -/
def kept : List (String × String) :=
  [("--max-results", "max_results"), ("--out", "out"), ("--verbose", "verbose")]

/-- One member changes what stands under its own parameter, and nothing else. -/
theorem Adds.lookup (h : Adds s m t) : t.color? = s.color? ∧ ∀ p ∈ kept,
    t.members.lookup p.2 = ([m].lookup p.1).or (s.members.lookup p.2) := by
  simp only [kept, List.forall_mem_cons, List.not_mem_nil, false_implies, implies_true, and_true,
    lookup_most, lookup_format, lookup_verbose]
  cases h <;> simp [List.lookup_cons]

/-! ### All members -/

theorem exists_foldlM : (∃ t, ms.foldlM withMember? s = some t) ↔
    ∀ m ∈ ms, m.1 = "--color" ∨ m.1 = "--no-color" ∨ IsSetting m := by
  induction ms generalizing s with
  | nil => simp
  | cons m ms ih =>
    simp only [List.foldlM_cons, Option.bind_eq_bind, Option.bind_eq_some_iff, List.forall_mem_cons]
    rw [← exists_withMember? (s := s)]
    constructor
    · rintro ⟨t, u, hu, ht⟩
      exact ⟨⟨u, hu⟩, ih.mp ⟨t, ht⟩⟩
    · rintro ⟨⟨u, hu⟩, hms⟩
      obtain ⟨t, ht⟩ := ih.mpr hms
      exact ⟨t, u, hu, ht⟩

theorem lookup_of_foldlM (h : (Json.names ms).Nodup) (ht : ms.foldlM withMember? s = some t) :
    t.color? = s.color? ∧ ∀ p ∈ kept,
      t.members.lookup p.2 = (ms.lookup p.1).or (s.members.lookup p.2) := by
  induction ms generalizing s with
  | nil =>
    cases ht
    simp
  | cons m ms ih =>
    obtain ⟨name, j⟩ := m
    rw [Json.names_cons, List.nodup_cons] at h
    obtain ⟨u, hu, ht⟩ := Option.bind_eq_some_iff.mp ht
    obtain ⟨hcolor, hlookup⟩ := (withMember?_eq_some.mp hu).lookup
    obtain ⟨hcolor', hlookup'⟩ := ih h.2 ht
    refine ⟨hcolor'.trans hcolor, fun p hp => ?_⟩
    rw [hlookup' p hp, hlookup p hp]
    by_cases hname : p.1 = name
    · -- what is said under this name is said here only
      have hnone : ms.lookup p.1 = none := by
        rw [hname, List.lookup_eq_none_iff]
        intro e he
        have hne : name ≠ e.1 := fun heq => h.1 (heq ▸ List.mem_map_of_mem he)
        exact bne_iff_ne.mpr hne
      rw [hname] at hnone
      simp [hnone, hname]
    · simp [List.lookup_cons, beq_false_of_ne hname]

theorem switch?_eq_some {key : String} {b? : Option Bool} :
    switch? ms key = some b? ↔ ms.lookup key = b?.map .bool := by
  unfold switch?
  split
  · next hnone =>
    rw [hnone]
    cases b? <;> simp
  · next b hb =>
    rw [hb]
    cases b? <;> simp
  · next j hbool hj =>
    rw [hj]
    cases b? with
    | none => simp
    | some b =>
      refine iff_of_false (by simp) fun h => ?_
      exact hbool b (Option.some.inj h)

theorem readColor?_eq_some {color? : Option Bool} : readColor? ms = some color? ↔
    ∃ on? off? : Option Bool, ms.lookup "--color" = on?.map .bool ∧
      ms.lookup "--no-color" = off?.map .bool ∧ ¬(on? = some true ∧ off? = some true) ∧
      color? = if off? = some true then some false else on? := by
  simp only [readColor?, Option.bind_eq_bind, Option.bind_eq_some_iff, switch?_eq_some]
  refine exists_congr fun on? => ?_
  rw [← exists_and_left]
  refine exists_congr fun off? => and_congr_right fun _ => and_congr_right fun _ => ?_
  by_cases hoff : off? = some true
  · by_cases hon : on? = some true
    · simp [hon, hoff]
    · simp [hon, hoff, eq_comm]
  · simp [hoff, eq_comm]

theorem lookup_of_color {color? : Option Bool} :
    ∀ p ∈ kept, (Settings.members { color? }).lookup p.2 = none := by
  simp only [kept, List.forall_mem_cons, lookup_most, lookup_format, lookup_verbose]
  simp

/-- What settings hold is what members say under the names of the options; color is refused under a name of
its own. -/
structure ReadAs (ms options : Members) : Prop where
  kept : ∀ p ∈ kept, options.lookup p.2 = ms.lookup p.1
  refused : ("--no-color", .bool true) ∈ ms → options.lookup "color_flag" = some (.bool false)
  color : ("--no-color", .bool true) ∉ ms → options.lookup "color_flag" = ms.lookup "--color"

/-- Members under distinct names are accepted if they are valid. -/
theorem exists_ofMembers? (h : (Json.names ms).Nodup) : (∃ s, ofMembers? ms = some s) ↔ IsValid ms := by
  simp only [ofMembers?, Option.bind_eq_bind, Option.bind_eq_some_iff, readColor?_eq_some]
  constructor
  · rintro ⟨s, color?, ⟨on?, off?, hon, hoff, hboth, -⟩, hs⟩
    refine ⟨fun m hm => ?_, fun ⟨htrue, hfalse⟩ => hboth ?_⟩
    · obtain ⟨name, j⟩ := m
      have hj := Record.lookup_of_mem h hm
      obtain rfl | rfl | hm := exists_foldlM.mp ⟨s, hs⟩ _ hm
      · obtain ⟨b, -, rfl⟩ := Option.map_eq_some_iff.mp (hon.symm.trans hj)
        exact .color b
      · obtain ⟨b, -, rfl⟩ := Option.map_eq_some_iff.mp (hoff.symm.trans hj)
        exact .noColor b
      · exact hm
    · obtain ⟨b, rfl, hb⟩ := Option.map_eq_some_iff.mp (hon.symm.trans (Record.lookup_of_mem h htrue))
      obtain ⟨c, rfl, hc⟩ := Option.map_eq_some_iff.mp (hoff.symm.trans (Record.lookup_of_mem h hfalse))
      rw [Json.bool.inj hb, Json.bool.inj hc]
      exact ⟨rfl, rfl⟩
  · intro hvalid
    have hswitch (key : String) (hkey : ∀ j, IsSetting (key, j) → ∃ b, j = .bool b) :
        ∃ b? : Option Bool, ms.lookup key = b?.map .bool := by
      cases hlookup : ms.lookup key with
      | none => exact ⟨none, rfl⟩
      | some j =>
        obtain ⟨b, rfl⟩ := hkey j (hvalid.settings _ (Record.mem_of_lookup hlookup))
        exact ⟨some b, rfl⟩
    obtain ⟨on?, hon⟩ := hswitch "--color" fun j hj => hj.switch (.inl rfl)
    obtain ⟨off?, hoff⟩ := hswitch "--no-color" fun j hj => hj.switch (.inr rfl)
    have hboth : ¬(on? = some true ∧ off? = some true) := by
      rintro ⟨rfl, rfl⟩
      exact hvalid.oneColor ⟨Record.mem_of_lookup hon, Record.mem_of_lookup hoff⟩
    obtain ⟨s, hs⟩ := exists_foldlM.mpr fun m hm => .inr (.inr (hvalid.settings m hm))
    exact ⟨s, _, ⟨on?, off?, hon, hoff, hboth, rfl⟩, hs⟩

theorem readAs_of_ofMembers? (h : (Json.names ms).Nodup) (hs : ofMembers? ms = some s) :
    ReadAs ms s.members := by
  simp only [ofMembers?, Option.bind_eq_bind, Option.bind_eq_some_iff, readColor?_eq_some] at hs
  obtain ⟨color?, ⟨on?, off?, hon, hoff, -, rfl⟩, hs⟩ := hs
  obtain ⟨hcolor, hkept⟩ := lookup_of_foldlM h hs
  refine ⟨fun p hp => ?_, fun hrefused => ?_, fun hrefused => ?_⟩
  · rw [hkept p hp, lookup_of_color p hp, Option.or_none]
  · have hoff' := hoff.symm.trans (Record.lookup_of_mem h hrefused)
    obtain ⟨b, rfl, hb⟩ := Option.map_eq_some_iff.mp hoff'
    cases hb
    rw [lookup_color, hcolor]
    rfl
  · have hoff' : off? ≠ some true := by
      rintro rfl
      exact hrefused (Record.mem_of_lookup hoff)
    rw [lookup_color, hcolor, hon, if_neg hoff']

theorem ReadAs.perm {options : Members} (h : (Json.names ms).Nodup) (hperm : ns.Perm ms)
    (hns : ReadAs ns options) : ReadAs ms options where
  kept p hp := (hns.kept p hp).trans (Record.lookup_perm hperm h p.1)
  refused hm := hns.refused (hperm.mem_iff.mpr hm)
  color hm := (hns.color (mt hperm.mem_iff.mp hm)).trans (Record.lookup_perm hperm h _)

theorem ReadAs.unique (hs : ReadAs ms s.members) (ht : ReadAs ms t.members) : s = t := by
  refine eq_of_lookups (List.forall_mem_cons.mpr ⟨?_, fun p hp => ?_⟩)
  · by_cases hrefused : ("--no-color", Json.bool true) ∈ ms
    · rw [hs.refused hrefused, ht.refused hrefused]
    · rw [hs.color hrefused, ht.color hrefused]
  · obtain ⟨q, hq, rfl⟩ := List.mem_map.mp (show p ∈ Settings.kept.map (·.2) from hp)
    rw [hs.kept q hq, ht.kept q hq]

/-- The order of members says nothing. -/
theorem ofMembers?_perm (h : (Json.names ms).Nodup) (hperm : ns.Perm ms) :
    ofMembers? ns = ofMembers? ms := by
  have hns : (Json.names ns).Nodup := (hperm.map _).nodup_iff.mpr h
  have haccepted : (∃ s, ofMembers? ns = some s) ↔ ∃ s, ofMembers? ms = some s := by
    rw [exists_ofMembers? hns, exists_ofMembers? h]
    exact ⟨fun hvalid => hvalid.perm hperm.symm, fun hvalid => hvalid.perm hperm⟩
  cases hs : ofMembers? ms with
  | none =>
    rw [hs] at haccepted
    exact Option.eq_none_iff_forall_ne_some.mpr fun t ht => nomatch haccepted.mp ⟨t, ht⟩
  | some s =>
    obtain ⟨t, ht⟩ := haccepted.mpr ⟨s, hs⟩
    rw [ht, ((readAs_of_ofMembers? hns ht).perm h hperm).unique (readAs_of_ofMembers? h hs)]

end Settings
end NoteQuery
