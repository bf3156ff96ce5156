import NoteQuery.CommandLine.Arguments
import NoteQuery.Proofs.Outcome.Yields
import NoteQuery.Proofs.Text.Pieces

/-! The name of the settings file is looked for before the command line is read. The search takes the first
argument that looks like the option, the command the last one that is read as the option; so they find one
name where the option is given once and nothing else looks like it. By induction along the arguments. -/

namespace NoteQuery
set_option autoImplicit false
open Text

namespace Settings

/-- Whether an argument looks like the option that names the settings file. -/
def isNaming (arg : String) : Bool :=
  arg = "--config" || startsWith "--config=".toList arg.toList

theorem nameIn_skip {arg : String} (h : isNaming arg = false) (args : List String) :
    nameIn (arg :: args) = nameIn args := by
  simp only [isNaming, Bool.or_eq_false_iff, decide_eq_false_iff_not, startsWith,
    Option.isSome_eq_false_iff, Option.isNone_iff_eq_none] at h
  have hwithin : nameIn.nameWithin? arg = none := by
    rw [nameIn.nameWithin?, h.2]
    rfl
  cases args with
  | nil =>
    change (nameIn.nameWithin? arg).getD defaultName = defaultName
    rw [hwithin]
    rfl
  | cons next args =>
    rw [nameIn, if_neg h.1, hwithin]
    rfl

theorem nameIn_words {words : List String} (h : ∀ w ∈ words, isNaming w = false) :
    nameIn words = defaultName := by
  induction words with
  | nil => rfl
  | cons w words ih =>
    rw [List.forall_mem_cons] at h
    rw [nameIn_skip h.1, ih h.2]

theorem nameIn_within {arg : String} {name : List Char}
    (h : after? "--config=".toList arg.toList = some name) (args : List String) :
    nameIn (arg :: args) = String.ofList name := by
  have hwithin : nameIn.nameWithin? arg = some (String.ofList name) := by
    rw [nameIn.nameWithin?, h]
    rfl
  have hne : arg ≠ "--config" := by
    rintro rfl
    cases h
  cases args with
  | nil =>
    change (nameIn.nameWithin? arg).getD defaultName = _
    rw [hwithin]
    rfl
  | cons next args =>
    rw [nameIn, if_neg hne, hwithin]
    rfl

end Settings

namespace CommandLine
open Settings

/-! ### One argument -/

theorem cutAtEquals_cases (arg : String) :
    cutAtEquals arg = (arg, none) ∨ ∃ name value, cutAtEquals arg = (name, some value) ∧
      arg.toList = name.toList ++ '=' :: value.toList := by
  unfold cutAtEquals
  cases hcut : cut? ['='] arg.toList with
  | none => exact .inl rfl
  | some r =>
    obtain ⟨name, value⟩ := r
    refine .inr ⟨_, _, rfl, ?_⟩
    simpa using eq_append_of_cut? hcut

theorem cutAtEquals_of_after {arg : String} {name : List Char}
    (h : after? "--config=".toList arg.toList = some name) :
    arg.toList = '-' :: '-' :: "config".toList ++ '=' :: name ∧
      cutAtEquals arg = ("--config", some (String.ofList name)) := by
  have hlist : arg.toList = "--config".toList ++ '=' :: name := (eq_append_of_after? h).trans (by simp)
  refine ⟨hlist, ?_⟩
  rw [cutAtEquals, hlist, cut?_append (by decide)]
  rfl

theorem long_eq_config {name : String} (h : queryOptions.long? name = some .config) :
    name = "--config" := by
  simp only [queryOptions] at h
  split at h <;> first | rfl | cases h

/-- No short option names the settings file. -/
theorem shortOptions_names {cs : List Char} {o : ArgOptions QueryOption}
    (h : shortOptions queryOptions cs = .ok o) :
    (∀ g ∈ o.given, g.1 ≠ .config) ∧ ∀ p ∈ o.open?, p.1 ≠ .config := by
  induction cs generalizing o with
  | nil =>
    cases h
    exact ⟨nofun, nofun⟩
  | cons c cs ih =>
    rw [shortOptions] at h
    cases hshort : queryOptions.short? c with
    | none =>
      rw [hshort] at h
      cases h
    | some option =>
      have hmax : option = .maxResults := by
        simp only [queryOptions] at hshort
        split at hshort
        · exact (Option.some.inj hshort).symm
        · cases hshort
      subst hmax
      rw [hshort] at h
      dsimp only [queryOptions] at h
      simp only [if_true] at h
      split at h <;> cases h <;> simp

/-- An argument with options looks like the one that names the settings file, and is it, or does not and is
not. -/
theorem argOptions_cases {arg : String} {o : ArgOptions QueryOption}
    (h : argOptions queryOptions arg = .ok o) :
    (isNaming arg = false ∧ (∀ g ∈ o.given, g.1 ≠ .config) ∧ ∀ p ∈ o.open?, p.1 ≠ .config) ∨
    (arg = "--config" ∧ o = ⟨[], some (.config, arg)⟩) ∨
    ∃ name, after? "--config=".toList arg.toList = some name ∧
      o = ⟨[(.config, String.ofList name)], none⟩ := by
  by_cases harg : arg = "--config"
  · subst harg
    cases h
    exact .inr (.inl ⟨rfl, rfl⟩)
  cases hafter : after? "--config=".toList arg.toList with
  | some name =>
    rw [argOptions, (cutAtEquals_of_after hafter).2] at h
    cases h
    exact .inr (.inr ⟨name, rfl, rfl⟩)
  | none =>
    have hnaming : isNaming arg = false := by
      rw [isNaming, startsWith, hafter, decide_eq_false harg]
      rfl
    refine .inl ⟨hnaming, ?_⟩
    -- an option found by its long name is not this one, for the name would be in front
    have hlong {name : String} {value? : Option String} {option : QueryOption}
        (hcut : cutAtEquals arg = (name, value?)) (hname : queryOptions.long? name = some option) :
        option ≠ .config := by
      rintro rfl
      obtain rfl := long_eq_config hname
      obtain hnone | ⟨_, value, hsome, hlist⟩ := cutAtEquals_cases arg
      · rw [hnone] at hcut
        exact harg (Prod.mk.inj hcut).1
      · rw [hsome] at hcut
        rw [(Prod.mk.inj hcut).1] at hlist
        rw [hlist] at hafter
        cases hafter
    unfold argOptions at h
    split at h
    next name value? hcut =>
    split at h
    · next option hname =>
      have hne := hlong hcut hname
      split at h
      · split at h <;> cases h <;> simp [hne]
      · split at h <;> cases h
        simp [hne]
    · split at h
      · cases h
      · exact shortOptions_names h

/-- The options for all commands take no values, and none of them looks like the one that names the settings
file. -/
theorem argOptions_common {arg : String} {o : ArgOptions CommonOption}
    (h : argOptions commonOptions arg = .ok o) : isNaming arg = false ∧ o.open? = none := by
  have hshort {cs : List Char} {o : ArgOptions CommonOption}
      (h : shortOptions commonOptions cs = .ok o) : o.open? = none := by
    induction cs generalizing o with
    | nil =>
      cases h
      rfl
    | cons c cs ih =>
      rw [shortOptions] at h
      split at h
      · cases h
      · obtain ⟨rest, hrest, h⟩ := bind_eq_ok.mp h
        cases h
        change rest.open? = none
        exact ih hrest
  constructor
  · by_contra hnaming
    rw [Bool.not_eq_false, isNaming, Bool.or_eq_true, decide_eq_true_eq] at hnaming
    obtain rfl | hstart := hnaming
    · cases h
    · obtain ⟨name, hafter⟩ := Option.isSome_iff_exists.mp hstart
      obtain ⟨hlist, hcut⟩ := cutAtEquals_of_after hafter
      rw [argOptions, hcut] at h
      dsimp only [commonOptions] at h
      rw [hlist] at h
      cases h
  · unfold argOptions at h
    split at h
    next name value? hcut =>
    split at h
    · dsimp only [commonOptions] at h
      simp only [Bool.false_eq_true, if_false] at h
      split at h <;> cases h
      rfl
    · split at h
      · cases h
      · exact hshort h

/-! ### All arguments -/

/-- How arguments are read: as options, some of which take their value from the next argument, as words, and
after two dashes as words only. -/
inductive Scanned {α : Type} (t : OptionTable α) (mixed : Bool) : List String → Scan α → Prop where
  | nil : Scanned t mixed [] ⟨[], []⟩
  | rest (args : List String) : Scanned t mixed ("--" :: args) ⟨[], args⟩
  | options {arg : String} {args : List String} {o : ArgOptions α} {s : Scan α}
      (ho : argOptions t arg = .ok o) (hopen : o.open? = none) (h : Scanned t mixed args s) :
      Scanned t mixed (arg :: args) ⟨o.given ++ s.given, s.words⟩
  | value {arg value : String} {args : List String} {o : ArgOptions α} {option : α} {name : String}
      {s : Scan α} (ho : argOptions t arg = .ok o) (hopen : o.open? = some (option, name))
      (h : Scanned t mixed args s) :
      Scanned t mixed (arg :: value :: args) ⟨o.given ++ (option, value) :: s.given, s.words⟩
  | word (arg : String) {args : List String} {s : Scan α} (hmixed : mixed = true)
      (h : Scanned t mixed args s) : Scanned t mixed (arg :: args) ⟨s.given, arg :: s.words⟩
  | words (args : List String) (hmixed : mixed = false) : Scanned t mixed args ⟨[], args⟩

theorem scanned_of_scan {α : Type} {t : OptionTable α} {mixed : Bool} : (args : List String) →
    {s : Scan α} → scan t mixed args = .ok s → Scanned t mixed args s
  | [], s, h => by
    cases h
    exact .nil
  | arg :: args, s, h => by
    unfold scan at h
    split at h
    · next harg =>
      subst harg
      cases h
      exact .rest args
    · split at h
      · obtain ⟨o, ho, h⟩ := bind_eq_ok.mp h
        split at h
        · next hopen =>
          obtain ⟨r, hr, h⟩ := bind_eq_ok.mp h
          cases h
          exact .options ho hopen (scanned_of_scan args hr)
        · next option name hopen =>
          cases args with
          | nil => cases h
          | cons value args =>
            obtain ⟨r, hr, h⟩ := bind_eq_ok.mp h
            cases h
            exact .value ho hopen (scanned_of_scan args hr)
      · split at h
        · next hmixed =>
          obtain ⟨r, hr, h⟩ := bind_eq_ok.mp h
          cases h
          exact .word arg hmixed (scanned_of_scan args hr)
        · next hmixed =>
          cases h
          exact .words _ (Bool.eq_false_iff.mpr hmixed)

/-- The search passes over the options for all commands. -/
theorem Scanned.nameIn_words {args : List String} {s : Scan CommonOption}
    (h : Scanned commonOptions false args s) : nameIn args = nameIn s.words := by
  induction h with
  | nil => rfl
  | rest args => exact nameIn_skip (by decide) args
  | options ho _ _ ih => rw [nameIn_skip (argOptions_common ho).1, ih]
  | value ho hopen => cases (argOptions_common ho).2.symm.trans hopen
  | word _ hmixed => cases hmixed
  | words => rfl

namespace Scan

/-- The names that are given for the settings file. -/
def names (s : Scan QueryOption) : List String :=
  s.given.filterMap fun o => if o.1 = .config then some o.2 else none

/-- No word and no value of another option looks like the option that names the settings file. -/
structure Unambiguous (s : Scan QueryOption) : Prop where
  words : ∀ w ∈ s.words, isNaming w = false
  values : ∀ o ∈ s.given, o.1 ≠ .config → isNaming o.2 = false

variable {s : Scan QueryOption} {given : List (QueryOption × String)} {words : List String}

theorem names_append (h : ∀ g ∈ given, g.1 ≠ .config) :
    names ⟨given ++ s.given, words⟩ = s.names := by
  have hnone : given.filterMap (fun o => if o.1 = .config then some o.2 else none) = [] := by
    rw [List.filterMap_eq_nil_iff]
    intro g hg
    rw [if_neg (h g hg)]
  rw [names, List.filterMap_append, hnone, List.nil_append, names]

theorem Unambiguous.rest (h : Unambiguous ⟨given ++ s.given, s.words⟩) : s.Unambiguous :=
  ⟨h.words, fun g hg => h.values g (List.mem_append_right _ hg)⟩

end Scan

/-- The search finds the first name that is given, if nothing else looks like the option. -/
theorem Scanned.nameIn_eq {args : List String} {s : Scan QueryOption}
    (h : Scanned queryOptions true args s) (hs : s.Unambiguous) :
    nameIn args = s.names.head?.getD defaultName := by
  induction h with
  | nil => rfl
  | rest args =>
    rw [nameIn_skip (by decide)]
    exact Settings.nameIn_words hs.words
  | options ho hopen _ ih =>
    obtain ⟨hnaming, hgiven, -⟩ | ⟨-, rfl⟩ | ⟨name, hname, rfl⟩ := argOptions_cases ho
    · rw [nameIn_skip hnaming, ih hs.rest, Scan.names_append hgiven]
    · cases hopen
    · exact nameIn_within hname _
  | @value arg value args o option _ s ho hopen _ ih =>
    obtain ⟨hnaming, hgiven, hne⟩ | ⟨rfl, rfl⟩ | ⟨name, hname, rfl⟩ := argOptions_cases ho
    · have hne : option ≠ .config := hne _ hopen
      have hvalue : isNaming value = false :=
        hs.values (option, value) (List.mem_append_right _ List.mem_cons_self) hne
      have hboth : ∀ g ∈ o.given ++ [(option, value)], g.1 ≠ .config := by
        rw [List.forall_mem_append, List.forall_mem_singleton]
        exact ⟨hgiven, hne⟩
      rw [List.append_cons] at hs ⊢
      rw [nameIn_skip hnaming, nameIn_skip hvalue, ih hs.rest, Scan.names_append hboth]
    · cases hopen
      rfl
    · cases hopen
  | word arg _ _ ih =>
    have hwords := List.forall_mem_cons.mp hs.words
    rw [nameIn_skip hwords.1]
    exact ih ⟨hwords.2, hs.values⟩
  | words _ hmixed => cases hmixed

/-- The arguments of a query command are read in two parts, before and after its name. -/
def Reads (args : List String) (s : Scan QueryOption) : Prop :=
  ∃ common rest, scan commonOptions false args = .ok ⟨common, queryCommand :: rest⟩ ∧
    scan queryOptions true rest = .ok s

theorem Reads.nameIn_eq {args : List String} {s : Scan QueryOption} (h : Reads args s)
    (hs : s.Unambiguous) : nameIn args = s.names.head?.getD defaultName := by
  obtain ⟨common, rest, hcommon, hrest⟩ := h
  rw [(scanned_of_scan args hcommon).nameIn_words]
  exact (nameIn_skip (by decide) rest).trans ((scanned_of_scan rest hrest).nameIn_eq hs)

theorem config_of_ofScan {settings : Settings} {s : Scan QueryOption} {a : QueryArguments}
    (h : QueryArguments.ofScan settings s = .ok a) :
    a.config = s.names.getLast?.getD defaultName := by
  unfold QueryArguments.ofScan at h
  obtain ⟨given?, -, h⟩ := bind_eq_ok.mp h
  split at h <;> cases h
  rfl

/-- A query that is asked for was read from the arguments, with the last name that is given. -/
theorem exists_reads {settings : Settings} {args : List String} {i : Invocation} {a : QueryArguments}
    (h : Invocation.ofArgs settings args = .ok i) (ha : i.request = .query a) :
    ∃ s, Reads args s ∧ a.config = s.names.getLast?.getD defaultName := by
  unfold Invocation.ofArgs at h
  obtain ⟨⟨common, words⟩, hcommon, h⟩ := bind_eq_ok.mp h
  have hcommon := mapError_eq_ok.mp hcommon
  dsimp only at h
  split at h
  · cases h
    cases ha
  · split at h
    · cases h
    · split at h
      · next hcommand =>
        subst hcommand
        obtain ⟨request, hrequest, h⟩ := bind_eq_ok.mp h
        cases h
        change request = .query a at ha
        subst ha
        obtain ⟨s, hs, hrequest⟩ := bind_eq_ok.mp hrequest
        refine ⟨s, ⟨common, _, hcommon, mapError_eq_ok.mp hs⟩, ?_⟩
        split at hrequest
        · cases hrequest
        · obtain ⟨b, hb, hrequest⟩ := bind_eq_ok.mp hrequest
          cases hrequest
          exact config_of_ofScan hb
      · cases h

/-- The name in which the search and the command differ, if they do, is the first and the last of the names that
are given, provided that nothing else looks like the option. -/
theorem nameIn_eq_config_iff {settings : Settings} {args : List String} {i : Invocation}
    {a : QueryArguments} (h : Invocation.ofArgs settings args = .ok i) (ha : i.request = .query a) :
    ∃ s, Reads args s ∧ a.config = s.names.getLast?.getD defaultName ∧
      (s.Unambiguous → nameIn args = s.names.head?.getD defaultName ∧
        (nameIn args = a.config ↔ s.names.head? = s.names.getLast?)) := by
  obtain ⟨s, hs, hconfig⟩ := exists_reads h ha
  refine ⟨s, hs, hconfig, fun hclear => ?_⟩
  have hname := hs.nameIn_eq hclear
  refine ⟨hname, ?_⟩
  rw [hname, hconfig]
  cases s.names with
  | nil => simp
  | cons name names => simp [List.getLast?_cons]

/-- A word may hold the name of the option, and the value of the option may look like it. -/
theorem nameIn_eq_config_once :
    let args := ["-v", "query", "--out=json", "LIST", "--config", "--config=a", "a --config=b", "-n2"]
    let a : QueryArguments := ⟨"LIST", ["a --config=b"], "--config=a", none, 2, "json"⟩
    let i : Invocation := ⟨{}, .progress, .query a⟩
    (Invocation.ofArgs {} args = .ok i ∧ i.request = .query a) ∧ nameIn args = a.config := by
  intro args a i
  have hargs : Invocation.ofArgs {} args = .ok i := by decide +kernel
  obtain ⟨s, hs, -, hname⟩ := nameIn_eq_config_iff hargs rfl
  have hread : s = ⟨[(.out, "json"), (.config, "--config=a"), (.maxResults, "2")],
      ["LIST", "a --config=b"]⟩ := by
    obtain ⟨common, rest, hcommon, hrest⟩ := hs
    have hfirst : scan commonOptions false args = .ok ⟨[(.verbose, "")], args.tail⟩ := by
      decide +kernel
    have hsecond : scan queryOptions true args.tail.tail = .ok ⟨[(.out, "json"),
        (.config, "--config=a"), (.maxResults, "2")], ["LIST", "a --config=b"]⟩ := by decide +kernel
    cases hcommon.symm.trans hfirst
    exact Except.ok.inj (hrest.symm.trans hsecond)
  have hclear : s.Unambiguous := by
    rw [hread]
    constructor <;> decide +kernel
  refine ⟨⟨hargs, rfl⟩, (hname hclear).2.mpr ?_⟩
  rw [hread]
  rfl

/-- Of two names for the settings file the first is loaded and the last one is what the command is told. -/
theorem nameIn_ne_config :
    let args := ["query", "LIST", "--config", "a.json", "--config", "b.json"]
    let a : QueryArguments := ⟨"LIST", [], "b.json", none, 0, "table"⟩
    Invocation.ofArgs {} args = .ok ⟨{}, .quiet, .query a⟩ ∧ nameIn args = "a.json" ∧
      nameIn args ≠ a.config := by
  decide +kernel

end CommandLine
end NoteQuery
