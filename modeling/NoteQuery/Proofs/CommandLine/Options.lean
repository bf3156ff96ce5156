import NoteQuery.CommandLine.Run
import NoteQuery.Proofs.Outcome.Logged
import NoteQuery.Proofs.Settings.Members

/-! Settings that are accepted can be used. The query command checks the values of its options once more; of
the values that it fails at, none is from the settings. -/

namespace NoteQuery
set_option autoImplicit false

namespace CommandLine

variable {look : Look} {terminal : Bool} {now : Moment} {a : QueryArguments} {f : CommandFault}
  {s t : Settings} {args : List String}

/-- Faults that are found in the value of an option. -/
inductive CommandFault.IsOption : CommandFault → Prop
  | negativeLimit : IsOption .negativeLimit
  | unsupportedFormat (name : String) : IsOption (.unsupportedFormat name)

/-! ### Options that the command fails at -/

/-- The fault of the first option whose value cannot be used. -/
def QueryArguments.optionFault? (a : QueryArguments) : Option CommandFault :=
  if a.maxResults < 0 then some .negativeLimit
  else if (OutputFormat.ofName? a.out).isNone then some (.unsupportedFormat a.out)
  else none

def Request.optionFault? : Request → Option CommandFault
  | .help => none
  | .query a => a.optionFault?

section
variable {ε α : Type} (fault : ε → CommandFault)

theorem mapError_failsOnly (h : ∀ e, ¬(fault e).IsOption) (r : Except ε α) :
    FailsOnly (fun f => ¬f.IsOption) (r.mapError fault) :=
  Yields.mapError (failsOnly_iff.mpr fun e _ => h e)

theorem part_fails (h : ∀ e, ¬(fault e).IsOption) (x : Logged ε α) :
    (part fault x).Fails fun f => ¬f.IsOption :=
  (Logged.comesTo_ofResult _).fails (mapError_failsOnly fault h _)

theorem settled_fails (h : ∀ e, ¬(fault e).IsOption) (x : Except ε α) :
    (settled fault x).Fails fun f => ¬f.IsOption :=
  (Logged.comesTo_ofResult _).fails (mapError_failsOnly fault h x)

end

theorem runQuery_comesTo (h : a.optionFault? = some f) :
    (runQuery look terminal now a).ComesTo (.error f) := by
  unfold QueryArguments.optionFault? at h
  unfold runQuery
  split at h
  · next hlimit =>
    cases h
    rw [if_pos hlimit]
    exact (Logged.comesTo_throw _).bind_error
  · next hlimit =>
    split at h
    · next hformat =>
      cases h
      rw [if_neg hlimit, Option.isNone_iff_eq_none.mp hformat]
      exact Logged.comesTo_throw _
    · cases h

/-- What follows the checks of the options finds no fault in them. -/
theorem runQuery_fails (h : a.optionFault? = none) :
    (runQuery look terminal now a).Fails fun f => ¬f.IsOption := by
  unfold QueryArguments.optionFault? at h
  unfold runQuery
  split at h
  · cases h
  · next hlimit =>
    split at h
    · cases h
    · next hformat =>
      obtain ⟨format, hformat⟩ := Option.ne_none_iff_exists'.mp (mt Option.isNone_iff_eq_none.mpr hformat)
      rw [if_neg hlimit, hformat]
      refine (settled_fails (.query ∘ .clause) (fun e => nofun) _).bind fun q => ?_
      refine (settled_fails .missingPath (fun e => nofun) _).bind fun sources => ?_
      refine (part_fails .note (fun e => nofun) _).bind fun rows => ?_
      refine (part_fails .query (fun e => nofun) _).bind fun result => ?_
      exact settled_fails .outOfRange (fun e => nofun) _

/-- What is reported first can be left out. -/
theorem runReported_eq (look : Look) (terminal : Bool) (now : Moment) (s : Settings)
    (a : QueryArguments) : ∃ reports : Work Unit, reports.ComesTo (.ok ()) ∧
    runReported look terminal now s a = reports >>= fun _ => runQuery look terminal now a := by
  have hreport (title : String) (entries : List String) : (report title entries).ComesTo (.ok ()) :=
    Logged.comesTo_note _ _
  unfold runReported
  by_cases hentries : (settingEntries s).isEmpty
  · refine ⟨_, hreport "Command arguments" (argumentEntries a), ?_⟩
    simp only [hentries]
    rfl
  · refine ⟨_, (hreport "Config defaults applied" (settingEntries s)).andThen fun _ =>
      hreport "Command arguments" (argumentEntries a), ?_⟩
    simp only [hentries, bind_assoc]
    rfl

theorem runReported_eq_error (hf : f.IsOption) :
    (runReported look terminal now s a).result.1 = .error f ↔ a.optionFault? = some f := by
  obtain ⟨reports, hreports, heq⟩ := runReported_eq look terminal now s a
  rw [heq]
  cases hfault : a.optionFault? with
  | some g =>
    rw [(hreports.bind (runQuery_comesTo hfault)).result_fst, Except.error.injEq, Option.some.injEq]
  | none =>
    refine iff_of_false (fun h => ?_) nofun
    have hfails : (reports >>= fun _ => runQuery look terminal now a).Fails fun f => ¬f.IsOption :=
      (hreports.fails trivial).bind fun _ => runQuery_fails hfault
    exact failsOnly_iff.mp (hfails []) f h hf

/-- The program fails at an option exactly where it is asked for something with such an option. -/
theorem Invocation.run_optionFault (i : Invocation) (hf : f.IsOption) :
    (i.run look terminal now).fault? = some f ↔ i.request.optionFault? = some f := by
  obtain ⟨s, verbosity, request⟩ := i
  cases request with
  | help => exact ⟨nofun, nofun⟩
  | query a =>
    have hreported : (runReported look terminal now s a).result.1 = .error f ↔ a.optionFault? = some f :=
      runReported_eq_error hf
    rw [Request.optionFault?, ← hreported, Invocation.run]
    dsimp only
    cases (runReported look terminal now s a).result.1 with
    | ok outputs => exact ⟨nofun, nofun⟩
    | error g => rw [Except.error.injEq, Option.some.injEq]

/-! ### Options that are not given -/

/-- Options of a command that are not given have the values under the names of their parameters. -/
structure Takes (options : Members) (scan : Scan QueryOption) (a : QueryArguments) : Prop where
  color : colorGiven? scan.given = none → a.color?.map .bool = options.lookup "color_flag"
  most : valueOf? scan.given .maxResults = none →
    .number (.int a.maxResults) = (options.lookup "max_results").getD (.number (.int 0))
  format : valueOf? scan.given .out = none →
    .text a.out = (options.lookup "out").getD (.text OutputFormat.table.name)

theorem takes_of_ofScan {scan : Scan QueryOption} (h : QueryArguments.ofScan s scan = .ok a) :
    Takes (Settings.forCommand s.members) scan a := by
  unfold QueryArguments.ofScan at h
  obtain ⟨given?, hgiven, h⟩ := bind_eq_ok.mp h
  split at h
  · cases h
  · cases h
    refine ⟨fun hnone => ?_, fun hnone => ?_, fun hnone => ?_⟩
    · rw [Settings.lookup_forCommand (by decide), Settings.lookup_color, hnone, Option.none_or]
    · rw [hnone] at hgiven
      cases hgiven
      rw [Settings.lookup_forCommand (by decide), Settings.lookup_most]
      cases s.maxResults? <;> rfl
    · rw [Settings.lookup_forCommand (by decide), Settings.lookup_format, hnone]
      cases s.format? <;> rfl

/-- The values that settings provide are no faults, so that all settings leave the faults of what is given. -/
theorem ofScan_optionFault {scan : Scan QueryOption} (h : QueryArguments.ofScan s scan = .ok a)
    (t : Settings) : ∃ b, QueryArguments.ofScan t scan = .ok b ∧ b.optionFault? = a.optionFault? := by
  unfold QueryArguments.ofScan at h ⊢
  obtain ⟨given?, hgiven, h⟩ := bind_eq_ok.mp h
  split at h
  · cases h
  · cases h
    refine ⟨_, bind_eq_ok.mpr ⟨given?, hgiven, rfl⟩, ?_⟩
    have hlimit (u : Settings) : ¬((u.maxResults?.getD 0 : Nat) : Int) < 0 :=
      Int.not_lt.mpr (Int.natCast_nonneg _)
    unfold QueryArguments.optionFault?
    cases given? <;> cases valueOf? scan.given .out <;>
      simp [hlimit, OutputFormat.ofName?_name]

theorem requestOf_optionFault {request : Request} (h : Invocation.requestOf s args = .ok request)
    (t : Settings) : ∃ request', Invocation.requestOf t args = .ok request' ∧
      request'.optionFault? = request.optionFault? := by
  unfold Invocation.requestOf at h ⊢
  obtain ⟨scan, hscan, h⟩ := bind_eq_ok.mp h
  simp only [bind_eq_ok, hscan]
  split at h
  · next hhelp =>
    cases h
    exact ⟨.help, ⟨scan, rfl, if_pos hhelp⟩, rfl⟩
  · next hhelp =>
    obtain ⟨a, ha, h⟩ := bind_eq_ok.mp h
    cases h
    obtain ⟨b, hb, hfault⟩ := ofScan_optionFault ha t
    refine ⟨.query b, ⟨scan, rfl, ?_⟩, hfault⟩
    rw [if_neg hhelp, hb]
    rfl

theorem ofArgs_optionFault {i : Invocation} (h : Invocation.ofArgs s args = .ok i) (t : Settings) :
    ∃ j, Invocation.ofArgs t args = .ok j ∧ j.request.optionFault? = i.request.optionFault? := by
  unfold Invocation.ofArgs at h ⊢
  obtain ⟨scan, hscan, h⟩ := bind_eq_ok.mp h
  simp only [bind_eq_ok, hscan]
  split at h
  · next hhelp =>
    cases h
    exact ⟨⟨t, _, .help⟩, ⟨scan, rfl, if_pos hhelp⟩, rfl⟩
  · next hhelp =>
    split at h
    · cases h
    · next command rest hwords =>
      split at h
      · next hcommand =>
        obtain ⟨request, hrequest, h⟩ := bind_eq_ok.mp h
        cases h
        obtain ⟨request', hrequest', hfault⟩ := requestOf_optionFault hrequest t
        refine ⟨⟨t, Invocation.verbosityOf t scan, request'⟩, ⟨scan, rfl, ?_⟩, hfault⟩
        rw [if_neg hhelp, hwords]
        dsimp only
        rw [if_pos hcommand, hrequest']
        rfl
      · cases h

/-- With these settings, the arguments can be read and make the program fail with a given fault. -/
def FailsWith (s : Settings) (args : List String) (look : Look) (terminal : Bool) (now : Moment)
    (f : CommandFault) : Prop :=
  ∃ i, Invocation.ofArgs s args = .ok i ∧ (i.run look terminal now).fault? = some f

theorem FailsWith.other (hf : f.IsOption) (h : FailsWith s args look terminal now f) (t : Settings) :
    FailsWith t args look terminal now f := by
  obtain ⟨i, hi, hfault⟩ := h
  obtain ⟨j, hj, hsame⟩ := ofArgs_optionFault hi t
  exact ⟨j, hj, (j.run_optionFault hf).mpr (hsame.trans ((i.run_optionFault hf).mp hfault))⟩

end CommandLine

namespace Settings
open CommandLine

variable {ms : Members}

/-- Options under the names of their parameters that can be used. -/
structure CanBeUsed (options : Members) : Prop where
  known : ∀ m ∈ options, m.1 ∈ parameters
  most : ∀ j, options.lookup "max_results" = some j → ∃ n : Nat, j = .number (.int n)
  format : ∀ j, options.lookup "out" = some j →
    ∃ name, j = .text name ∧ (OutputFormat.ofName? name).isSome
  switches : ∀ p ∈ ["color_flag", "verbose"], ∀ j, options.lookup p = some j → ∃ b, j = .bool b

theorem members_canBeUsed (s : Settings) : CanBeUsed s.members where
  known m hm := members_known hm
  most j hj := by
    rw [lookup_most, Option.map_eq_some_iff] at hj
    obtain ⟨n, -, rfl⟩ := hj
    exact ⟨n, rfl⟩
  format j hj := by
    rw [lookup_format, Option.map_eq_some_iff] at hj
    obtain ⟨f, -, rfl⟩ := hj
    exact ⟨f.name, rfl, by rw [OutputFormat.ofName?_name]; rfl⟩
  switches p hp j hj := by
    simp only [List.mem_cons, List.not_mem_nil, or_false] at hp
    obtain rfl | rfl := hp
    · rw [lookup_color, Option.map_eq_some_iff] at hj
      obtain ⟨b, -, rfl⟩ := hj
      exact ⟨b, rfl⟩
    · rw [lookup_verbose, Option.map_eq_some_iff] at hj
      obtain ⟨b, -, rfl⟩ := hj
      exact ⟨b, rfl⟩

/-- Where an option that can be used is not given instead, the command finds no fault in it. -/
theorem CanBeUsed.optionFault?_eq_none {options : Members} {scan : Scan QueryOption} {a : QueryArguments}
    (h : CanBeUsed options) (ha : Takes (forCommand options) scan a)
    (hmost : valueOf? scan.given .maxResults = none) (hout : valueOf? scan.given .out = none) :
    a.optionFault? = none := by
  have hlimit := ha.most hmost
  have hformat := ha.format hout
  rw [lookup_forCommand (by decide)] at hlimit hformat
  have hnonneg : ¬a.maxResults < 0 := by
    cases hj : options.lookup "max_results" with
    | none =>
      rw [hj] at hlimit
      have hzero : a.maxResults = 0 := Number.int.inj (Json.number.inj hlimit)
      rw [hzero]
      decide
    | some j =>
      obtain ⟨n, rfl⟩ := h.most j hj
      rw [hj] at hlimit
      have hn : a.maxResults = n := Number.int.inj (Json.number.inj hlimit)
      rw [hn]
      exact Int.not_lt.mpr (Int.natCast_nonneg n)
  have hname : (OutputFormat.ofName? a.out).isNone = false := by
    cases hj : options.lookup "out" with
    | none =>
      rw [hj] at hformat
      rw [Json.text.inj hformat, OutputFormat.ofName?_name]
      rfl
    | some j =>
      obtain ⟨name, rfl, hname⟩ := h.format j hj
      rw [hj] at hformat
      rw [Json.text.inj hformat]
      exact Option.isNone_eq_false_iff.mpr hname
  rw [QueryArguments.optionFault?, if_neg hnonneg, hname]
  rfl

/-- Members under distinct names make the same settings in every order, and make some if they are valid. The
settings hold what the members say, and it can be used: the command takes all of it but how much is logged,
finds no fault in it, and fails at an option only where it does without settings. -/
theorem ofMembers?_canBeUsed (h : (Json.names ms).Nodup) :
    (∀ ns : Members, ns.Perm ms → ofMembers? ns = ofMembers? ms) ∧
    ((∃ s, ofMembers? ms = some s) ↔ IsValid ms) ∧
    ∀ s, ofMembers? ms = some s →
      (ReadAs ms s.members ∧ CanBeUsed s.members) ∧
      (∀ m, m ∈ forCommand s.members ↔ m ∈ s.members ∧ m.1 ≠ "verbose") ∧
      (∀ scan a, QueryArguments.ofScan s scan = .ok a → Takes (forCommand s.members) scan a ∧
        (valueOf? scan.given .maxResults = none → valueOf? scan.given .out = none →
          ∀ look terminal now f, (runQuery look terminal now a).result.1 = .error f → ¬f.IsOption)) ∧
      ∀ args look terminal now f, f.IsOption →
        (FailsWith s args look terminal now f ↔ FailsWith {} args look terminal now f) := by
  refine ⟨fun ns => ofMembers?_perm h, exists_ofMembers? h, fun s hs => ?_⟩
  have hused := members_canBeUsed s
  refine ⟨⟨readAs_of_ofMembers? h hs, hused⟩, fun m => mem_forCommand, fun scan a ha => ?_,
    fun args look terminal now f hf => ?_⟩
  · have htakes := takes_of_ofScan ha
    refine ⟨htakes, fun hmost hout look terminal now f hf => ?_⟩
    exact failsOnly_iff.mp (runQuery_fails (hused.optionFault?_eq_none htakes hmost hout) []) f hf
  · exact ⟨fun hfails => hfails.other hf {}, fun hfails => hfails.other hf s⟩

/-- Color is refused in two ways, and the members come in either order. -/
theorem ofMembers?_canBeUsed_reversed :
    let ms : Members := [("--color", .bool false), ("--out", .text "json"), ("--no-color", .bool true),
      ("--max-results", .number (.int 5))]
    let s : Settings := ⟨some false, some 5, some .json, none⟩
    (Json.names ms).Nodup ∧ ofMembers? ms.reverse = some s ∧ CanBeUsed s.members ∧
      ∀ args look terminal now, FailsWith s args look terminal now .negativeLimit ↔
        FailsWith {} args look terminal now .negativeLimit := by
  intro ms s
  have hnames : (Json.names ms).Nodup := by decide +kernel
  obtain ⟨hperm, -, hworks⟩ := ofMembers?_canBeUsed hnames
  have hs : ofMembers? ms = some s := by decide +kernel
  obtain ⟨⟨-, hused⟩, -, -, hfails⟩ := hworks s hs
  refine ⟨hnames, (hperm _ ms.reverse_perm).trans hs, hused, fun args look terminal now => ?_⟩
  exact hfails args look terminal now _ .negativeLimit

end Settings
end NoteQuery
