import NoteQuery.Eval.Library
import NoteQuery.Proofs.Order.Failing
import NoteQuery.Proofs.Outcome.Yields

/-! Calls of functions. What leaves its range in a call becomes a local failure, so that a call fails only
locally as long as the functions applied in it do. Three failures escape nevertheless: a unit of time
written with a long s, a pattern that asks for two classes of characters at once, and a replacement
that names a group the pattern does not have. -/

namespace NoteQuery
set_option autoImplicit false
open NoteQuery.Text

/-! ### Durations -/

namespace Duration

theorem amount_fails (digits : List Char) (u : TimeUnit) (written : List Char) :
    FailsOnly (fun f => f = .unknownUnit 'ſ' ∧ 'ſ' ∈ written) (amount digits u written) := by
  unfold amount
  split
  · exact ⟨rfl, List.mem_cons_self⟩
  · trivial

/-- What a unit is written in stands in the text, and so does what comes after it. -/
theorem append_of_read? {cs written after : List Char} {u : TimeUnit}
    (h : TimeUnit.read? cs = some (u, written, after)) : cs = written ++ after := by
  unfold TimeUnit.read? at h
  obtain ⟨s, _, hs⟩ := List.exists_of_findSome?_eq_some h
  obtain ⟨r, hr, he⟩ := Option.map_eq_some_iff.mp hs
  cases he
  unfold TimeUnit.readSpelling? at hr
  split at hr
  · next read rest hw =>
    split at hr
    · cases hr
    · cases hr
      exact readWord?_append _ _ _ _ hw
  · cases hr

theorem total_fails (cs : List Char) :
    FailsOnly (fun f => f = .unknownUnit 'ſ' ∧ 'ſ' ∈ cs) (total cs) := by
  fun_induction total cs with
  | case1 => trivial
  | case2 c rest _ unit written after hread _ ih =>
    have hmem : ∀ d ∈ written ++ after, d ∈ c :: rest := by
      intro d hd
      rw [← append_of_read? hread, skipBlanks] at hd
      have hdrop := (List.dropWhile_sublist isBlank).mem hd
      exact List.mem_cons_of_mem c ((List.dropWhile_sublist isDecimal).mem hdrop)
    refine ((amount_fails _ unit written).weaken fun f hf => ?_).bind fun _ _ => ?_
    · exact ⟨hf.1, hmem _ (List.mem_append_left after hf.2)⟩
    · refine (ih.weaken fun f hf => ?_).bind fun _ _ => trivial
      exact ⟨hf.1, hmem _ (List.mem_append_right written hf.2)⟩
  | case3 c rest _ _ ih =>
    exact ih.weaken fun f hf => ⟨hf.1, List.mem_cons_of_mem c hf.2⟩
  | case4 c rest _ ih =>
    exact ih.weaken fun f hf => ⟨hf.1, List.mem_cons_of_mem c hf.2⟩

end Duration

/-! ### Replacements -/

namespace Pattern

/-- The name of a group that a pattern does not have. -/
def Lacks (p : Pattern) (name : String) : Prop :=
  isIdentifier name.toList = true ∧ p.names.lookup name = none

/-- A pattern asks for classes of ASCII characters and of all characters at once. -/
def IsMixed (source : String) : Prop := Pattern.read source.toList = .error .mixedClasses

/-- A replacement, as it is displayed, names a group that the pattern does not have. -/
def NamesUnknown (source : String) (replacement : Value) (name : String) : Prop :=
  ∃ p text, Pattern.read source.toList = .ok p ∧ replacement.display = .ok text ∧ p.Lacks name ∧
    p.template text.toList = .error (.unknownGroup name)

def TemplateFault.IsOf (p : Pattern) (fault : TemplateFault) : Prop :=
  fault = .malformed ∨ ∃ name, fault = .unknownGroup name ∧ p.Lacks name

variable (p : Pattern)

theorem groupPart_fails (n : Nat) : FailsOnly (TemplateFault.IsOf p) (p.groupPart n) := by
  unfold groupPart
  split
  · exact .inl rfl
  · trivial

theorem namedPart_fails (name : List Char) : FailsOnly (TemplateFault.IsOf p) (p.namedPart name) := by
  unfold namedPart
  split
  · next hname =>
    split
    · exact groupPart_fails p _
    · next hnone => exact .inr ⟨_, rfl, by simpa using hname, hnone⟩
  · split
    · exact groupPart_fails p _
    · exact .inl rfl

theorem digitPart_fails (c : Char) (ps : List Piece) :
    FailsOnly (TemplateFault.IsOf p) (p.digitPart c ps) := by
  have hgroup : ∀ n k : Nat, FailsOnly (TemplateFault.IsOf p) ((p.groupPart n).map (·, k)) :=
    fun n k => Yields.map (groupPart_fails p n)
  unfold digitPart
  dsimp only
  split
  · trivial
  · split
    · split
      · exact .inl rfl
      · trivial
    · split
      · split
        · exact hgroup _ _
        · exact hgroup _ _
      · exact hgroup _ _

theorem partsFrom_fails (fuel : Nat) (ps : List Piece) :
    FailsOnly (TemplateFault.IsOf p) (p.partsFrom fuel ps) := by
  fun_induction partsFrom p fuel ps with
  | case1 => trivial
  | case2 => trivial
  | case3 => exact .inl rfl
  | case4 _ _ _ ih => exact ih.bind fun _ _ => trivial
  | case5 => exact .inl rfl
  | case6 => exact .inl rfl
  | case7 _ _ _ _ _ _ _ _ _ ih =>
    exact (namedPart_fails p _).bind fun _ _ => ih.bind fun _ _ => trivial
  | case8 => exact .inl rfl
  | case9 _ ps c _ _ ih =>
    exact (digitPart_fails p c ps).bind fun r _ => (ih r.2).bind fun _ _ => trivial
  | case10 _ _ _ _ _ _ _ ih => exact ih.bind fun _ _ => trivial
  | case11 => exact .inl rfl
  | case12 _ _ _ _ _ _ _ ih => exact ih.bind fun _ _ => trivial

theorem template_fails (cs : List Char) : FailsOnly (TemplateFault.IsOf p) (p.template cs) :=
  partsFrom_fails p _ _

end Pattern

/-! ### Functions on dates and numbers -/

/-- Failures that are local in a call: those that are so anyway, and results out of range. -/
abbrev Failure.IsContained : Failure → Prop := Failure.IsLocalOr fun _ => True

/-- Whatever leaves its range is contained in the call. -/
theorem yields_lift {α : Type} (x : Except RangeError α) :
    Yields (fun a => x = .ok a) Failure.IsContained (liftM x : Outcome α) := by
  refine Yields.orLocal ?_
  cases x with
  | ok a => exact rfl
  | error e => trivial

namespace DateFunction

theorem date_fails (now : Moment) (v : Value) :
    FailsOnly Failure.IsContained (date now v) := by
  have hmoment : FailsOnly Failure.IsContained
      (do return ofMoment? (← v.moment?) : Outcome Value) :=
    (yields_lift v.moment?).bind fun _ _ => trivial
  cases v with
  | text s =>
    unfold date
    dsimp only
    generalize named? now (Text.lower (Text.strip s)) = named
    refine (yields_lift named).bind fun m? _ => ?_
    cases m? with
    | some m => trivial
    | none => exact hmoment
  | _ => exact hmoment

theorem dateFormat_fails (v format : Value) :
    FailsOnly Failure.IsContained (dateFormat v format) := by
  have hfill : ∀ f, FailsOnly Failure.IsContained (dateFormat.fill v f) := by
    intro f
    refine (yields_lift v.moment?).bind fun m? _ => ?_
    cases m? <;> trivial
  unfold dateFormat
  split
  · exact hfill _
  · exact hfill _
  · trivial

end DateFunction

namespace NumberFunction

theorem sum_fails (args : List Value) : FailsOnly Failure.IsContained (sum args) :=
  (yields_lift _).bind fun _ _ => trivial

theorem average_fails (args : List Value) : FailsOnly Failure.IsContained (average args) :=
  (yields_lift _).bind fun _ _ => trivial

theorem round_fails (v places : Value) : FailsOnly Failure.IsContained (round v places) := by
  unfold round
  split
  · trivial
  · trivial
  · exact (yields_lift _).bind fun _ _ => (yields_lift _).bind fun _ _ => trivial

end NumberFunction

/-! ### Functions on texts -/

namespace TextFunction

theorem onText_fails (f : List Char → List Char) (v : Value) :
    FailsOnly Failure.IsContained (onText f v) :=
  (yields_lift _).bind fun _ _ => trivial

theorem startsWith_fails (v start : Value) : FailsOnly Failure.IsContained (startsWith v start) :=
  (yields_lift _).bind fun _ _ => (yields_lift _).bind fun _ _ => trivial

theorem endsWith_fails (v ending : Value) : FailsOnly Failure.IsContained (endsWith v ending) :=
  (yields_lift _).bind fun _ _ => (yields_lift _).bind fun _ _ => trivial

theorem split_fails (v separator : Value) : FailsOnly Failure.IsContained (split v separator) :=
  (yields_lift _).bind fun _ _ => (yields_lift _).bind fun _ _ => trivial

theorem join_fails (v separator : Value) : FailsOnly Failure.IsContained (join v separator) := by
  unfold join
  split
  · exact (yields_lift _).bind fun _ _ => (yields_lift _).bind fun _ _ => trivial
  · exact (yields_lift _).bind fun _ _ => trivial

theorem substring_fails (v start stop : Value) :
    FailsOnly Failure.IsContained (substring v start stop) := by
  refine (yields_lift _).bind fun _ _ => ?_
  exact (yields_lift _).bind fun _ _ => (yields_lift _).bind fun _ _ => trivial

theorem pattern?_yields (source : String) :
    Yields (fun p? => ∀ p, p? = some p → Pattern.read source.toList = .ok p)
      (fun f => f.IsContained ∨ f = .mixedClasses ∧ Pattern.IsMixed source) (pattern? source) := by
  unfold pattern?
  split
  · next p hread => exact fun q hq => by cases hq; exact hread
  · exact fun q hq => by cases hq
  · exact .inl (.inr ⟨_, rfl, trivial⟩)
  · next hread => exact .inr ⟨rfl, hread⟩

theorem replaced?_fails (p : Pattern) (replacement text : String) :
    FailsOnly (fun f => ∃ name, f = .unknownGroup name ∧ p.Lacks name ∧
      p.template replacement.toList = .error (.unknownGroup name)) (replaced? p replacement text) := by
  have htemplate := Pattern.template_fails p replacement.toList
  unfold replaced? Pattern.substitute
  cases hparts : p.template replacement.toList with
  | ok parts => trivial
  | error fault =>
    rw [hparts] at htemplate
    obtain rfl | ⟨name, rfl, hlacks⟩ := htemplate
    · trivial
    · exact ⟨name, rfl, hlacks, rfl⟩

/-- How replacing the matches of a pattern fails beyond the call. -/
def ReplacingFails (source : String) (replacement : Value) (f : Failure) : Prop :=
  f = .mixedClasses ∧ Pattern.IsMixed source ∨
    ∃ name, f = .unknownGroup name ∧ Pattern.NamesUnknown source replacement name

theorem replacing_fails {source : String} {replacement : Value} {p : Pattern} (text : String)
    (hread : Pattern.read source.toList = .ok p) {answer : Option String → Outcome Value}
    (hanswer : ∀ t?, FailsOnly Failure.IsContained (answer t?)) :
    FailsOnly (fun f => f.IsContained ∨ ReplacingFails source replacement f)
      (do answer (← replaced? p (← replacement.display) text)) := by
  refine ((yields_lift replacement.display).weaken fun _ => .inl).bind fun r hr => ?_
  refine Yields.bind (?_ : FailsOnly _ _) fun t? _ => ?_
  · refine (replaced?_fails p r text).weaken fun f ⟨name, hf, hlacks, hname⟩ => ?_
    exact .inr (.inr ⟨name, hf, p, r, hread, hr, hlacks, hname⟩)
  · exact (hanswer t?).weaken fun _ => .inl

/-- The arguments that a pattern is read for: two texts. -/
def AreTexts (v pattern : Value) (holds : String → Prop) : Prop :=
  ∃ s source, v = .text s ∧ pattern = .text source ∧ holds source

theorem display_fails (v : Value) :
    FailsOnly Failure.IsContained (do return .text (← v.display) : Outcome Value) :=
  (yields_lift v.display).bind fun _ _ => trivial

theorem replace_fails (v pattern replacement : Value) :
    FailsOnly (fun f => f.IsContained ∨
      AreTexts v pattern fun source => ReplacingFails source replacement f)
      (replace v pattern replacement) := by
  cases v with
  | text s =>
    cases pattern with
    | text source =>
      refine ((pattern?_yields source).weaken fun f hf => ?_).bind fun p? hp => ?_
      · exact hf.imp_right fun hf => ⟨s, source, rfl, rfl, .inl hf⟩
      · cases p? with
        | none => exact .inl (.inl rfl)
        | some p =>
          refine Yields.weaken (replacing_fails s (hp p rfl) fun t? => ?_) fun f hf => ?_
          · cases t? with
            | none => exact .inl rfl
            | some t => trivial
          · exact hf.imp_right fun hf => ⟨s, source, rfl, rfl, hf⟩
    | _ => trivial
  | _ => exact (display_fails _).weaken fun _ => .inl

theorem regexReplace_fails (v pattern replacement : Value) :
    FailsOnly (fun f => f.IsContained ∨
      AreTexts v pattern fun source => ReplacingFails source replacement f)
      (regexReplace v pattern replacement) := by
  cases v with
  | text s =>
    cases pattern with
    | text source =>
      refine ((pattern?_yields source).weaken fun f hf => ?_).bind fun p? hp => ?_
      · exact hf.imp_right fun hf => ⟨s, source, rfl, rfl, .inl hf⟩
      · cases p? with
        | none => trivial
        | some p =>
          refine Yields.weaken (replacing_fails s (hp p rfl) fun _ => ?_) fun f hf => ?_
          · trivial
          · exact hf.imp_right fun hf => ⟨s, source, rfl, rfl, hf⟩
    | _ => exact (display_fails _).weaken fun _ => .inl
  | _ => exact (display_fails _).weaken fun _ => .inl

theorem regexMatch_fails (v pattern : Value) :
    FailsOnly (fun f => f.IsContained ∨
      AreTexts v pattern fun source => f = .mixedClasses ∧ Pattern.IsMixed source)
      (regexMatch v pattern) := by
  cases v with
  | text s =>
    cases pattern with
    | text source =>
      refine ((pattern?_yields source).weaken fun f hf => ?_).bind fun p? _ => ?_
      · exact hf.imp_right fun hf => ⟨s, source, rfl, rfl, hf⟩
      · cases p? <;> trivial
    | _ => trivial
  | _ => trivial

end TextFunction

/-! ### Functions on arrays -/

namespace ArrayFunction

theorem contains_fails (container v : Value) :
    FailsOnly Failure.IsContained (contains container v) := by
  unfold contains
  split
  · refine Yields.bind (?_ : FailsOnly _ _) fun _ _ => trivial
    exact FailsOnly.anyM fun item _ => (yields_lift _).failsOnly
  · trivial
  · trivial
  · trivial
  · exact (yields_lift _).bind fun _ _ => (yields_lift _).bind fun _ _ => trivial

theorem sort_fails (v direction : Value) : FailsOnly Failure.IsContained (sort v direction) := by
  unfold sort
  split
  · refine (yields_lift _).bind fun _ _ => ?_
    refine (Order.failsOnly_sortM (fun a b => ?_) _).bind fun _ _ => trivial
    exact (yields_lift (a.compare b)).bind fun _ _ => trivial
  · trivial

theorem keepFrom_fails {test : Nat → Value → Outcome Bool}
    (htest : ∀ n v, FailsOnly Failure.IsContained (test n v)) (n : Nat) (vs : List Value) :
    FailsOnly Failure.IsContained (keepFrom test n vs) := by
  induction vs generalizing n with
  | nil => trivial
  | cons v vs ih => exact (htest n v).bind fun _ _ => (ih (n + 1)).bind fun _ _ => trivial

theorem mapFrom_fails {image : Nat → Value → Outcome Value}
    (himage : ∀ n v, FailsOnly Failure.IsContained (image n v)) (n : Nat) (vs : List Value) :
    FailsOnly Failure.IsContained (mapFrom image n vs) := by
  induction vs generalizing n with
  | nil => trivial
  | cons v vs ih => exact (himage n v).bind fun _ _ => (ih (n + 1)).bind fun _ _ => trivial

variable {apply : Applier}
  (happly : ∀ n x body v, FailsOnly Failure.IsContained (apply n x body v))
include happly

theorem filter_fails (v test : Value) : FailsOnly Failure.IsContained (filter apply v test) := by
  unfold filter
  split
  · exact Yields.map (keepFrom_fails (fun n item => Yields.map (happly n _ _ item)) _ _)
  · trivial

theorem map_fails (v image : Value) : FailsOnly Failure.IsContained (map apply v image) := by
  unfold map
  split
  · exact Yields.map (mapFrom_fails (fun n item => happly n _ _ item) _ _)
  · trivial

end ArrayFunction

/-! ### Calls -/

namespace Builtin

/-- The functions that read a pattern. -/
def readsPattern : Builtin → Bool
  | replace | regexReplace | regexMatch => true
  | _ => false

/-- The functions that replace the matches of a pattern. -/
def replaces : Builtin → Bool
  | replace | regexReplace => true
  | _ => false

/-- The failures that no call contains, with the arguments that bring them about. -/
inductive Escapes : Builtin → List Value → Failure → Prop
  | longS {s : String} {rest : List Value} (hs : 'ſ' ∈ s.toList)
      (h : Duration.total s.toList = .error (.unknownUnit 'ſ')) :
      Escapes duration (.text s :: rest) (.unknownUnit 'ſ')
  | mixedClasses {b : Builtin} {s source : String} {rest : List Value} (hb : b.readsPattern = true)
      (h : Pattern.IsMixed source) : Escapes b (.text s :: .text source :: rest) .mixedClasses
  | unknownGroup {b : Builtin} {s source name : String} {rest : List Value}
      (hb : b.replaces = true)
      (h : Pattern.NamesUnknown source (rest.getD 0 (.text "")) name) :
      Escapes b (.text s :: .text source :: rest) (.unknownGroup name)

variable {now : Moment} {apply : Applier} {args : List Value} {f : Failure}

theorem duration_fails (args : List Value) :
    FailsOnly (duration.Escapes args) (DateFunction.duration (args.getD 0 .null)) := by
  rcases args with _ | ⟨v, rest⟩
  · trivial
  · cases v with
    | text s =>
      refine failsOnly_iff.mpr fun f hf => ?_
      have htotal := Duration.total_fails s.toList
      cases h : Duration.total s.toList with
      | ok n => simp [DateFunction.duration, h, bind, Except.bind, pure, Except.pure] at hf
      | error e =>
        rw [h] at htotal
        obtain ⟨rfl, hs⟩ := htotal
        simp [DateFunction.duration, h, bind, Except.bind] at hf
        rw [← hf]
        exact .longS hs h
    | _ => trivial

theorem eq_of_areTexts {holds : String → Prop}
    (h : TextFunction.AreTexts (args.getD 0 .null) (args.getD 1 .null) holds) :
    ∃ s source rest, args = .text s :: .text source :: rest ∧ holds source := by
  obtain ⟨s, source, hs, hsource, hholds⟩ := h
  rcases args with _ | ⟨v, _ | ⟨w, rest⟩⟩
  · cases hs
  · cases hsource
  · cases hs
    cases hsource
    exact ⟨s, source, rest, rfl, hholds⟩

theorem escapes_of_replacingFails {b : Builtin} (hb : b.replaces = true)
    (h : TextFunction.AreTexts (args.getD 0 .null) (args.getD 1 .null) fun source =>
      TextFunction.ReplacingFails source (args.getD 2 (.text "")) f) : b.Escapes args f := by
  obtain ⟨s, source, rest, rfl, ⟨rfl, hmixed⟩ | ⟨name, rfl, hname⟩⟩ := eq_of_areTexts h
  · refine .mixedClasses ?_ hmixed
    cases b <;> first | rfl | cases hb
  · exact .unknownGroup hb hname

theorem result_fails (happly : ∀ n x body v, FailsOnly Failure.IsContained (apply n x body v))
    (b : Builtin) (args : List Value) :
    FailsOnly (fun f => f.IsContained ∨ b.Escapes args f) (b.result now apply args) := by
  have contained : ∀ {x : Outcome Value}, FailsOnly Failure.IsContained x →
      FailsOnly (fun f => f.IsContained ∨ b.Escapes args f) x :=
    fun h => h.weaken fun _ => .inl
  cases b with
  | date => exact contained (DateFunction.date_fails _ _)
  | dateFormat => exact contained (DateFunction.dateFormat_fails _ _)
  | duration => exact (duration_fails args).weaken fun _ => .inr
  | contains => exact contained (ArrayFunction.contains_fails _ _)
  | join => exact contained (TextFunction.join_fails _ _)
  | sort => exact contained (ArrayFunction.sort_fails _ _)
  | filter => exact contained (ArrayFunction.filter_fails happly _ _)
  | map => exact contained (ArrayFunction.map_fails happly _ _)
  | lower => exact contained (TextFunction.onText_fails _ _)
  | upper => exact contained (TextFunction.onText_fails _ _)
  | replace =>
    refine (TextFunction.replace_fails _ _ _).weaken fun f hf => ?_
    exact hf.imp_right (escapes_of_replacingFails rfl)
  | split => exact contained (TextFunction.split_fails _ _)
  | regexMatch =>
    refine (TextFunction.regexMatch_fails _ _).weaken fun f hf => ?_
    refine hf.imp_right fun htexts => ?_
    obtain ⟨s, source, rest, rfl, rfl, hmixed⟩ := eq_of_areTexts htexts
    exact .mixedClasses rfl hmixed
  | regexReplace =>
    refine (TextFunction.regexReplace_fails _ _ _).weaken fun f hf => ?_
    exact hf.imp_right (escapes_of_replacingFails rfl)
  | substring => exact contained (TextFunction.substring_fails _ _ _)
  | startsWith => exact contained (TextFunction.startsWith_fails _ _)
  | endsWith => exact contained (TextFunction.endsWith_fails _ _)
  | round => exact contained (NumberFunction.round_fails _ _)
  | sum => exact contained (NumberFunction.sum_fails _)
  | average => exact contained (NumberFunction.average_fails _)
  | length | list | reverse | default | choice | min | max => trivial

/-- A failure that escapes does so for every one of the arguments that bring it about. -/
theorem Escapes.result_eq {b : Builtin} (h : b.Escapes args f) :
    b.result now apply args = .error f := by
  cases h with
  | longS hs h => simp [result, DateFunction.duration, h, bind, Except.bind]
  | @mixedClasses b s source rest hb h =>
    have hread : TextFunction.pattern? source = .error .mixedClasses := by
      rw [Pattern.IsMixed] at h
      rw [TextFunction.pattern?, h]
    cases b with
    | replace => simp [result, TextFunction.replace, hread, bind, Except.bind]
    | regexReplace => simp [result, TextFunction.regexReplace, hread, bind, Except.bind]
    | regexMatch => simp [result, TextFunction.regexMatch, hread, bind, Except.bind]
    | _ => cases hb
  | @unknownGroup b s source name rest hb h =>
    obtain ⟨p, text, hread, hdisplay, -, htemplate⟩ := h
    have hread : TextFunction.pattern? source = .ok (some p) := by rw [TextFunction.pattern?, hread]
    have hreplaced : TextFunction.replaced? p text s = .error (.unknownGroup name) := by
      simp [TextFunction.replaced?, Pattern.substitute, htemplate, bind, Except.bind]
    have hdisplayed : (liftM (rest.getD 0 (.text "")).display : Outcome String) = .ok text := by
      rw [hdisplay]
      rfl
    cases b with
    | replace =>
      change TextFunction.replace (.text s) (.text source) (rest.getD 0 (.text "")) = _
      simp only [TextFunction.replace, hread, hdisplayed, hreplaced, bind, Except.bind]
    | regexReplace =>
      change TextFunction.regexReplace (.text s) (.text source) (rest.getD 0 (.text "")) = _
      simp only [TextFunction.regexReplace, hread, hdisplayed, hreplaced, bind, Except.bind]
    | _ => cases hb

/-- No call makes a failure that escapes a local one. -/
theorem Escapes.inCall_eq {b : Builtin} (h : b.Escapes args f) (name : String) :
    f.inCall name = f ∧ f.isLocal = false := by
  cases h <;> exact ⟨rfl, rfl⟩

end Builtin

theorem Failure.isLocal_inCall {f : Failure} (h : f.IsContained) (name : String) :
    (f.inCall name).isLocal = true := by
  obtain hlocal | ⟨cause, rfl, -⟩ := h
  · cases f <;> first | rfl | exact hlocal
  · rfl

theorem Signature.check_yields (s : Signature) (name : String) (count : Nat) :
    Yields (fun u => s.check name count = .ok u) (fun f => f.isLocal = true) (s.check name count) := by
  unfold Signature.check
  split
  · exact rfl
  · split
    · exact rfl
    · exact rfl

theorem callByName_eq_ok {now : Moment} {apply : Applier} {name : String} {args : List Value} {b : Builtin}
    {v : Value} (hname : Builtin.ofName? name = some b)
    (hcheck : b.signature.check name args.length = .ok ()) (h : b.result now apply args = .ok v) :
    callByName now apply name args = .ok v := by
  simp only [callByName, hname, hcheck, h, bind, Except.bind, Except.mapError]

theorem callByName_fails (now : Moment) {apply : Applier}
    (happly : ∀ n x body v, FailsOnly Failure.IsContained (apply n x body v))
    (name : String) (args : List Value) :
    FailsOnly (fun f => f.isLocal = true ∨ ∃ b, Builtin.ofName? name = some b ∧
      b.signature.check name args.length = .ok () ∧ b.Escapes args f)
      (callByName now apply name args) := by
  unfold callByName
  split
  · exact .inl rfl
  · next b hb =>
    refine ((b.signature.check_yields name args.length).weaken fun _ => .inl).bind
      fun u hcheck => Yields.mapError ?_
    refine (Builtin.result_fails happly b args).weaken fun f hf => ?_
    obtain hf | hescapes := hf
    · exact .inl (Failure.isLocal_inCall hf name)
    · rw [(hescapes.inCall_eq name).1]
      exact .inr ⟨b, hb, hcheck, hescapes⟩

end NoteQuery
