import NoteQuery.Proofs.Eval.Sites
import NoteQuery.Proofs.Note.Loading

/-! The rows of notes come from outside: nothing in a note is read as a function, so other origins of the
functions in a row change nothing. By what each reader makes, from the scalars to the row. -/

namespace NoteQuery
set_option autoImplicit false
open Value

variable {f : Origin → Origin}

/-- Other origins change nothing in a value. -/
def Fixes (f : Origin → Origin) (v : Value) : Prop := v.relabel f = v

theorem fixes_number (n : Number) : Fixes f (.number n) := rfl

theorem fixes_date (d : Stamp) : Fixes f (.date d) := rfl

theorem fixes_array {vs : List Value} (h : ∀ v ∈ vs, Fixes f v) : Fixes f (.array vs) := by
  have hall : vs.map (relabel f) = vs := (List.map_congr_left h).trans (List.map_id vs)
  unfold Fixes
  rw [relabel, relabelAll_eq, hall]

theorem relabelEntries_of_fixes {r : Record} (h : ∀ e ∈ r, Fixes f e.2) : relabelEntries f r = r := by
  have hall (e : String × Value) (he : e ∈ r) : (e.1, e.2.relabel f) = e := by rw [h e he]
  rw [relabelEntries_eq]
  exact (List.map_congr_left hall).trans (List.map_id r)

theorem fixes_ofList {es : List (String × Value)} (h : ∀ e ∈ es, Fixes f e.2) :
    Fixes f (.object (Record.ofList es)) := by
  unfold Fixes
  rw [relabel, ofList_relabel, relabelEntries_of_fixes h]

namespace Yaml

/-! ### Scalars -/

theorem readBoolean_fixes (s : String) : Ensures (Fixes f) (readBoolean s) := by
  unfold readBoolean
  split <;> first | rfl | trivial

theorem readInteger_fixes (s : String) : Ensures (Fixes f) (readInteger s) :=
  ensures_bind fun _ _ => fixes_number _

theorem readReal_fixes (s : String) : Ensures (Fixes f) (readReal s) :=
  ensures_bind fun _ _ => fixes_number _

theorem readScalar_fixes (tag : Tag) (s : String) : Ensures (Fixes f) (readScalar tag s) := by
  cases tag with
  | null => rfl
  | bool => exact readBoolean_fixes s
  | integer => exact readInteger_fixes s
  | real => exact readReal_fixes s
  | timestamp =>
    unfold readScalar
    dsimp only
    cases readTimestamp s.toList with
    | ok d => exact fixes_date d
    | error e => trivial
  | text => rfl
  | _ => trivial

/-! ### Collections -/

theorem insertKey_fixes {es : List (Value × Value)} {k v : Value}
    (hes : ∀ e ∈ es, Fixes f e.1 ∧ Fixes f e.2) (hk : Fixes f k) (hv : Fixes f v) :
    ∀ e ∈ insertKey es k v, Fixes f e.1 ∧ Fixes f e.2 := by
  induction es with
  | nil => exact List.forall_mem_singleton.mpr ⟨hk, hv⟩
  | cons e es ih =>
    obtain ⟨hfirst, hrest⟩ := List.forall_mem_cons.mp hes
    rw [insertKey]
    split
    · exact List.forall_mem_cons.mpr ⟨⟨hfirst.1, hv⟩, hrest⟩
    · exact List.forall_mem_cons.mpr ⟨hfirst, ih hrest⟩

theorem keyed_fixes {es : List (Value × Value)} (h : ∀ e ∈ es, Fixes f e.1 ∧ Fixes f e.2) :
    ∀ e ∈ keyed es, Fixes f e.1 ∧ Fixes f e.2 := by
  have hfold (start : List (Value × Value)) (hstart : ∀ e ∈ start, Fixes f e.1 ∧ Fixes f e.2) :
      ∀ e ∈ es.foldl (fun es e => insertKey es e.1 e.2) start, Fixes f e.1 ∧ Fixes f e.2 := by
    induction es generalizing start with
    | nil => exact hstart
    | cons e es ih =>
      obtain ⟨hfirst, hrest⟩ := List.forall_mem_cons.mp h
      exact ih hrest _ (insertKey_fixes hstart hfirst.1 hfirst.2)
  exact hfold [] nofun

mutual

theorem build_fixes (round : Nat) : (n : Node) → Fixes f (n.build round).result
  | .scalar tag s => by
    have h := readScalar_fixes (f := f) tag s
    unfold Node.build
    cases hs : readScalar tag s with
    | ok v => rw [hs] at h; exact h
    | error e => rfl
  | .sequence tag ns => by
    have hitems := fixes_array (buildItems_fixes (round + 1) ns)
    have hpairs := fixes_array (buildPairs_fixes (round + 1) ns)
    cases tag with
    | sequence => exact hitems
    | _ =>
      unfold Node.build
      split
      · exact hpairs
      · rfl
  | .mapping tag es => by
    have h := keyed_fixes (buildEntries_fixes (round + 1) es)
    unfold Node.build
    dsimp only
    split
    · refine fixes_ofList ?_
      rw [List.forall_mem_map]
      exact fun e he => (h e he).2
    · refine fixes_array ?_
      rw [List.forall_mem_map]
      exact fun e he => (h e he).1
    · rfl

theorem buildItems_fixes (round : Nat) : (ns : List Node) →
    ∀ v ∈ (buildItems round ns).result, Fixes f v
  | [] => nofun
  | n :: ns => List.forall_mem_cons.mpr ⟨build_fixes round n, buildItems_fixes round ns⟩

theorem buildEntries_fixes (round : Nat) : (es : List (Node × Node)) →
    ∀ e ∈ (buildEntries round es).result, Fixes f e.1 ∧ Fixes f e.2
  | [] => nofun
  | (k, v) :: es =>
    List.forall_mem_cons.mpr ⟨⟨build_fixes round k, build_fixes round v⟩, buildEntries_fixes round es⟩

theorem buildPairs_fixes (round : Nat) : (ns : List Node) →
    ∀ v ∈ (buildPairs round ns).result, Fixes f v
  | [] => nofun
  | .mapping _ [(k, v)] :: ns => by
    rw [buildPairs]
    refine List.forall_mem_cons.mpr ⟨fixes_array ?_, buildPairs_fixes round ns⟩
    simp only [List.forall_mem_cons, List.not_mem_nil, false_implies, implies_true, and_true]
    exact ⟨build_fixes round k, build_fixes round v⟩
  | .mapping _ [] :: _ => nofun
  | .mapping _ (_ :: _ :: _) :: _ => nofun
  | .scalar _ _ :: _ => nofun
  | .sequence _ _ :: _ => nofun

end

/-! ### Documents -/

mutual

theorem universal_fixes : (v : Value) → Fixes f v → Ensures (Fixes f) (universal v)
  | .date _, _ => ensures_bind fun _ _ => fixes_date _
  | .array vs, h => ensures_bind fun ws hws =>
    congrArg Value.array (ensures_iff.mp (universalItems_fixes vs (Value.array.inj h)) ws hws)
  | .object es, h => ensures_bind fun ws hws =>
    congrArg Value.object (ensures_iff.mp (universalEntries_fixes es (Value.object.inj h)) ws hws)
  | .null, h => h
  | .bool _, h => h
  | .number _, h => h
  | .text _, h => h
  | .function _ _ _, h => h

theorem universalItems_fixes : (vs : List Value) → relabelAll f vs = vs →
    Ensures (fun ws => relabelAll f ws = ws) (universalItems vs)
  | [], h => h
  | v :: vs, h => by
    obtain ⟨hv, hvs⟩ := List.cons.inj h
    refine ensures_bind fun w hw => ensures_bind fun ws hws => ?_
    exact congrArg₂ List.cons (ensures_iff.mp (universal_fixes v hv) w hw)
      (ensures_iff.mp (universalItems_fixes vs hvs) ws hws)

theorem universalEntries_fixes : (es : List (String × Value)) → relabelEntries f es = es →
    Ensures (fun ws => relabelEntries f ws = ws) (universalEntries es)
  | [], h => h
  | (k, v) :: es, h => by
    obtain ⟨hv, hes⟩ := List.cons.inj h
    refine ensures_bind fun w hw => ensures_bind fun ws hws => ?_
    exact congrArg₂ List.cons
      (congrArg (k, ·) (ensures_iff.mp (universal_fixes v (Prod.mk.inj hv).2) w hw))
      (ensures_iff.mp (universalEntries_fixes es hes) ws hws)

end

theorem readDocument_fixes (cs : List Char) : Ensures (Fixes f) (readDocument cs) := by
  refine ensures_bind fun ts _ => ensures_bind fun n? _ => ?_
  cases n? with
  | none => rfl
  | some n =>
    refine ensures_bind fun m _ => ?_
    dsimp only
    split
    · trivial
    · exact build_fixes 0 m

end Yaml

namespace Note

theorem readFields_fixes (front? : Option (List Char)) :
    Ensures (fun fields? => relabelEntries f (fields?.getD []) = fields?.getD [])
      (readFields front?) := by
  unfold readFields
  split
  · rfl
  · split
    · rfl
    · refine ensures_bind fun v hv => ?_
      have hfixes := ensures_iff.mp (Yaml.readDocument_fixes (f := f) _) v hv
      split
      · next es =>
        refine Yields.map (Yields.mapError ?_)
        exact (Yaml.universalEntries_fixes es (Value.object.inj hfixes)).weaken fun _ _ => trivial
      · rfl

theorem record_rowOf (relative : Path) (times : FileTimes) (size : Nat) (fields : Record)
    (body : List Char) : relabelEntries f (rowOf relative times size fields body).file.record =
      (rowOf relative times size fields body).file.record := by
  refine relabelEntries_of_fixes ?_
  rw [FileInfo.record, List.forall_mem_map]
  intro a _
  cases a with
  | outlinks =>
    refine fixes_array ?_
    rw [List.forall_mem_map]
    exact fun _ _ => rfl
  | _ => rfl

theorem row_isGiven {s : Source} {r : Row} (h : s.row = .ok r) : r.context.IsGiven := by
  unfold Source.row at h
  split at h
  · cases h
  · split at h
    · cases h
    · dsimp only at h
      split at h
      · cases h
      · next fields? hfields =>
        cases h
        have hgiven := ensures_iff.mp (readFields_fixes (f := Origin.asGiven) _) fields? hfields
        unfold Context.IsGiven Row.context Context.relabel
        rw [record_rowOf]
        exact congrArg (Context.mk · _ []) hgiven

/-- The rows of notes come from outside. -/
theorem loadAll_isGiven {ss : List Source} {rows : List Row} (h : (loadAll ss).result.1 = .ok rows) :
    ∀ r ∈ rows, r.context.IsGiven := by
  have hall : (loadAll ss).ComesTo ((·.filterMap id) <$> ss.mapM Source.row?) :=
    (Logged.comesTo_mapM comesTo_loadOrSkip ss).andThen fun rows =>
      (Logged.comesTo_note _ _).bind (Logged.comesTo_pure _)
  rw [hall.result_fst] at h
  obtain ⟨found, hfound, rfl⟩ := map_eq_ok.mp h
  have hgiven : Ensures (fun found => ∀ r? ∈ found, ∀ r ∈ r?, r.context.IsGiven)
      (ss.mapM Source.row?) := by
    refine Yields.mapM fun s _ => ?_
    unfold Source.row?
    cases hrow : s.row with
    | ok row => exact fun r hr => Option.some.inj hr ▸ row_isGiven hrow
    | error e =>
      dsimp only
      split
      · exact nofun
      · trivial
  intro r hr
  obtain ⟨r?, hr?, hr⟩ := List.mem_filterMap.mp hr
  exact ensures_iff.mp hgiven found hfound r? hr? r hr

end Note
end NoteQuery
