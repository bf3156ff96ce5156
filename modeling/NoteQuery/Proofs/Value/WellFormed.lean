import NoteQuery.Proofs.Expr.Rounded
import NoteQuery.Proofs.Json.Writing
import NoteQuery.Proofs.Value.Dates

/-! Values as a program holds them: floating-point numbers are rounded, dates have a moment in universal time,
and no object has a name twice. Such a value has an interchange form, and the standard has a text for it; taken
for a value again the form is its own. -/

namespace NoteQuery
set_option autoImplicit false

namespace Value

mutual

/-- Rounded numbers, dates with a moment, and each name once in an object, at any depth. -/
def WellFormed : Value → Prop
  | number n => n.IsRounded
  | date d => d.InCalendar
  | array items => AllWellFormed items
  | object entries => (Record.keys entries).Nodup ∧ EntriesWellFormed entries
  | function _ _ body => body.IsRounded
  | _ => True

def AllWellFormed : List Value → Prop
  | [] => True
  | v :: vs => v.WellFormed ∧ AllWellFormed vs

def EntriesWellFormed : List (String × Value) → Prop
  | [] => True
  | (_, v) :: es => v.WellFormed ∧ EntriesWellFormed es

end

theorem allWellFormed_iff {vs : List Value} : AllWellFormed vs ↔ ∀ v ∈ vs, v.WellFormed := by
  induction vs with
  | nil => simp [AllWellFormed]
  | cons v vs ih => rw [AllWellFormed, ih, List.forall_mem_cons]

theorem allWellFormed_map {α : Type} {as : List α} {f : α → Value} (h : ∀ a ∈ as, (f a).WellFormed) :
    AllWellFormed (as.map f) := by
  refine allWellFormed_iff.mpr fun v hv => ?_
  obtain ⟨a, ha, rfl⟩ := List.mem_map.mp hv
  exact h a ha

theorem entriesWellFormed_iff {es : List (String × Value)} :
    EntriesWellFormed es ↔ ∀ e ∈ es, e.2.WellFormed := by
  induction es with
  | nil => simp [EntriesWellFormed]
  | cons e es ih => rw [EntriesWellFormed, ih, List.forall_mem_cons]

/-! ### Members -/

theorem wellFormed_get {r : Record} (h : EntriesWellFormed r) (key : String) :
    (Record.get r key).WellFormed := by
  unfold Record.get Record.get?
  induction r with
  | nil => trivial
  | cons e r ih =>
    obtain ⟨k, v⟩ := e
    rw [List.lookup_cons]
    by_cases hk : key == k
    · rw [hk]
      exact h.1
    · rw [Bool.eq_false_iff.mpr hk]
      exact ih h.2

theorem wellFormed_insert {r : Record} {v : Value} (h : EntriesWellFormed r) (hv : v.WellFormed)
    (key : String) : EntriesWellFormed (Record.insert r key v) := by
  induction r with
  | nil => exact ⟨hv, trivial⟩
  | cons e r ih =>
    obtain ⟨k, w⟩ := e
    rw [Record.insert]
    split
    · exact ⟨hv, h.2⟩
    · exact ⟨h.1, ih h.2⟩

theorem wellFormed_getD {vs : List Value} (h : AllWellFormed vs) {d : Value} (hd : d.WellFormed)
    (i : Nat) : (vs.getD i d).WellFormed := by
  rw [List.getD_eq_getElem?_getD]
  cases hv : vs[i]? with
  | none => exact hd
  | some v => exact allWellFormed_iff.mp h v (List.mem_of_getElem? hv)

theorem wellFormed_itemAt {vs : List Value} (h : AllWellFormed vs) (n : Number) :
    (itemAt vs n).WellFormed := by
  unfold itemAt
  split
  · next i _ =>
    have hitem := wellFormed_getD h (d := .null) trivial i
    rwa [List.getD_eq_getElem?_getD] at hitem
  · trivial

theorem wellFormed_ofLiteral {v : Literal} (h : v.IsRounded) : (ofLiteral v).WellFormed := by
  cases v with
  | number n => exact h
  | _ => trivial

theorem wellFormed_member {v : Value} (h : v.WellFormed) (key : Value) :
    Ensures WellFormed (v.member key) := by
  unfold member
  split
  · split <;> trivial
  · exact wellFormed_itemAt h _
  · exact ensures_bind fun _ _ => wellFormed_get h.2 _
  · trivial

/-! ### Interchange data -/

theorem isStrict_numberJson {n : Number} (h : n.IsRounded) : (numberJson n).IsStrict := by
  cases n with
  | int n => exact ⟨trivial, trivial⟩
  | real x =>
    rw [numberJson]
    split
    · next hfinite => exact ⟨h, hfinite⟩
    · trivial

theorem names_entriesToJson {es : List (String × Value)} {ms : List (String × Json)}
    (h : entriesToJson es = .ok ms) : Json.names ms = Record.keys es := by
  induction es generalizing ms with
  | nil =>
    cases h
    rfl
  | cons e es ih =>
    obtain ⟨k, v⟩ := e
    rw [entriesToJson] at h
    obtain ⟨j, -, h⟩ := bind_eq_ok.mp h
    obtain ⟨rest, hrest, h⟩ := bind_eq_ok.mp h
    cases h
    rw [Json.names_cons, ih hrest]
    rfl

mutual

/-- A well-formed value has an interchange form, and the standard has a text for it. -/
theorem yields_toJson : (v : Value) → v.WellFormed → Yields Json.IsStrict (fun _ => False) v.toJson
  | null, _ | bool _, _ | text _, _ | function .., _ => trivial
  | number n, h => isStrict_numberJson h
  | date d, h => by
    rw [toJson]
    exact Yields.map (failsOnly_dateText h)
  | array items, h => by
    rw [toJson]
    have hitems : Yields (fun js => (Json.array js).IsStrict) (fun _ => False) (itemsToJson items) :=
      yields_itemsToJson items h
    exact hitems.map
  | object entries, h => by
    rw [toJson]
    obtain ⟨ms, hms, hstrict⟩ := (yields_entriesToJson entries h.2).exists_ok
    rw [hms]
    refine ⟨?_, hstrict⟩
    rw [names_entriesToJson hms]
    exact h.1

theorem yields_itemsToJson : (vs : List Value) → AllWellFormed vs →
    Yields Json.AllStrict (fun _ => False) (itemsToJson vs)
  | [], _ => trivial
  | v :: vs, h => by
    rw [itemsToJson]
    refine (yields_toJson v h.1).bind fun j hj => ?_
    exact (yields_itemsToJson vs h.2).bind fun js hjs => ⟨hj, hjs⟩

theorem yields_entriesToJson : (es : List (String × Value)) → EntriesWellFormed es →
    Yields Json.MembersStrict (fun _ => False) (entriesToJson es)
  | [], _ => trivial
  | (k, v) :: es, h => by
    rw [entriesToJson]
    refine (yields_toJson v h.1).bind fun j hj => ?_
    exact (yields_entriesToJson es h.2).bind fun ms hms => ⟨hj, hms⟩

end

mutual

/-- Interchange data as a value. -/
def ofJson : Json → Value
  | .null => null
  | .bool b => bool b
  | .number n => number n
  | .text s => text s
  | .array items => array (itemsOfJson items)
  | .object members => object (entriesOfJson members)

def itemsOfJson : List Json → List Value
  | [] => []
  | j :: js => ofJson j :: itemsOfJson js

def entriesOfJson : List (String × Json) → List (String × Value)
  | [] => []
  | (k, j) :: ms => (k, ofJson j) :: entriesOfJson ms

end

theorem toJson_numberJson (n : Number) : (ofJson (numberJson n)).toJson = .ok (numberJson n) := by
  cases n with
  | int n => rfl
  | real x =>
    rw [numberJson]
    split
    · next hfinite => simp [ofJson, toJson, numberJson, hfinite]
    · rfl

mutual

/-- The interchange form of a value is its own interchange form. -/
theorem toJson_ofJson : (v : Value) → Ensures (fun j => (ofJson j).toJson = .ok j) v.toJson
  | null | bool _ | text _ | function .. => rfl
  | number n => toJson_numberJson n
  | date d => by
    rw [toJson]
    exact Yields.map (ensures_iff.mpr fun _ _ => rfl)
  | array items => by
    rw [toJson]
    refine Yields.map ((itemsToJson_ofJson items).imp (fun js hjs => ?_) fun _ _ => trivial)
    rw [ofJson, toJson, hjs]
    rfl
  | object entries => by
    rw [toJson]
    refine Yields.map ((entriesToJson_ofJson entries).imp (fun ms hms => ?_) fun _ _ => trivial)
    rw [ofJson, toJson, hms]
    rfl

theorem itemsToJson_ofJson : (vs : List Value) →
    Ensures (fun js => itemsToJson (itemsOfJson js) = .ok js) (itemsToJson vs)
  | [] => rfl
  | v :: vs => by
    rw [itemsToJson]
    refine (toJson_ofJson v).bind fun j hj => (itemsToJson_ofJson vs).bind fun js hjs => ?_
    change itemsToJson (itemsOfJson (j :: js)) = _
    rw [itemsOfJson, itemsToJson, hj, hjs]
    rfl

theorem entriesToJson_ofJson : (es : List (String × Value)) →
    Ensures (fun ms => entriesToJson (entriesOfJson ms) = .ok ms) (entriesToJson es)
  | [] => rfl
  | (k, v) :: es => by
    rw [entriesToJson]
    refine (toJson_ofJson v).bind fun j hj => (entriesToJson_ofJson es).bind fun ms hms => ?_
    change entriesToJson (entriesOfJson ((k, j) :: ms)) = _
    rw [entriesOfJson, entriesToJson, hj, hms]
    rfl

end

end Value
end NoteQuery
