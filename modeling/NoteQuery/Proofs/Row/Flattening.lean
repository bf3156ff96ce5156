import Mathlib
import NoteQuery.Proofs.Query.Grouping

/-! A row with an array at a path is replaced by a row for each of its items. Reading leads through
positions of arrays and writing does not, so that behind a position there are copies of the row instead. -/

namespace NoteQuery
set_option autoImplicit false

/-- Whether names lead from a value through objects only, up to the last name. -/
def Value.leadsThroughObjects : Value → List String → Bool
  | _, [] => true
  | .object entries, part :: parts => leadsThroughObjects (Record.get entries part) parts
  | _, _ :: _ => false

theorem FileInfo.get_record (f : FileInfo) (a : FileAttribute) :
    Record.get f.record a.key = f.get a := by
  cases a <;> rfl

namespace Row

variable {r : Row} {path : String}

/-! ### Writing at a path -/

theorem descend_null (parts : List String) : descend .null parts = .ok .null := by
  cases parts <;> rfl

theorem descend_object (entries : Record) (part : String) (parts : List String) :
    descend (.object entries) (part :: parts) = descend (Record.get entries part) parts := by
  have hchild : child (.object entries) part = .ok (Record.get entries part) := rfl
  rw [descend, hchild]
  cases Record.get entries part with
  | null => exact (descend_null parts).symm
  | _ => rfl

theorem isSome_replaceAt? (v : Value) (parts : List String) (new : Value) :
    (replaceAt? v parts new).isSome = v.leadsThroughObjects parts := by
  induction parts generalizing v with
  | nil => cases v <;> rfl
  | cons part parts ih =>
    cases v with
    | object entries => rw [replaceAt?, Option.isSome_map, ih, Value.leadsThroughObjects]
    | _ => rfl

theorem exists_replaceAt? {v : Value} {parts : List String} (h : v.leadsThroughObjects parts = true)
    (new : Value) : ∃ w, replaceAt? v parts new = some w := by
  rw [← Option.isSome_iff_exists, isSome_replaceAt?]
  exact h

theorem descend_replaceAt? {v w new : Value} {parts : List String} (h : replaceAt? v parts new = some w) :
    descend w parts = .ok new := by
  induction parts generalizing v w with
  | nil =>
    cases h
    rfl
  | cons part parts ih =>
    cases v with
    | object entries =>
      rw [replaceAt?, Option.map_eq_some_iff] at h
      obtain ⟨w, hw, rfl⟩ := h
      rw [descend_object, Record.get, Record.get?_insert, if_pos rfl]
      exact ih hw
    | _ => cases h

/-- A row can have another value at a path: in a field, through objects, or as a fact about its file. -/
inductive IsWritable (r : Row) (path : String) : Prop where
  | field {first : String} (hparts : pathParts path = [first])
  | inField {first : String} {rest : List String} {v : Value} (hparts : pathParts path = first :: rest)
      (hv : r.fields.get? first = some v) (hthrough : v.leadsThroughObjects rest = true)
  | ofFile {key : String} {a : FileAttribute} (hparts : pathParts path = [Context.fileName, key])
      (hnone : r.fields.get? Context.fileName = none) (ha : FileAttribute.ofKey? key = some a)

theorem withValue_field {first : String} (hparts : pathParts path = [first]) (new : Value) :
    r.withValue path new = { r with fields := r.fields.insert first new } := by
  simp [withValue, hparts, replaceAt?]

theorem withValue_inField {first : String} {rest : List String} {v new w : Value}
    (hparts : pathParts path = first :: rest) (hv : r.fields.get? first = some v)
    (hw : replaceAt? v rest new = some w) :
    r.withValue path new = { r with fields := r.fields.insert first w } := by
  simp [withValue, hparts, Record.has, Record.get, hv, hw]

theorem withValue_ofFile {key : String} {a : FileAttribute}
    (hparts : pathParts path = [Context.fileName, key])
    (hnone : r.fields.get? Context.fileName = none) (ha : FileAttribute.ofKey? key = some a)
    (new : Value) : r.withValue path new = { r with file := r.file.set a new } := by
  simp [withValue, hparts, Record.has, hnone, ha]

/-- What was put at a path is found there. -/
theorem lookup_withValue (h : r.IsWritable path) (new : Value) :
    (r.withValue path new).lookup path = .ok new := by
  cases h with
  | field hparts =>
    rw [withValue_field hparts, lookup, hparts]
    simp only [Record.get?_insert, if_true]
    rfl
  | inField hparts hv hthrough =>
    obtain ⟨w, hw⟩ := exists_replaceAt? hthrough new
    rw [withValue_inField hparts hv hw, lookup, hparts]
    simp only [Record.get?_insert, if_true]
    exact descend_replaceAt? hw
  | @ofFile key a hparts hnone ha =>
    have hkey : a.key = key := by simpa using List.find?_some ha
    rw [withValue_ofFile hparts hnone ha, lookup, hparts]
    simp only [hnone, if_true]
    rw [descend_object, ← hkey, FileInfo.get_record, FileInfo.get_set, if_pos rfl]
    rfl

theorem withValue_of_not_isWritable (h : ¬r.IsWritable path) (new : Value) :
    r.withValue path new = r := by
  unfold withValue
  split
  · rfl
  · next first rest hparts =>
    cases hv : r.fields.get? first with
    | some v =>
      have hnone : replaceAt? v rest new = none := by
        rw [← Option.not_isSome_iff_eq_none, isSome_replaceAt?]
        exact fun hthrough => h (.inField hparts hv hthrough)
      simp [Record.has, Record.get, hv, hnone]
    | none =>
      have hrest : rest.isEmpty = false := by
        cases rest with
        | nil => exact absurd (.field hparts) h
        | cons => rfl
      rw [Record.has, hv, hrest]
      split
      · contradiction
      · split
        · next hfirst =>
          subst hfirst
          split
          · split
            · next ha => exact absurd (.ofFile hparts hv ha) h
            · rfl
          · rfl
        · rfl

/-- All that a write changes: one field, or one fact about the file. -/
theorem withValue_cases (r : Row) (path : String) (new : Value) :
    r.withValue path new = r ∨
    (∃ first rest w, pathParts path = first :: rest ∧
      r.withValue path new = { r with fields := r.fields.insert first w }) ∨
    (∃ key a, pathParts path = [Context.fileName, key] ∧
      r.withValue path new = { r with file := r.file.set a new }) := by
  by_cases h : r.IsWritable path
  · cases h with
    | field hparts => exact .inr (.inl ⟨_, _, _, hparts, withValue_field hparts new⟩)
    | inField hparts hv hthrough =>
      obtain ⟨w, hw⟩ := exists_replaceAt? hthrough new
      exact .inr (.inl ⟨_, _, w, hparts, withValue_inField hparts hv hw⟩)
    | ofFile hparts hnone ha => exact .inr (.inr ⟨_, _, hparts, withValue_ofFile hparts hnone ha new⟩)
  · exact .inl (withValue_of_not_isWritable h new)

theorem text?_withValue (new : Value) : (r.withValue path new).text? = r.text? := by
  obtain h | ⟨_, _, _, -, h⟩ | ⟨_, _, -, h⟩ := withValue_cases r path new <;> rw [h]

/-- Paths with another first name lead where they led. -/
theorem lookup_withValue_elsewhere {other : String}
    (hother : (pathParts other).head? ≠ (pathParts path).head?) (new : Value) :
    (r.withValue path new).lookup other = r.lookup other := by
  have hapart {first name : String} {rest rest' : List String} (hparts : pathParts path = first :: rest)
      (hname : pathParts other = name :: rest') : name ≠ first := by
    rintro rfl
    rw [hparts, hname] at hother
    exact hother rfl
  obtain h | ⟨first, rest, w, hparts, h⟩ | ⟨key, a, hparts, h⟩ := withValue_cases r path new
  · rw [h]
  · rw [h]
    unfold lookup
    split
    · rfl
    · next hname => simp only [Record.get?_insert, if_neg (hapart hparts hname)]
  · rw [h]
    unfold lookup
    split
    · rfl
    · next hname => rw [if_neg (hapart hparts hname), if_neg (hapart hparts hname)]

/-! ### Rows for items -/

/-- The items of the array at a path; none where there is no array. -/
def itemsAt (r : Row) (path : String) : List Value :=
  match r.valueAt path with
  | .array items => items
  | _ => []

/-- The rows that stand in the place of one row. -/
structure IsExplosion (path : String) (r : Row) (part : List Row) : Prop where
  items : r.itemsAt path ≠ [] → r.IsWritable path →
    part.map (fun s => s.lookup path) = (r.itemsAt path).map .ok
  /-- Where the path cannot be written there is a copy of the row for each item. -/
  copies : r.itemsAt path ≠ [] → ¬r.IsWritable path →
    part = List.replicate (r.itemsAt path).length r
  other : r.itemsAt path = [] → part = [r]
  text : ∀ s ∈ part, s.text? = r.text?
  elsewhere : ∀ s ∈ part, ∀ other, (pathParts other).head? ≠ (pathParts path).head? →
    s.lookup other = r.lookup other

theorem IsExplosion.length_eq {part : List Row} (h : IsExplosion path r part) :
    part.length = max 1 (r.itemsAt path).length := by
  by_cases hitems : r.itemsAt path = []
  · rw [h.other hitems, hitems]
    rfl
  · have hpos : 1 ≤ (r.itemsAt path).length := List.length_pos_iff.mpr hitems
    rw [max_eq_right hpos]
    by_cases hwritable : r.IsWritable path
    · simpa using congrArg List.length (h.items hitems hwritable)
    · rw [h.copies hitems hwritable, List.length_replicate]

theorem flatten_eq {v : Value} (hv : r.lookup path = .ok v) :
    r.flatten path =
      .ok (if r.itemsAt path = [] then [r] else (r.itemsAt path).map (r.withValue path)) := by
  have hvalue : r.valueAt path = v := by rw [valueAt, hv]; rfl
  rw [flatten, hv, itemsAt, hvalue]
  cases v with
  | array items => cases items <;> rfl
  | _ => rfl

theorem isExplosion_of_flatten {part : List Row} (h : r.flatten path = .ok part) :
    IsExplosion path r part := by
  obtain ⟨v, hv, -⟩ := bind_eq_ok.mp h
  rw [flatten_eq hv] at h
  cases h
  refine ⟨fun hitems hwritable => ?_, fun hitems hwritable => ?_, fun hitems => if_pos hitems, ?_, ?_⟩
  · rw [if_neg hitems, List.map_map]
    exact List.map_congr_left fun item _ => lookup_withValue hwritable item
  · rw [if_neg hitems, List.eq_replicate_iff]
    refine ⟨List.length_map _, List.forall_mem_map.mpr fun item _ => ?_⟩
    exact withValue_of_not_isWritable hwritable item
  · split
    · exact List.forall_mem_singleton.mpr rfl
    · exact List.forall_mem_map.mpr fun item _ => text?_withValue item
  · split
    · exact List.forall_mem_singleton.mpr fun _ _ => rfl
    · exact List.forall_mem_map.mpr fun item _ other hother => lookup_withValue_elsewhere hother item

theorem exists_flatten_iff : (∃ part, r.flatten path = .ok part) ↔ ∃ v, r.lookup path = .ok v := by
  constructor
  · rintro ⟨part, h⟩
    obtain ⟨v, hv, -⟩ := bind_eq_ok.mp h
    exact ⟨v, hv⟩
  · rintro ⟨v, hv⟩
    exact ⟨_, flatten_eq hv⟩

theorem flattenAll_eq (rows : List Row) (path : String) :
    flattenAll rows path = List.flatten <$> rows.mapM fun r => r.flatten path := by
  rw [flattenAll, bind_pure_comp]

theorem exists_flattenAll_iff {rows : List Row} :
    (∃ out, flattenAll rows path = .ok out) ↔ ∀ r ∈ rows, ∃ v, r.lookup path = .ok v := by
  rw [flattenAll_eq, exists_map_ok_iff, exists_mapM_ok_iff]
  exact forall₂_congr fun r _ => exists_flatten_iff

theorem length_of_explosions {rows : List Row} {parts : List (List Row)}
    (h : List.Forall₂ (IsExplosion path) rows parts) :
    parts.flatten.length = (rows.map fun r => max 1 (r.itemsAt path).length).sum := by
  induction h with
  | nil => rfl
  | cons hpart _ ih =>
    rw [List.flatten_cons, List.length_append, hpart.length_eq, ih, List.map_cons, List.sum_cons]

end Row

end NoteQuery
