import NoteQuery.Proofs.Eval.WellFormed
import NoteQuery.Proofs.Query.Headers
import NoteQuery.Row.Task

/-! Rows of well-formed values. What a path leads to is well-formed, a row stays so when such a value is put at
a path, and so do the rows for the items of an array. -/

namespace NoteQuery
set_option autoImplicit false
open Value

namespace Record

theorem nodup_insert {r : Record} (h : (keys r).Nodup) (key : String) (v : Value) :
    (keys (Record.insert r key v)).Nodup := by
  rw [keys_insert]
  split
  · exact h
  · next hkey =>
    refine List.nodup_append.mpr ⟨h, List.nodup_singleton key, ?_⟩
    rintro k hk _ hsame rfl
    exact hkey (List.mem_singleton.mp hsame ▸ hk)

end Record

namespace Value

theorem wellFormed_object_insert {r : Record} {v : Value} (h : (object r).WellFormed)
    (hv : v.WellFormed) (key : String) : (object (Record.insert r key v)).WellFormed :=
  ⟨Record.nodup_insert h.1 key v, wellFormed_insert h.2 hv key⟩

theorem wellFormed_ofList {es : Record} (h : EntriesWellFormed es) :
    (object (Record.ofList es)).WellFormed := by
  have hfold (r : Record) (hr : (object r).WellFormed) :
      (object (es.foldl (fun r e => Record.insert r e.1 e.2) r)).WellFormed := by
    induction es generalizing r with
    | nil => exact hr
    | cons e es ih => exact ih h.2 _ (wellFormed_object_insert hr h.1 e.1)
  exact hfold [] ⟨List.nodup_nil, trivial⟩

theorem wellFormed_ofList_mapM {α ε : Type} {as : List α} {entry : α → Except ε (String × Value)}
    (h : ∀ a ∈ as, Ensures (fun e => e.2.WellFormed) (entry a)) :
    Ensures (fun es => (object (Record.ofList es)).WellFormed) (as.mapM entry) :=
  (Yields.mapM h).imp (fun _ hes => wellFormed_ofList (entriesWellFormed_iff.mpr hes)) fun _ he => he

end Value

/-- The facts about a file are well-formed. -/
def FileInfo.WellFormed (f : FileInfo) : Prop := ∀ a, (f.get a).WellFormed

theorem FileInfo.wellFormed_record {f : FileInfo} (h : f.WellFormed) : (object f.record).WellFormed := by
  have hkeys : Record.keys f.record = FileAttribute.all.map FileAttribute.key := rfl
  refine ⟨by rw [hkeys]; decide, entriesWellFormed_iff.mpr fun e he => ?_⟩
  obtain ⟨a, -, rfl⟩ := List.mem_map.mp he
  exact h a

namespace Row

/-- The fields of a row and the facts about its file are well-formed. -/
structure WellFormed (r : Row) : Prop where
  fields : (object r.fields).WellFormed
  file : r.file.WellFormed

variable {r : Row} {v w : Value} {path : String}

theorem WellFormed.context (h : r.WellFormed) : r.context.WellFormed :=
  ⟨h.fields.2, FileInfo.wellFormed_record h.file, trivial⟩

theorem WellFormed.record (h : r.WellFormed) : (object r.record).WellFormed :=
  ⟨show (["file", "fields"] : List String).Nodup by decide,
    FileInfo.wellFormed_record h.file, h.fields, trivial⟩

/-! ### Paths -/

theorem wellFormed_child (h : v.WellFormed) (part : String) :
    Ensures Value.WellFormed (child v part) := by
  unfold child
  split
  · exact wellFormed_get h.2 part
  · dsimp only
    split
    · trivial
    · split
      · rw [← List.getD_eq_getElem?_getD]
        exact wellFormed_getD h (d := .null) trivial _
      · trivial
  · trivial

theorem wellFormed_descend (h : v.WellFormed) (parts : List String) :
    Ensures Value.WellFormed (descend v parts) := by
  induction parts generalizing v with
  | nil => exact h
  | cons part parts ih =>
    rw [descend]
    refine (wellFormed_child h part).bind fun w hw => ?_
    split
    · trivial
    · exact ih hw

theorem wellFormed_lookup (h : r.WellFormed) (path : String) :
    Ensures Value.WellFormed (r.lookup path) := by
  unfold lookup
  split
  · trivial
  · next first rest _ =>
    split
    · next v hv =>
      have hfirst := wellFormed_get h.fields.2 first
      rw [Record.get, hv] at hfirst
      exact wellFormed_descend hfirst rest
    · split
      · exact wellFormed_descend (FileInfo.wellFormed_record h.file) rest
      · trivial

theorem wellFormed_replaceAt? (h : v.WellFormed) (hw : w.WellFormed) (parts : List String) :
    ∀ u ∈ replaceAt? v parts w, u.WellFormed := by
  induction parts generalizing v with
  | nil => cases v <;> simpa [replaceAt?] using hw
  | cons part parts ih =>
    intro u hu
    unfold replaceAt? at hu
    split at hu
    · next entries =>
      obtain ⟨inner, hinner, rfl⟩ := Option.map_eq_some_iff.mp hu
      exact wellFormed_object_insert h (ih (wellFormed_get h.2 part) inner hinner) part
    · cases hu

theorem wellFormed_set {f : FileInfo} (h : f.WellFormed) (a : FileAttribute) (hv : v.WellFormed) :
    (f.set a v).WellFormed := by
  intro b
  rw [FileInfo.get_set]
  split
  · exact hv
  · exact h b

theorem wellFormed_withValue (h : r.WellFormed) (hv : v.WellFormed) (path : String) :
    (r.withValue path v).WellFormed := by
  unfold withValue
  split
  · exact h
  · next first rest _ =>
    split
    · split
      · next w hw =>
        have hfirst := wellFormed_replaceAt? (wellFormed_get h.fields.2 first) hv rest w hw
        exact ⟨wellFormed_object_insert h.fields hfirst first, h.file⟩
      · exact h
    · split
      · split
        · split
          · exact ⟨h.fields, wellFormed_set h.file _ hv⟩
          · exact h
        · exact h
      · exact h

theorem wellFormed_flatten (h : r.WellFormed) (path : String) :
    Ensures (fun rows => ∀ s ∈ rows, s.WellFormed) (r.flatten path) := by
  refine (wellFormed_lookup h path).bind fun found hfound => ?_
  split
  · next item items =>
    intro s hs
    obtain ⟨v, hv, rfl⟩ := List.mem_map.mp hs
    exact wellFormed_withValue h (allWellFormed_iff.mp hfound v hv) path
  · exact List.forall_mem_singleton.mpr h

theorem wellFormed_flattenAll {rows : List Row} (h : ∀ r ∈ rows, r.WellFormed) (path : String) :
    Ensures (fun out => ∀ s ∈ out, s.WellFormed) (flattenAll rows path) := by
  refine (Yields.mapM fun r hr => wellFormed_flatten (h r hr) path).bind fun parts hparts s hs => ?_
  obtain ⟨part, hpart, hmem⟩ := List.mem_flatten.mp hs
  exact hparts part hpart s hmem

end Row

/-! ### Tasks -/

namespace TaskItem

variable {t : TaskItem}

theorem path_of_mem_ofLines {path : Value} {n : Nat} {ls : List (List Char)}
    (h : t ∈ ofLines path n ls) : t.path = path := by
  induction ls generalizing n with
  | nil => cases h
  | cons l ls ih =>
    rcases List.mem_append.mp h with hfirst | hrest
    · obtain ⟨parts, -, rfl⟩ := Option.map_eq_some_iff.mp (Option.mem_toList.mp hfirst)
      rfl
    · exact ih hrest

theorem wellFormed_record (h : t.path.WellFormed) : (object t.record).WellFormed := by
  have htags : t.tagsValue.WellFormed := allWellFormed_map fun _ _ => trivial
  exact ⟨show (["path", "line", "text", "completed", "tags"] : List String).Nodup by decide,
    h, trivial, trivial, trivial, htags, trivial⟩

end TaskItem

theorem Row.wellFormed_tasks {r : Row} (h : r.WellFormed) : ∀ t ∈ r.tasks, t.path.WellFormed := by
  intro t ht
  rw [TaskItem.path_of_mem_ofLines ht]
  exact h.file .path

end NoteQuery
