import NoteQuery.Eval.TextFunctions
import NoteQuery.Proofs.Text.Pieces

/-! Splitting a text and joining its pieces again. Between the pieces stands the separator, or nothing where a
text is split into its characters. -/

namespace NoteQuery.TextFunction
set_option autoImplicit false
open Text

theorem joinWith_splitChars (separator cs : List Char) :
    joinWith separator (splitChars separator cs) = cs := by
  unfold splitChars
  split
  · next hempty =>
    rw [List.isEmpty_iff.mp hempty]
    exact joinWith_characters cs
  · exact joinWith_pieces separator cs

theorem displayAll_texts (ss : List String) : Value.displayAll (ss.map .text) = .ok ss := by
  induction ss with
  | nil => rfl
  | cons s ss ih =>
    rw [List.map_cons, Value.displayAll, ih]
    rfl

theorem split_text (s separator : String) : split (.text s) (.text separator) =
    .ok (.array (((splitChars separator.toList s.toList).map String.ofList).map .text)) := by
  rw [List.map_map]
  rfl

theorem join_texts (ss : List String) (separator : String) :
    join (.array (ss.map .text)) (.text separator) =
      .ok (.text (String.ofList (joinWith separator.toList (ss.map String.toList)))) := by
  have hjoin : join (.array (ss.map .text)) (.text separator) =
      liftM (Value.displayAll (ss.map .text)) >>= fun ss =>
        pure (.text (String.ofList (joinWith separator.toList (ss.map String.toList)))) := rfl
  rw [hjoin, displayAll_texts]
  rfl

/-- A text that is split and joined by the same separator is itself again, and the pieces between
separators hold no separator. -/
theorem join_split (s separator : String) :
    ∃ parts : List String,
      split (.text s) (.text separator) = .ok (.array (parts.map .text)) ∧
      join (.array (parts.map .text)) (.text separator) = .ok (.text s) ∧
      (separator ≠ "" → ∀ p ∈ parts, ¬separator.toList <:+: p.toList) := by
  have hchars (ps : List (List Char)) : (ps.map String.ofList).map String.toList = ps := by
    rw [List.map_map]
    exact (List.map_congr_left fun p _ => String.toList_ofList).trans (List.map_id ps)
  refine ⟨(splitChars separator.toList s.toList).map String.ofList, split_text s separator, ?_, ?_⟩
  · rw [join_texts, hchars, joinWith_splitChars, String.ofList_toList]
  · intro hne p hp
    obtain ⟨q, hq, rfl⟩ := List.mem_map.mp hp
    have hsep : separator.toList ≠ [] := fun h => hne (String.toList_eq_nil_iff.mp h)
    rw [splitChars, if_neg (by simpa using hne)] at hq
    rw [String.toList_ofList]
    exact not_infix_of_mem_pieces hsep q hq

end NoteQuery.TextFunction
