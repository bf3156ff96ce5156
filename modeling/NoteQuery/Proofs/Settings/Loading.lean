import NoteQuery.Proofs.Json.Reading
import NoteQuery.Proofs.Text.Utf8
import NoteQuery.Settings.Load

/-! Which settings come from what stands at the place of the settings file, for all the bytes that may stand
there. The bytes have to be text, the text has to denote an object, and the object to hold nothing but
settings; a file that fails at one of these is reported, at the first of them in a way of its own. -/

namespace NoteQuery
set_option autoImplicit false
open Text

namespace Settings

/-- What stands at the place of the settings file provides settings: nothing, or the text of an object that
has no other member than `defaults`. -/
inductive Provides : Except PathFault FileNode → Settings → Prop
  | missing : Provides (.error .missing) {}
  | empty {cs : List Char} {times : FileTimes} : Json.Denotes Json.lenientWords cs (.object []) →
      Provides (.ok (.file (encodeUtf8 cs) times)) {}
  | defaults {cs : List Char} {times : FileTimes} {ms : Members} {s : Settings} :
      Json.Denotes Json.lenientWords cs (.object [("defaults", .object ms)]) → ofMembers? ms = some s →
      Provides (.ok (.file (encodeUtf8 cs) times)) s

theorem sectionOf?_eq_some {ms defaults : Members} (h : (Json.names ms).Nodup) :
    sectionOf? ms = some defaults ↔
      ms = [] ∧ defaults = [] ∨ ms = [("defaults", .object defaults)] := by
  obtain _ | ⟨⟨k, j⟩, ms⟩ := ms
  · simp [sectionOf?, eq_comm]
  · by_cases hk : k = "defaults"
    · subst hk
      obtain _ | ⟨⟨l, i⟩, ms⟩ := ms
      · simp only [sectionOf?, List.any_cons, List.any_nil, bne_self_eq_false, Bool.or_self,
          Bool.false_eq_true, if_false, List.lookup_cons_self, reduceCtorEq, false_and, false_or,
          List.cons.injEq, Prod.mk.injEq, true_and, and_true]
        cases j <;> simp
      · have hl : l ≠ "defaults" := by
          rintro rfl
          simp [Json.names] at h
        simp [sectionOf?, hl]
    · simp [sectionOf?, hk]

theorem ofDocument?_eq_some {j : Json} {s : Settings} {cs : List Char}
    (h : Json.Denotes Json.lenientWords cs j) : ofDocument? j = some s ↔
      j = .object [] ∧ s = {} ∨ ∃ ms, j = .object [("defaults", .object ms)] ∧ ofMembers? ms = some s := by
  cases j with
  | object ms =>
    simp only [ofDocument?, Option.bind_eq_bind, Option.bind_eq_some_iff, sectionOf?_eq_some h.nodup,
      Json.object.injEq]
    constructor
    · rintro ⟨defaults, ⟨rfl, rfl⟩ | rfl, hs⟩
      · cases hs
        exact .inl ⟨rfl, rfl⟩
      · exact .inr ⟨defaults, rfl, hs⟩
    · rintro (⟨rfl, rfl⟩ | ⟨defaults, rfl, hs⟩)
      · exact ⟨[], .inl ⟨rfl, rfl⟩, rfl⟩
      · exact ⟨defaults, .inr rfl, hs⟩
  | _ => simp [ofDocument?]

theorem ofBytes_encode (cs : List Char) :
    ofBytes (encodeUtf8 cs) = ((Json.read? cs).bind ofDocument?).elim (.error .malformed) .ok := by
  rw [ofBytes, readUtf8_eq_ok.mpr rfl]

theorem ofBytes_encode_eq_ok {cs : List Char} {s : Settings} : ofBytes (encodeUtf8 cs) = .ok s ↔
    ∃ j, Json.Denotes Json.lenientWords cs j ∧ ofDocument? j = some s := by
  rw [ofBytes_encode]
  simp only [← Json.read?_eq_some, ← Option.bind_eq_some_iff]
  cases (Json.read? cs).bind ofDocument? with
  | none => simp
  | some t => simp

/-- Bytes that are no text are reported as such, all others as malformed if they provide no settings. -/
theorem ofBytes_undecodable {bs : List UInt8} :
    (∃ f, ofBytes bs = .error (.undecodable f)) ↔ ¬∃ cs, bs = encodeUtf8 cs := by
  constructor
  · rintro ⟨f, hf⟩ ⟨cs, rfl⟩
    rw [ofBytes_encode] at hf
    cases hread : (Json.read? cs).bind ofDocument? with
    | none =>
      rw [hread] at hf
      cases hf
    | some s =>
      rw [hread] at hf
      cases hf
  · intro h
    cases hread : readUtf8 bs with
    | ok cs => exact absurd ⟨cs, readUtf8_eq_ok.mp hread⟩ h
    | error f => exact ⟨f, by rw [ofBytes, hread]⟩

/-- There are settings exactly where some are provided. -/
theorem load_eq_ok {place : Except PathFault FileNode} {s : Settings} :
    load place = .ok s ↔ Provides place s := by
  constructor
  · intro h
    unfold load at h
    split at h
    · next bs times =>
      by_cases htext : ∃ cs, bs = encodeUtf8 cs
      · obtain ⟨cs, rfl⟩ := htext
        obtain ⟨j, hj, hdocument⟩ := ofBytes_encode_eq_ok.mp h
        obtain ⟨rfl, rfl⟩ | ⟨ms, rfl, hs⟩ := (ofDocument?_eq_some hj).mp hdocument
        · exact .empty hj
        · exact .defaults hj hs
      · obtain ⟨f, hf⟩ := ofBytes_undecodable.mpr htext
        rw [hf] at h
        cases h
    · cases h
    · cases h
    · cases h
      exact .missing
  · intro h
    cases h with
    | missing => rfl
    | empty hj =>
      exact ofBytes_encode_eq_ok.mpr ⟨_, hj, (ofDocument?_eq_some hj).mpr (.inl ⟨rfl, rfl⟩)⟩
    | defaults hj hs =>
      exact ofBytes_encode_eq_ok.mpr ⟨_, hj, (ofDocument?_eq_some hj).mpr (.inr ⟨_, rfl, hs⟩)⟩

theorem load_undecodable {place : Except PathFault FileNode} :
    (∃ f, load place = .error (.undecodable f)) ↔
      ∃ bs times, place = .ok (.file bs times) ∧ ¬∃ cs, bs = encodeUtf8 cs := by
  constructor
  · rintro ⟨f, hf⟩
    unfold load at hf
    split at hf
    · next bs times => exact ⟨bs, times, rfl, ofBytes_undecodable.mp ⟨f, hf⟩⟩
    · cases hf
    · cases hf
    · cases hf
  · rintro ⟨bs, times, rfl, htext⟩
    exact ofBytes_undecodable.mpr htext

end Settings
end NoteQuery
