import NoteQuery.Proofs.Outcome.Yields
import NoteQuery.Text.Utf8

/-! Text is read from bytes if, and only if, the bytes are its encoding. The argument is about one character:
the sequences that the reader takes for one are those that the encoding of one makes. -/

namespace NoteQuery.Text
set_option autoImplicit false

/-- The bytes of a text. -/
def encodeUtf8 (cs : List Char) : List UInt8 := cs.flatMap String.utf8EncodeChar

/-! ### The bytes of one character -/

def IsContinuation (b : UInt8) : Prop := 0x80 ≤ b.toNat ∧ b.toNat ≤ 0xbf

/-- A first byte and those that follow it. After some first bytes the second is bounded further: it must not
be small where fewer bytes would do, nor great where a surrogate or no code point would result. -/
inductive IsSequence : UInt8 → List UInt8 → Prop
  | one {b : UInt8} : b.toNat < 0x80 → IsSequence b []
  | two {b x : UInt8} : 0xc2 ≤ b.toNat → b.toNat < 0xe0 → IsContinuation x → IsSequence b [x]
  | three {b x y : UInt8} : 0xe0 ≤ b.toNat → b.toNat < 0xf0 → IsContinuation x →
      (b.toNat = 0xe0 → 0xa0 ≤ x.toNat) → (b.toNat = 0xed → x.toNat ≤ 0x9f) → IsContinuation y →
      IsSequence b [x, y]
  | four {b x y z : UInt8} : 0xf0 ≤ b.toNat → b.toNat < 0xf5 → IsContinuation x →
      (b.toNat = 0xf0 → 0x90 ≤ x.toNat) → (b.toNat = 0xf4 → x.toNat ≤ 0x8f) → IsContinuation y →
      IsContinuation z → IsSequence b [x, y, z]

theorem toNat_ofNat {n : Nat} (h : n.isValidChar) : (Char.ofNat n).toNat = n := by
  rw [Char.ofNat, dif_pos h]
  rfl

theorem ofNat_eq {b : UInt8} {n : Nat} (h : n = b.toNat) : UInt8.ofNat n = b := by
  subst h
  exact UInt8.ofNat_toNat

/-- The code point of a sequence is encoded as that sequence. -/
theorem IsSequence.encode {b : UInt8} {following : List UInt8} (h : IsSequence b following) :
    String.utf8EncodeChar (Char.ofNat (codePoint b following)) = b :: following := by
  have hbytes {n : Nat} (hvalid : n.isValidChar) : (Char.ofNat n).val.toNat = n := toNat_ofNat hvalid
  cases h with
  | one hb =>
    have hcode : codePoint b [] = b.toNat := rfl
    simp only [String.utf8EncodeChar, hcode, hbytes (n := b.toNat) (.inl (by omega))]
    rw [if_pos (by omega), UInt8.ofNat_toNat]
  | @two x hlow hhigh hx =>
    have hcode : codePoint b [x] = b.toNat % 0x20 * 0x40 + x.toNat % 0x40 := rfl
    unfold IsContinuation at hx
    simp only [String.utf8EncodeChar, hbytes (n := codePoint b [x]) (.inl (by omega))]
    rw [if_neg (by omega), if_pos (by omega), ofNat_eq (b := b) (by omega), ofNat_eq (b := x) (by omega)]
  | @three x y hlow hhigh hx hshort hsurrogate hy =>
    have hcode : codePoint b [x, y] =
        (b.toNat % 0x10 * 0x40 + x.toNat % 0x40) * 0x40 + y.toNat % 0x40 := rfl
    unfold IsContinuation at hx hy
    have hvalid : (codePoint b [x, y]).isValidChar := by
      unfold Nat.isValidChar
      omega
    simp only [String.utf8EncodeChar, hbytes hvalid]
    rw [if_neg (by omega), if_neg (by omega), if_pos (by omega), ofNat_eq (b := b) (by omega),
      ofNat_eq (b := x) (by omega), ofNat_eq (b := y) (by omega)]
  | @four x y z hlow hhigh hx hshort hgreat hy hz =>
    have hcode : codePoint b [x, y, z] =
        ((b.toNat % 0x08 * 0x40 + x.toNat % 0x40) * 0x40 + y.toNat % 0x40) * 0x40 + z.toNat % 0x40 := rfl
    unfold IsContinuation at hx hy hz
    have hvalid : (codePoint b [x, y, z]).isValidChar := by
      unfold Nat.isValidChar
      omega
    simp only [String.utf8EncodeChar, hbytes hvalid]
    rw [if_neg (by omega), if_neg (by omega), if_neg (by omega), ofNat_eq (b := b) (by omega),
      ofNat_eq (b := x) (by omega), ofNat_eq (b := y) (by omega), ofNat_eq (b := z) (by omega)]

theorem isContinuation_ofNat (n : Nat) : IsContinuation (UInt8.ofNat (n % 0x40 + 0x80)) := by
  rw [IsContinuation, UInt8.toNat_ofNat_of_lt' (show n % 0x40 + 0x80 < 256 by omega)]
  omega

/-- The bytes of a character are a sequence, and its code point is the character's. -/
theorem exists_isSequence (c : Char) : ∃ b following, String.utf8EncodeChar c = b :: following ∧
    IsSequence b following ∧ codePoint b following = c.toNat := by
  have hvalid : c.toNat < 0xd800 ∨ 0xdfff < c.toNat ∧ c.toNat < 0x110000 := c.valid
  have htoNat {n : Nat} (hn : n < 256) : (UInt8.ofNat n).toNat = n := UInt8.toNat_ofNat_of_lt' hn
  simp only [String.utf8EncodeChar, show c.val.toNat = c.toNat from rfl]
  generalize c.toNat = v at hvalid ⊢
  split
  · have hb := htoNat (n := v) (by omega)
    exact ⟨_, _, rfl, .one (by omega), hb⟩
  · split
    · have hb := htoNat (n := v / 64 % 0x20 + 0xc0) (by omega)
      have hx := htoNat (n := v % 0x40 + 0x80) (by omega)
      refine ⟨_, _, rfl, .two (by omega) (by omega) (isContinuation_ofNat v), ?_⟩
      simp only [codePoint, List.length_cons, List.length_nil, List.foldl_cons, List.foldl_nil]
      omega
    · split
      · have hb := htoNat (n := v / 4096 % 0x10 + 0xe0) (by omega)
        have hx := htoNat (n := v / 64 % 0x40 + 0x80) (by omega)
        have hy := htoNat (n := v % 0x40 + 0x80) (by omega)
        refine ⟨_, _, rfl, .three (by omega) (by omega) (isContinuation_ofNat (v / 64)) (by omega)
          (by omega) (isContinuation_ofNat v), ?_⟩
        simp only [codePoint, List.length_cons, List.length_nil, List.foldl_cons, List.foldl_nil]
        omega
      · have hb := htoNat (n := v / 262144 % 0x08 + 0xf0) (by omega)
        have hx := htoNat (n := v / 4096 % 0x40 + 0x80) (by omega)
        have hy := htoNat (n := v / 64 % 0x40 + 0x80) (by omega)
        have hz := htoNat (n := v % 0x40 + 0x80) (by omega)
        refine ⟨_, _, rfl, .four (by omega) (by omega) (isContinuation_ofNat (v / 4096)) (by omega)
          (by omega) (isContinuation_ofNat (v / 64)) (isContinuation_ofNat v), ?_⟩
        simp only [codePoint, List.length_cons, List.length_nil, List.foldl_cons, List.foldl_nil]
        omega

/-! ### What the reader takes for one character -/

theorem exists_continuation (low high more : Nat) (bs : List UInt8) :
    ∃ rest, bs = continuation low high more bs ++ rest := by
  induction more generalizing low high bs with
  | zero => exact ⟨bs, rfl⟩
  | succ more ih =>
    cases bs with
    | nil => exact ⟨[], rfl⟩
    | cons b bs =>
      rw [continuation]
      split
      · obtain ⟨rest, hrest⟩ := ih 0x80 0xbf bs
        exact ⟨rest, by rw [List.cons_append, ← hrest]⟩
      · exact ⟨b :: bs, rfl⟩

/-- All the bytes that have to follow do so only if the first of them fits, and then the others. -/
theorem continuation_full {low high more : Nat} {bs : List UInt8}
    (h : (continuation low high (more + 1) bs).length = more + 1) :
    ∃ x tail, continuation low high (more + 1) bs = x :: continuation 0x80 0xbf more tail ∧
      low ≤ x.toNat ∧ x.toNat ≤ high ∧ (continuation 0x80 0xbf more tail).length = more := by
  cases bs with
  | nil => cases h
  | cons x tail =>
    rw [continuation] at h ⊢
    split at h
    · next hx =>
      rw [if_pos hx]
      exact ⟨x, tail, rfl, hx.1, hx.2, Nat.succ.inj h⟩
    · cases h

theorem continuation_cons {low high more : Nat} {x : UInt8} {bs : List UInt8} (hlow : low ≤ x.toNat)
    (hhigh : x.toNat ≤ high) :
    continuation low high (more + 1) (x :: bs) = x :: continuation 0x80 0xbf more bs := by
  rw [continuation, if_pos ⟨hlow, hhigh⟩]

theorem isSequence_of_lead {b : UInt8} {lead : Utf8Lead} {bs : List UInt8}
    (h : Utf8Lead.ofByte? b.toNat = some lead)
    (hlength : (continuation lead.low lead.high lead.more bs).length = lead.more) :
    IsSequence b (continuation lead.low lead.high lead.more bs) := by
  unfold Utf8Lead.ofByte? at h
  split at h
  · cases h
    exact .one ‹_›
  split at h
  · cases h
  split at h
  · cases h
    obtain ⟨x, tail, heq, hlow, hhigh, -⟩ := continuation_full hlength
    rw [heq]
    exact .two (by omega) (by omega) ⟨hlow, hhigh⟩
  split at h
  · cases h
    obtain ⟨x, tail, heq, hlow, hhigh, hlength⟩ := continuation_full hlength
    obtain ⟨y, tail, heq', hlow', hhigh', -⟩ := continuation_full hlength
    have hleast : 0x80 ≤ x.toNat ∧ (b.toNat = 0xe0 → 0xa0 ≤ x.toNat) := by
      dsimp only at hlow
      split at hlow <;> omega
    have hmost : x.toNat ≤ 0xbf ∧ (b.toNat = 0xed → x.toNat ≤ 0x9f) := by
      dsimp only at hhigh
      split at hhigh <;> omega
    rw [heq, heq']
    exact .three (by omega) (by omega) ⟨hleast.1, hmost.1⟩ hleast.2 hmost.2 ⟨hlow', hhigh'⟩
  split at h
  · cases h
    obtain ⟨x, tail, heq, hlow, hhigh, hlength⟩ := continuation_full hlength
    obtain ⟨y, tail, heq', hlow', hhigh', hlength⟩ := continuation_full hlength
    obtain ⟨z, tail, heq'', hlow'', hhigh'', -⟩ := continuation_full hlength
    have hleast : 0x80 ≤ x.toNat ∧ (b.toNat = 0xf0 → 0x90 ≤ x.toNat) := by
      dsimp only at hlow
      split at hlow <;> omega
    have hmost : x.toNat ≤ 0xbf ∧ (b.toNat = 0xf4 → x.toNat ≤ 0x8f) := by
      dsimp only at hhigh
      split at hhigh <;> omega
    rw [heq, heq', heq'']
    exact .four (by omega) (by omega) ⟨hleast.1, hmost.1⟩ hleast.2 hmost.2 ⟨hlow', hhigh'⟩
      ⟨hlow'', hhigh''⟩
  · cases h

theorem IsSequence.lead {b : UInt8} {following : List UInt8} (h : IsSequence b following) :
    ∃ lead, Utf8Lead.ofByte? b.toNat = some lead ∧ following.length = lead.more ∧
      ∀ rest, continuation lead.low lead.high lead.more (following ++ rest) = following := by
  cases h with
  | one hb => exact ⟨⟨0, 0, 0⟩, by rw [Utf8Lead.ofByte?, if_pos hb], rfl, fun rest => rfl⟩
  | two hlow hhigh hx =>
    refine ⟨⟨1, 0x80, 0xbf⟩, ?_, rfl, fun rest => continuation_cons hx.1 hx.2⟩
    rw [Utf8Lead.ofByte?, if_neg (by omega), if_neg (by omega), if_pos (by omega)]
  | three hlow hhigh hx hshort hsurrogate hy =>
    refine ⟨⟨2, _, _⟩, by
      rw [Utf8Lead.ofByte?, if_neg (by omega), if_neg (by omega), if_neg (by omega),
        if_pos (by omega)], rfl, fun rest => ?_⟩
    have hleast := hx.1
    have hmost := hx.2
    refine (continuation_cons ?_ ?_).trans (congrArg _ (continuation_cons hy.1 hy.2))
    · dsimp only
      split <;> omega
    · dsimp only
      split <;> omega
  | four hlow hhigh hx hshort hgreat hy hz =>
    refine ⟨⟨3, _, _⟩, by
      rw [Utf8Lead.ofByte?, if_neg (by omega), if_neg (by omega), if_neg (by omega),
        if_neg (by omega), if_pos (by omega)], rfl, fun rest => ?_⟩
    have hleast := hx.1
    have hmost := hx.2
    refine (continuation_cons ?_ ?_).trans (congrArg _ <| (continuation_cons hy.1 hy.2).trans <|
      congrArg _ (continuation_cons hz.1 hz.2))
    · dsimp only
      split <;> omega
    · dsimp only
      split <;> omega

/-! ### Whole texts -/

theorem readUtf8From_skip (position : Nat) (front bs : List UInt8) :
    readUtf8From position front.length (front ++ bs) =
      readUtf8From (position + front.length) 0 bs := by
  induction front generalizing position with
  | nil => rfl
  | cons b front ih =>
    rw [List.cons_append, List.length_cons, readUtf8From, ih]
    congr 1
    omega

theorem IsSequence.read {b : UInt8} {following : List UInt8} (h : IsSequence b following)
    (position : Nat) (rest : List UInt8) :
    readUtf8From position 0 (b :: (following ++ rest)) =
      (Char.ofNat (codePoint b following) :: ·) <$>
        readUtf8From (position + 1 + following.length) 0 rest := by
  obtain ⟨lead, hlead, hlength, hcontinuation⟩ := h.lead
  rw [readUtf8From, hlead]
  simp only [hcontinuation rest, hlength, if_true]
  rw [← hlength, readUtf8From_skip]
  cases readUtf8From (position + 1 + following.length) 0 rest <;> rfl

theorem readUtf8From_encode (position : Nat) (cs : List Char) :
    readUtf8From position 0 (encodeUtf8 cs) = .ok cs := by
  induction cs generalizing position with
  | nil => rfl
  | cons c cs ih =>
    obtain ⟨b, following, hencode, hsequence, hcode⟩ := exists_isSequence c
    rw [encodeUtf8, List.flatMap_cons, hencode, List.cons_append, hsequence.read]
    change _ <$> readUtf8From _ 0 (encodeUtf8 cs) = _
    rw [ih, hcode, Char.ofNat_toNat]
    rfl

theorem encode_of_readUtf8From {position : Nat} {bs : List UInt8} {cs : List Char}
    (h : readUtf8From position 0 bs = .ok cs) : bs = encodeUtf8 cs := by
  induction hn : bs.length using Nat.strongRecOn generalizing position bs cs with
  | ind n ih =>
    cases bs with
    | nil =>
      cases h
      rfl
    | cons b bs =>
      rw [readUtf8From] at h
      split at h
      · cases h
      · next lead hlead =>
        dsimp only at h
        split at h
        · next hlength =>
          obtain ⟨cs, htail, h⟩ := bind_eq_ok.mp h
          cases h
          have hsequence := isSequence_of_lead hlead hlength
          obtain ⟨rest, hrest⟩ := exists_continuation lead.low lead.high lead.more bs
          generalize continuation lead.low lead.high lead.more bs = following at *
          subst hrest
          rw [← hlength, readUtf8From_skip] at htail
          have hlt : rest.length < n := by
            rw [← hn, List.length_cons, List.length_append]
            omega
          rw [ih _ hlt htail rfl, encodeUtf8, encodeUtf8, List.flatMap_cons, hsequence.encode,
            List.cons_append]
        · cases h

/-- Bytes are read as the text that they encode, and any other bytes not at all. -/
theorem readUtf8_eq_ok {bs : List UInt8} {cs : List Char} :
    readUtf8 bs = .ok cs ↔ bs = encodeUtf8 cs := by
  refine ⟨encode_of_readUtf8From, ?_⟩
  rintro rfl
  exact readUtf8From_encode 0 cs

end NoteQuery.Text
