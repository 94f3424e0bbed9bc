import BraceExpansion.Text.Utf8
import Mathlib.Tactic.SplitIfs

/-!
# Decoding is the inverse of encoding

`decodeChar?` reads what `String.utf8EncodeChar` writes, and nothing else:

* **`decodeChar?_eq_some_iff`** — a text starts with a character if it starts with the bytes of one.
* `singleChar?_eq_some_iff` — a text is one character if it is the bytes of one.
* `not_ascii_of_decodeChar?` — where no character starts, there is a byte that is not of ASCII.
-/

namespace BraceExpansion.Utf8

variable {a b c d : UInt8} {x y z w : Nat} {bytes : Bytes} {ch : Char}

/-! ## Ranges of bytes -/

lemma leadWidth_iff (a : UInt8) : (leadWidth a = 1 ↔ a.toNat ≤ 0x7F) ∧
    (leadWidth a = 2 ↔ 0xC2 ≤ a.toNat ∧ a.toNat ≤ 0xDF) ∧
    (leadWidth a = 3 ↔ 0xE0 ≤ a.toNat ∧ a.toNat ≤ 0xEF) ∧
    (leadWidth a = 4 ↔ 0xF0 ≤ a.toNat ∧ a.toNat ≤ 0xF4) := by
  unfold leadWidth
  simp only [UInt8.le_iff_toNat_le, UInt8.lt_iff_toNat_lt, UInt8.reduceToNat]
  refine ⟨?_, ?_, ?_, ?_⟩
  all_goals split_ifs <;> simp <;> omega

lemma isTail_iff : isTail b = true ↔ 0x80 ≤ b.toNat ∧ b.toNat ≤ 0xBF := by
  simp [isTail, UInt8.le_iff_toNat_le]

lemma isSecond_iff : isSecond a b = true ↔ 0x80 ≤ b.toNat ∧ b.toNat ≤ 0xBF ∧
    (a.toNat = 0xE0 → 0xA0 ≤ b.toNat) ∧ (a.toNat = 0xED → b.toNat ≤ 0x9F) ∧
    (a.toNat = 0xF0 → 0x90 ≤ b.toNat) ∧ (a.toNat = 0xF4 → b.toNat ≤ 0x8F) := by
  unfold isSecond
  simp only [isTail, UInt8.le_iff_toNat_le, UInt8.reduceToNat, ← UInt8.toNat_inj]
  split_ifs <;> simp only [Bool.and_eq_true, decide_eq_true_eq] <;> omega

lemma toNat_eq_payload (h : 0x80 ≤ b.toNat) : b.toNat = payload b + 0x80 := by
  unfold payload
  omega

/-! ## The bytes of a character -/

lemma toNat_ofNat {n : Nat} (h : n.isValidChar) : (Char.ofNat n).val.toNat = n := by
  rw [Char.ofNat, dif_pos h]
  rfl

lemma encodeChar_one (ha : a.toNat ≤ 0x7F) : String.utf8EncodeChar (Char.ofNat a.toNat) = [a] := by
  have hval := toNat_ofNat (n := a.toNat) (Or.inl (by omega))
  simp [String.utf8EncodeChar, hval, ha]

lemma encodeChar_two (ha : a.toNat = x + 0xC0) (hb : b.toNat = y + 0x80) (hlow : 0x80 ≤ x * 64 + y)
    (hx : x < 32) (hy : y < 64) : String.utf8EncodeChar (Char.ofNat (x * 64 + y)) = [a, b] := by
  have hval := toNat_ofNat (n := x * 64 + y) (Or.inl (by omega))
  simp only [String.utf8EncodeChar, hval]
  rw [if_neg (by omega), if_pos (by omega)]
  simp only [List.cons.injEq, ← UInt8.toNat_inj, UInt8.toNat_ofNat', and_true]
  omega

lemma encodeChar_three (ha : a.toNat = x + 0xE0) (hb : b.toNat = y + 0x80) (hc : c.toNat = z + 0x80)
    (hlow : 0x800 ≤ (x * 64 + y) * 64 + z) (hvalid : ((x * 64 + y) * 64 + z).isValidChar)
    (hx : x < 16) (hy : y < 64) (hz : z < 64) :
    String.utf8EncodeChar (Char.ofNat ((x * 64 + y) * 64 + z)) = [a, b, c] := by
  have hval := toNat_ofNat hvalid
  simp only [String.utf8EncodeChar, hval]
  rw [if_neg (by omega), if_neg (by omega), if_pos (by omega)]
  simp only [List.cons.injEq, ← UInt8.toNat_inj, UInt8.toNat_ofNat', and_true]
  omega

lemma encodeChar_four (ha : a.toNat = x + 0xF0) (hb : b.toNat = y + 0x80) (hc : c.toNat = z + 0x80)
    (hd : d.toNat = w + 0x80) (hlow : 0x10000 ≤ ((x * 64 + y) * 64 + z) * 64 + w)
    (hvalid : (((x * 64 + y) * 64 + z) * 64 + w).isValidChar) (hx : x < 5) (hy : y < 64)
    (hz : z < 64) (hw : w < 64) :
    String.utf8EncodeChar (Char.ofNat (((x * 64 + y) * 64 + z) * 64 + w)) = [a, b, c, d] := by
  have hval := toNat_ofNat hvalid
  simp only [String.utf8EncodeChar, hval]
  rw [if_neg (by omega), if_neg (by omega), if_neg (by omega)]
  simp only [List.cons.injEq, ← UInt8.toNat_inj, UInt8.toNat_ofNat', and_true]
  omega

/-- What is read as a character is the bytes of that character. -/
lemma encodeChar_of_decodeChar? (h : decodeChar? bytes = some ch) :
    ∃ rest, bytes = String.utf8EncodeChar ch ++ rest := by
  cases bytes with
  | nil => cases h
  | cons a bytes =>
      obtain ⟨hone, htwo, hthree, hfour⟩ := leadWidth_iff a
      rw [decodeChar?.eq_def] at h
      simp only at h
      split at h
      next hwidth =>
        obtain rfl := Option.some.inj h
        exact ⟨_, by rw [encodeChar_one (hone.mp hwidth)]; rfl⟩
      next b more hwidth =>
        split at h
        next hsecond =>
          obtain rfl := Option.some.inj h
          have ha := htwo.mp hwidth
          have hb := isSecond_iff.mp hsecond
          have hy := toNat_eq_payload hb.1
          have hbytes := encodeChar_two (a := a) (x := a.toNat - 0xC0) (by omega) hy (by omega)
            (by omega) (by omega)
          exact ⟨more, by rw [hbytes]; rfl⟩
        · cases h
      next b c more hwidth =>
        split at h
        next hcond =>
          obtain rfl := Option.some.inj h
          rw [Bool.and_eq_true] at hcond
          have ha := hthree.mp hwidth
          have hb := isSecond_iff.mp hcond.1
          have hc := isTail_iff.mp hcond.2
          have hy := toNat_eq_payload hb.1
          have hz := toNat_eq_payload hc.1
          have hbytes := encodeChar_three (a := a) (x := a.toNat - 0xE0) (by omega) hy hz (by omega)
            (by rw [Nat.isValidChar]; omega) (by omega) (by omega) (by omega)
          exact ⟨more, by rw [hbytes]; rfl⟩
        · cases h
      next b c d more hwidth =>
        split at h
        next hcond =>
          obtain rfl := Option.some.inj h
          rw [Bool.and_eq_true, Bool.and_eq_true] at hcond
          have ha := hfour.mp hwidth
          have hb := isSecond_iff.mp hcond.1.1
          have hc := isTail_iff.mp hcond.1.2
          have hd := isTail_iff.mp hcond.2
          have hy := toNat_eq_payload hb.1
          have hz := toNat_eq_payload hc.1
          have hw := toNat_eq_payload hd.1
          have hbytes := encodeChar_four (a := a) (x := a.toNat - 0xF0) (by omega) hy hz hw
            (by omega) (by rw [Nat.isValidChar]; omega) (by omega) (by omega) (by omega) (by omega)
          exact ⟨more, by rw [hbytes]; rfl⟩
        · cases h
      · cases h

lemma decodeChar?_one {rest : Bytes} (ha : leadWidth a = 1) :
    decodeChar? (a :: rest) = some (Char.ofNat a.toNat) := by
  simp only [decodeChar?.eq_def, ha]

lemma decodeChar?_two {rest : Bytes} (ha : leadWidth a = 2) (hb : isSecond a b = true) :
    decodeChar? (a :: b :: rest) = some (Char.ofNat ((a.toNat - 0xC0) * 64 + payload b)) := by
  simp only [decodeChar?.eq_def, ha, hb, if_true]

lemma decodeChar?_three {rest : Bytes} (ha : leadWidth a = 3) (hb : isSecond a b = true)
    (hc : isTail c = true) : decodeChar? (a :: b :: c :: rest)
      = some (Char.ofNat (((a.toNat - 0xE0) * 64 + payload b) * 64 + payload c)) := by
  simp only [decodeChar?.eq_def, ha, hb, hc, Bool.and_self, if_true]

lemma decodeChar?_four {rest : Bytes} (ha : leadWidth a = 4) (hb : isSecond a b = true)
    (hc : isTail c = true) (hd : isTail d = true) : decodeChar? (a :: b :: c :: d :: rest)
      = some (Char.ofNat
        ((((a.toNat - 0xF0) * 64 + payload b) * 64 + payload c) * 64 + payload d)) := by
  simp only [decodeChar?.eq_def, ha, hb, hc, hd, Bool.and_self, if_true]

/-- The bytes of a character are read as that character. -/
lemma decodeChar?_encodeChar (ch : Char) (rest : Bytes) :
    decodeChar? (String.utf8EncodeChar ch ++ rest) = some ch := by
  have hvalid : ch.val.toNat.isValidChar := ch.valid
  have hchar : ∀ {m : Nat}, m = ch.val.toNat → some (Char.ofNat m) = some ch := by
    rintro m rfl
    rw [show Char.ofNat ch.val.toNat = ch from Char.ofNat_toNat ch]
  have hbyte : ∀ m < 256, ∃ b : UInt8, UInt8.ofNat m = b ∧ b.toNat = m :=
    fun m hm => ⟨_, rfl, UInt8.toNat_ofNat_of_lt' hm⟩
  simp only [String.utf8EncodeChar]
  generalize ch.val.toNat = n at hchar hvalid
  rw [Nat.isValidChar] at hvalid
  split
  next hone =>
    obtain ⟨a, ha', ha⟩ := hbyte n (by omega)
    rw [ha']
    exact (decodeChar?_one ((leadWidth_iff a).1.mpr (by omega))).trans (hchar ha)
  split
  next hone htwo =>
    obtain ⟨a, ha', ha⟩ := hbyte (n / 64 % 0x20 + 0xC0) (by omega)
    obtain ⟨b, hb', hb⟩ := hbyte (n % 0x40 + 0x80) (by omega)
    have hy := toNat_eq_payload (b := b) (by omega)
    rw [ha', hb']
    exact (decodeChar?_two ((leadWidth_iff a).2.1.mpr (by omega))
      (isSecond_iff.mpr (by omega))).trans (hchar (by omega))
  split
  next hone htwo hthree =>
    obtain ⟨a, ha', ha⟩ := hbyte (n / 4096 % 0x10 + 0xE0) (by omega)
    obtain ⟨b, hb', hb⟩ := hbyte (n / 64 % 0x40 + 0x80) (by omega)
    obtain ⟨c, hc', hc⟩ := hbyte (n % 0x40 + 0x80) (by omega)
    have hy := toNat_eq_payload (b := b) (by omega)
    have hz := toNat_eq_payload (b := c) (by omega)
    rw [ha', hb', hc']
    exact (decodeChar?_three ((leadWidth_iff a).2.2.1.mpr (by omega))
      (isSecond_iff.mpr (by omega)) (isTail_iff.mpr (by omega))).trans (hchar (by omega))
  next hone htwo hthree =>
    obtain ⟨a, ha', ha⟩ := hbyte (n / 262144 % 0x08 + 0xF0) (by omega)
    obtain ⟨b, hb', hb⟩ := hbyte (n / 4096 % 0x40 + 0x80) (by omega)
    obtain ⟨c, hc', hc⟩ := hbyte (n / 64 % 0x40 + 0x80) (by omega)
    obtain ⟨d, hd', hd⟩ := hbyte (n % 0x40 + 0x80) (by omega)
    have hy := toNat_eq_payload (b := b) (by omega)
    have hz := toNat_eq_payload (b := c) (by omega)
    have hw := toNat_eq_payload (b := d) (by omega)
    rw [ha', hb', hc', hd']
    exact (decodeChar?_four ((leadWidth_iff a).2.2.2.mpr (by omega))
      (isSecond_iff.mpr (by omega)) (isTail_iff.mpr (by omega))
      (isTail_iff.mpr (by omega))).trans (hchar (by omega))

/-- **A text starts with a character if it starts with the bytes of one.** -/
theorem decodeChar?_eq_some_iff :
    decodeChar? bytes = some ch ↔ ∃ rest, bytes = String.utf8EncodeChar ch ++ rest := by
  constructor
  · exact encodeChar_of_decodeChar?
  · rintro ⟨rest, rfl⟩
    exact decodeChar?_encodeChar ch rest

/-- **A text is one character if it is the bytes of one.** -/
lemma singleChar?_eq_some_iff : singleChar? bytes = some ch ↔ bytes = String.utf8EncodeChar ch := by
  rw [singleChar?.eq_def]
  constructor
  · intro h
    split at h
    next c hdecode =>
      obtain ⟨rest, rfl⟩ := encodeChar_of_decodeChar? hdecode
      split at h
      next hlength =>
        obtain rfl := Option.some.inj h
        rw [List.length_append, String.length_utf8EncodeChar, Nat.left_eq_add] at hlength
        rw [List.length_eq_zero_iff.mp hlength, List.append_nil]
      next => cases h
    next => cases h
  · rintro rfl
    have hdecode := decodeChar?_encodeChar ch []
    rw [List.append_nil] at hdecode
    rw [hdecode]
    exact if_pos (String.length_utf8EncodeChar ch).symm

/-- The element at the front is the character at the front. -/
lemma take_elementWidth (h : decodeChar? bytes = some ch) :
    bytes.take (elementWidth bytes) = String.utf8EncodeChar ch := by
  obtain ⟨rest, hrest⟩ := decodeChar?_eq_some_iff.mp h
  have hwidth : elementWidth bytes = ch.utf8Size := by rw [elementWidth, h]
  rw [hwidth, hrest, ← String.length_utf8EncodeChar, List.take_left]

/-- An element is part of the text. -/
lemma elementWidth_le (h : bytes ≠ []) : elementWidth bytes ≤ bytes.length := by
  rw [elementWidth]
  split
  next c hdecode =>
    obtain ⟨rest, rfl⟩ := decodeChar?_eq_some_iff.mp hdecode
    rw [List.length_append, String.length_utf8EncodeChar]
    exact Nat.le_add_right _ _
  next => exact List.length_pos_iff.mpr h

/-- Every byte of ASCII is a character. -/
lemma not_ascii_of_decodeChar? {rest : Bytes} (h : decodeChar? (a :: rest) = none) :
    0x80 ≤ a.toNat := by
  refine Nat.le_of_not_lt fun hlow => ?_
  rw [decodeChar?_one ((leadWidth_iff a).1.mpr (by omega))] at h
  cases h

/-! ## Elements -/

/-- The bytes of one character, or one byte that is malformed wherever it stands alone. -/
def IsElement (bytes : Bytes) : Prop :=
  (∃ c, bytes = String.utf8EncodeChar c) ∨ ∃ b : UInt8, 0x80 ≤ b ∧ bytes = [b]

lemma isElement_take (b : UInt8) (rest : Bytes) :
    IsElement ((b :: rest).take (elementWidth (b :: rest))) := by
  cases hdecode : decodeChar? (b :: rest) with
  | some c => exact Or.inl ⟨c, take_elementWidth hdecode⟩
  | none =>
      right
      refine ⟨b, UInt8.le_iff_toNat_le.mpr (not_ascii_of_decodeChar? hdecode), ?_⟩
      rw [elementWidth, hdecode]
      rfl

end BraceExpansion.Utf8
