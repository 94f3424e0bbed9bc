import BraceExpansion.Proofs.Progression.Endpoints

/-!
# Bounds are plain

A text that bounds a range has at most one byte, or contains neither an opening brace nor a dot: it
is a number, a letter, or one character.  So no bound of a range comes from a block that came to
nothing, or from two dots that did, because these leave text that is not plain.
-/

namespace BraceExpansion

/-- At most one byte, or no braces that open and no dots. -/
def Plain (text : Bytes) : Prop :=
  text.length ≤ 1 ∨ ∀ b ∈ text, b ≠ Ascii.openBrace ∧ b ≠ Ascii.dot

/-! ## Numbers -/

namespace Decimal

lemma digit_plain {b : UInt8} (h : Ascii.isDigit b = true) :
    b ≠ Ascii.openBrace ∧ b ≠ Ascii.dot := by
  constructor
  · rintro rfl
    exact absurd h (by decide)
  · rintro rfl
    exact absurd h (by decide)

/-- A sign and digits are plain. -/
lemma Numeral.plain_text {text : Bytes} {z : Int} (h : Numeral text z) : Plain text := by
  right
  cases h with
  | plain h => exact fun b hb => digit_plain (h.isDigit b hb)
  | plus h | minus h =>
      rintro b hb
      rcases List.mem_cons.mp hb with rfl | hb
      · decide
      · exact digit_plain (h.isDigit b hb)

/-- What is read as an integer is plain. -/
lemma plain_of_read? {text : Bytes} {n : Int64} (h : read? text = some n) : Plain text :=
  (read?_eq_some_iff.mp h).plain_text

end Decimal

/-! ## Characters -/

/-- What is one character is plain. -/
lemma Utf8.plain_encodeChar (c : Char) : Plain (String.utf8EncodeChar c) := by
  by_cases hlow : c.toNat ≤ 0x7F
  · left
    rw [encodeChar_ascii hlow]
    exact Nat.le_refl 1
  · right
    intro b hb
    have hhigh := encodeChar_not_ascii (c := c) (by omega) b hb
    constructor
    · rintro rfl
      exact absurd hhigh (by decide)
    · rintro rfl
      exact absurd hhigh (by decide)

/-! ## Bounds -/

lemma Bounds.Written.plain {anyChar : Bool} {first last : Bytes} {bounds : Bounds}
    (h : Written anyChar first last bounds) : Plain first ∧ Plain last := by
  cases h with
  | integers hfirst hlast => exact ⟨hfirst.plain_text, hlast.plain_text⟩
  | @characters c d _ hfirst hlast =>
      rw [hfirst, hlast]
      exact ⟨Utf8.plain_encodeChar c, Utf8.plain_encodeChar d⟩

/-- **Both bounds of a range are plain.** -/
theorem plain_of_ofTexts? {options : CompileOptions} {first last : Bytes} {step : Int64}
    {range : RangeKind × Progression}
    (h : Progression.ofTexts? options first last step = some range) : Plain first ∧ Plain last := by
  obtain ⟨bounds, hwritten, -, -⟩ := Progression.ofTexts?_eq_some_iff.mp h
  exact hwritten.plain

end BraceExpansion
