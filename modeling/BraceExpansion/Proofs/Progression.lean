import BraceExpansion.Proofs.Shape
import Mathlib.Tactic.Ring

/-!
# Progressions do not wrap

The values of a progression are computed in machine words.  One that was made between two bounds
never leaves the interval between them, so its values are those of integer arithmetic.

* **`Progression.between?_eq_some_iff`** — between which bounds there is a progression, and which: it
  takes as many strides as fit.  What else is true of progressions follows from this.
* `Progression.between?_bounds` — where the last value lies.
* `Progression.between?_values` — where all values lie.
* **`Progression.Bounded.toInt_value`** — the values without a modulus.
-/

namespace BraceExpansion

namespace Progression

variable {start stop step : Int64} {width : Nat} {p q : Progression}

/-! ## Which progression -/

/-- How far it is from one value to the next, in whichever direction. -/
def stride (step : Int64) : Nat := max 1 step.toInt.natAbs

/-- How many strides fit between two bounds. -/
def strides (start stop step : Int64) : Nat := (stop.toInt - start.toInt).natAbs / stride step

lemma stride_pos (step : Int64) : 0 < stride step :=
  Nat.lt_of_lt_of_le Nat.one_pos (Nat.le_max_left _ _)

lemma strides_self (start step : Int64) : strides start start step = 0 := by
  simp [strides]

/-- The strides that fit lead to less than one stride from the bound. -/
lemma strides_mul (start stop step : Int64) :
    strides start stop step * stride step ≤ (stop.toInt - start.toInt).natAbs ∧
      (stop.toInt - start.toInt).natAbs < strides start stop step * stride step + stride step :=
  ⟨Nat.div_mul_le_self _ _, Nat.lt_div_mul_add (stride_pos step)⟩

/-- The magnitude of the least word does not fit a word. -/
lemma eq_minValue_iff : step = Int64.minValue ↔ 0x8000000000000000 ≤ step.toInt.natAbs := by
  have hlow := step.le_toInt
  have hhigh := step.toInt_lt
  rw [← Int64.toInt_inj, Int64.toInt_minValue]
  omega

/-- The step of a progression, once there is more than one value. -/
lemma toInt_directed {stride : Nat} (h : stride < 2 ^ 63) :
    (directed start stop stride).toInt = if start < stop then (stride : Int) else -stride := by
  rw [directed]
  split
  · exact Int64.toInt_ofNat_of_lt h
  · exact Int64.toInt_neg_ofNat_of_le (Nat.le_of_lt h)

lemma between?_eq : between? start stop step width =
    if start = stop then some ⟨start, 0, 0, width⟩
    else if 0x8000000000000000 ≤ step.toInt.natAbs then none
    else if 0x7FFFFFFFFFFFFFFF ≤ strides start stop step then none
    else if strides start stop step = 0 then some ⟨start, 0, 0, width⟩
    else some ⟨start, .ofNat (strides start stop step), directed start stop (stride step), width⟩ :=
  rfl

lemma eq_iff : p = q ↔ p.start = q.start ∧ p.width = q.width ∧
    p.count.toNat = q.count.toNat ∧ p.step.toInt = q.step.toInt := by
  obtain ⟨start, count, step, width⟩ := p
  obtain ⟨start', count', step', width'⟩ := q
  rw [UInt64.toNat_inj, Int64.toInt_inj, mk.injEq]
  constructor
  · rintro ⟨rfl, rfl, rfl, rfl⟩
    exact ⟨rfl, rfl, rfl, rfl⟩
  · rintro ⟨rfl, rfl, rfl, rfl⟩
    exact ⟨rfl, rfl, rfl, rfl⟩

/-- **When there is a progression, and which.** -/
theorem between?_eq_some_iff : between? start stop step width = some p ↔
    (start = stop ∨ step ≠ Int64.minValue ∧ strides start stop step < 2 ^ 63 - 1) ∧
      p.start = start ∧ p.width = width ∧ p.count.toNat = strides start stop step ∧
      p.step.toInt = if strides start stop step = 0 then 0
        else if start < stop then (stride step : Int) else -stride step := by
  rw [between?_eq, Ne, eq_minValue_iff]
  split
  next heq =>
    subst heq
    rw [Option.some.injEq, eq_comm, eq_iff]
    simp [strides_self]
  next hne =>
    split
    next hstep => simp [hne, hstep]
    next hstep =>
      split
      next hmany => simp [hne, Nat.not_lt.mpr hmany]
      next hfew =>
        have hlt : strides start stop step < 2 ^ 63 - 1 := Nat.lt_of_not_le hfew
        split
        next hzero =>
          rw [Option.some.injEq, eq_comm, eq_iff]
          simp [hstep, hzero]
        next hpos =>
          have hcount : (UInt64.ofNat (strides start stop step)).toNat = strides start stop step :=
            UInt64.toNat_ofNat_of_lt' (by rw [UInt64.size]; omega)
          have hstride : stride step < 2 ^ 63 := by rw [stride]; omega
          rw [Option.some.injEq, eq_comm, eq_iff, hcount, toInt_directed hstride,
            and_iff_right (Or.inr ⟨hstep, hlt⟩)]

/-! ## Where the values lie -/

/-- All strides together lead towards the other bound. -/
lemma between?_reach (h : between? start stop step width = some p) :
    (start.toInt ≤ stop.toInt → 0 ≤ p.step.toInt ∧
      p.count.toNat * p.step.toInt = (strides start stop step * stride step : Nat)) ∧
    (stop.toInt ≤ start.toInt → p.step.toInt ≤ 0 ∧
      p.count.toNat * p.step.toInt = -(strides start stop step * stride step : Nat)) := by
  obtain ⟨-, -, -, hcount, hstep⟩ := between?_eq_some_iff.mp h
  by_cases hzero : strides start stop step = 0
  · simp [hstep, hcount, hzero]
  · have hne : start.toInt ≠ stop.toInt := by
      intro heq
      rw [Int64.toInt_inj.mp heq, strides_self] at hzero
      exact hzero rfl
    rw [hstep, hcount, if_neg hzero]
    refine ⟨fun hdir => ?_, fun hdir => ?_⟩
    · rw [if_pos (Int64.lt_iff_toInt_lt.mpr (by omega))]
      exact ⟨by omega, by push_cast; rfl⟩
    · rw [if_neg (by rw [Int64.lt_iff_toInt_lt]; omega)]
      exact ⟨by omega, by push_cast; ring⟩

/-- A progression goes from its start towards the other bound and does not pass it. -/
lemma between?_bounds (h : between? start stop step width = some p) :
    p.start = start ∧ p.width = width ∧
      (start.toInt ≤ stop.toInt →
        0 ≤ p.step.toInt ∧ start.toInt + p.count.toNat * p.step.toInt ≤ stop.toInt) ∧
      (stop.toInt ≤ start.toInt →
        p.step.toInt ≤ 0 ∧ stop.toInt ≤ start.toInt + p.count.toNat * p.step.toInt) := by
  obtain ⟨-, hstart, hwidth, -⟩ := between?_eq_some_iff.mp h
  obtain ⟨hup, hdown⟩ := between?_reach h
  obtain ⟨hle, -⟩ := strides_mul start stop step
  refine ⟨hstart, hwidth, fun hdir => ?_, fun hdir => ?_⟩
  · obtain ⟨hstep, hreach⟩ := hup hdir
    exact ⟨hstep, by omega⟩
  · obtain ⟨hstep, hreach⟩ := hdown hdir
    exact ⟨hstep, by omega⟩

/-- All values lie between the two bounds, whichever way the progression goes. -/
lemma between?_term (h : between? start stop step width = some p) {i : Nat} (hi : i < p.length) :
    min start.toInt stop.toInt ≤ p.start.toInt + i * p.step.toInt ∧
      p.start.toInt + i * p.step.toInt ≤ max start.toInt stop.toInt := by
  obtain ⟨hstart, -, hup, hdown⟩ := between?_bounds h
  have hle : (i : Int) ≤ p.count.toNat := by rw [length] at hi; omega
  rw [hstart]
  rcases Int.le_total start.toInt stop.toInt with hdir | hdir
  · obtain ⟨hstep, hlast⟩ := hup hdir
    have h0 : 0 ≤ (i : Int) * p.step.toInt := Int.mul_nonneg (by omega) hstep
    have h1 : (i : Int) * p.step.toInt ≤ p.count.toNat * p.step.toInt :=
      Int.mul_le_mul_of_nonneg_right hle hstep
    omega
  · obtain ⟨hstep, hlast⟩ := hdown hdir
    have h0 : (i : Int) * p.step.toInt ≤ 0 :=
      Int.mul_nonpos_of_nonneg_of_nonpos (by omega) hstep
    have h1 : (p.count.toNat : Int) * p.step.toInt ≤ i * p.step.toInt :=
      Int.mul_le_mul_of_nonpos_right hle hstep
    omega

/-- **No value of a bounded progression wraps.** -/
theorem Bounded.toInt_value (h : p.Bounded) {i : Nat} (hi : i < p.length) :
    (p.value i).toInt = p.start.toInt + i * p.step.toInt := by
  obtain ⟨start, stop, step, width, h⟩ := h
  obtain ⟨hlow, hhigh⟩ := between?_term h hi
  have hmod : (p.value i).toInt = (p.start.toInt + i * p.step.toInt).bmod (2 ^ 64) := by
    simp [value, Int64.toInt_add, Int64.toInt_mul, Int.bmod_mul_bmod]
  have hlo := start.le_toInt
  have hhi := start.toInt_lt
  have hlo' := stop.le_toInt
  have hhi' := stop.toInt_lt
  rw [hmod]
  exact Int.bmod_eq_of_le (by omega) (by omega)

/-- The values lie between the two bounds. -/
lemma between?_values (h : between? start stop step width = some p) :
    ∀ v ∈ p.values, min start.toInt stop.toInt ≤ v.toInt ∧ v.toInt ≤ max start.toInt stop.toInt := by
  have hbounded : p.Bounded := ⟨start, stop, step, width, h⟩
  intro v hv
  simp only [values, firstValues, Nat.min_self, List.mem_map, List.mem_range] at hv
  rcases hv with ⟨i, hi, rfl⟩
  rw [hbounded.toInt_value hi]
  exact between?_term h hi

end Progression

end BraceExpansion
