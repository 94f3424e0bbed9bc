import BraceExpansion.Proofs.Progression
import BraceExpansion.Proofs.Text.Decimal

/-!
# Progressions are exact

A progression is four machine words, and its values are found by multiplying some of them.  This file
compares that with the integers, up to the limits of 64 bits: the least step, bounds that are nearly
`2 ^ 64` apart, and counts of nearly `2 ^ 63`, where a product wraps and only the sum is right again.

* `Progression.added?` — the values one after the other, each the one before plus the step, where a
  sum that is no word stops everything.
* `Progression.Exact` — what the values between two bounds should be.
* **`Progression.between?_exact`** — when there is no progression, and that one is exact if there is.
-/

namespace BraceExpansion

namespace Progression

variable {start stop step : Int64} {width i : Nat} {p : Progression}

/-! ## Values by position -/

lemma length_values (p : Progression) : p.values.length = p.length := by
  simp [values, firstValues]

lemma getElem_values (h : i < p.values.length) : p.values[i] = p.value i := by
  simp [values, firstValues]

/-- The multiplication that finds the last value finds the value at the last position. -/
lemma last_eq (p : Progression) : p.last = p.value p.count.toNat := by
  rw [last, value, ← UInt64.toInt64_ofNat', UInt64.ofNat_toNat]

lemma getLast?_values (p : Progression) : p.values.getLast? = some p.last := by
  rw [last_eq, values, firstValues, Nat.min_self, length, List.range_succ, List.map_append,
    List.map_singleton, List.getLast?_concat]

/-- The last value, without a modulus. -/
lemma Bounded.toInt_last (h : p.Bounded) :
    p.last.toInt = p.start.toInt + p.count.toNat * p.step.toInt := by
  rw [last_eq, h.toInt_value (Nat.lt_succ_self _)]

/-! ## Values by addition -/

/-- The sum of two words, if it is a word. -/
def add? (a b : Int64) : Option Int64 := Decimal.ofInt? (a.toInt + b.toInt)

/-- A value and the `n` values after it. -/
def addedFrom? (step value : Int64) : Nat → Option (List Int64)
  | 0 => some [value]
  | n + 1 => do
    let next ← add? value step
    let values ← addedFrom? step next n
    return value :: values

/-- All values, by addition alone. -/
def added? (p : Progression) : Option (List Int64) := addedFrom? p.step p.start p.count.toNat

lemma value_zero (p : Progression) : p.value 0 = p.start := by
  rw [value, show Int64.ofNat 0 = 0 from rfl, Int64.zero_mul, Int64.add_zero]

/-- One addition leads from a value to the next. -/
lemma Bounded.add?_value (h : p.Bounded) (hi : i + 1 < p.length) :
    add? (p.value i) p.step = some (p.value (i + 1)) := by
  rw [add?, Decimal.ofInt?_eq_some_iff, h.toInt_value hi, h.toInt_value (Nat.lt_of_succ_lt hi)]
  push_cast
  ring

/-- Additions lead from a value to all values after it. -/
lemma Bounded.addedFrom?_value (h : p.Bounded) {n : Nat} (hn : i + n < p.length) :
    addedFrom? p.step (p.value i) n = some ((List.range' i (n + 1)).map p.value) := by
  induction n generalizing i with
  | zero => rfl
  | succ n ih =>
      have hnext := h.add?_value (i := i) (by omega)
      have hrest := ih (i := i + 1) (by omega)
      rw [addedFrom?, hnext, Option.bind_eq_bind, Option.bind_some, hrest]
      rfl

/-- **No addition overflows.** -/
lemma Bounded.added?_eq (h : p.Bounded) : p.added? = some p.values := by
  have hall := h.addedFrom?_value (i := 0) (n := p.count.toNat) (by rw [length]; omega)
  rw [added?, ← value_zero, hall, values, firstValues, Nat.min_self, List.range_eq_range', length]

/-! ## Between two bounds -/

/-- The values of a progression from `start` towards `stop` in strides of `stride`. -/
structure Exact (p : Progression) (start stop : Int64) (stride : Nat) : Prop where
  length : p.values.length = p.count.toNat + 1
  /-- The values are those of the integers. -/
  value : ∀ i (h : i < p.values.length), p.values[i].toInt = start.toInt + i * p.step.toInt
  /-- They can be found by addition, and no sum overflows. -/
  added : p.added? = some p.values
  /-- A step is a stride in one of the two directions, and nothing if there is one value. -/
  step : p.step.toInt.natAbs = if p.count = 0 then 0 else stride
  between : ∀ v ∈ p.values, min start.toInt stop.toInt ≤ v.toInt ∧ v.toInt ≤ max start.toInt stop.toInt
  upwards : start ≤ stop → p.values.Pairwise (· < ·)
  downwards : stop ≤ start → p.values.Pairwise (· > ·)
  last : p.values.getLast? = some p.last
  /-- There is no room for another value. -/
  near : (stop.toInt - p.last.toInt).natAbs < stride

/-- When there is no progression. -/
lemma between?_eq_none_iff : between? start stop step width = none ↔
    start ≠ stop ∧ (step = Int64.minValue ∨ 2 ^ 63 - 1 ≤ strides start stop step) := by
  rw [between?_eq, eq_minValue_iff]
  split
  next heq => simp [heq]
  next hne =>
    split
    next hstep => simp [hne, hstep]
    next hstep =>
      split
      next hmany => simp [hne, hmany]
      next hfew => split <;> simp [hstep, hfew]

/-- Only a progression of several values has a step. -/
lemma between?_step (h : between? start stop step width = some p) :
    p.step.toInt.natAbs = if p.count = 0 then 0 else stride step := by
  obtain ⟨-, -, -, hcount, hstep⟩ := between?_eq_some_iff.mp h
  have hzero : p.count = 0 ↔ strides start stop step = 0 := by
    rw [← hcount, ← UInt64.toNat_inj, UInt64.toNat_zero]
  rw [hstep]
  simp only [hzero]
  split
  · rfl
  split
  · exact Int.natAbs_natCast _
  · rw [Int.natAbs_neg, Int.natAbs_natCast]

/-- A later value is further in the direction of the step. -/
lemma Bounded.value_sub_value (h : p.Bounded) {j : Nat} (hij : i ≤ j) (hj : j < p.length) :
    (p.value j).toInt - (p.value i).toInt = (j - i : Nat) * p.step.toInt := by
  rw [h.toInt_value hj, h.toInt_value (Nat.lt_of_le_of_lt hij hj), Int.ofNat_sub hij]
  ring

lemma pairwise_values {r : Int64 → Int64 → Prop}
    (h : ∀ i j, i < j → j < p.length → r (p.value i) (p.value j)) : p.values.Pairwise r := by
  rw [values, firstValues, Nat.min_self, List.pairwise_map]
  refine List.pairwise_lt_range.imp_of_mem ?_
  intro i j _ hj hij
  exact h i j hij (List.mem_range.mp hj)

/-- **The values are in order**, whichever way they go. -/
lemma between?_monotone (h : between? start stop step width = some p) :
    (start ≤ stop → p.values.Pairwise (· < ·)) ∧ (stop ≤ start → p.values.Pairwise (· > ·)) := by
  have hbounded : p.Bounded := ⟨_, _, _, _, h⟩
  obtain ⟨-, -, hup, hdown⟩ := between?_bounds h
  -- where there are two values, there is a step
  have hne : ∀ {i j : Nat}, i < j → j < p.length → p.step.toInt ≠ 0 := by
    intro i j hij hj hzero
    have hstep := between?_step h
    have hcount : p.count ≠ 0 := by
      intro hcount
      rw [length, hcount, UInt64.toNat_zero] at hj
      omega
    have hpos := stride_pos step
    rw [hzero, if_neg hcount] at hstep
    exact absurd hstep (Nat.ne_of_lt hpos)
  refine ⟨fun hle => pairwise_values ?_, fun hle => pairwise_values ?_⟩
  · intro i j hij hj
    have hstep := hne hij hj
    have hstep' := (hup (Int64.le_iff_toInt_le.mp hle)).1
    have hdistance : (0 : Int) < (j - i : Nat) * p.step.toInt := Int.mul_pos (by omega) (by omega)
    rw [← hbounded.value_sub_value (Nat.le_of_lt hij) hj] at hdistance
    exact Int64.lt_iff_toInt_lt.mpr (by omega)
  · intro i j hij hj
    have hstep := hne hij hj
    have hstep' := (hdown (Int64.le_iff_toInt_le.mp hle)).1
    have hdistance : ((j - i : Nat) : Int) * p.step.toInt < 0 :=
      Int.mul_neg_of_pos_of_neg (by omega) (by omega)
    rw [← hbounded.value_sub_value (Nat.le_of_lt hij) hj] at hdistance
    exact Int64.lt_iff_toInt_lt.mpr (by omega)

/-- The last value is less than a stride from the bound. -/
lemma between?_near (h : between? start stop step width = some p) :
    (stop.toInt - p.last.toInt).natAbs < stride step := by
  have hbounded : p.Bounded := ⟨_, _, _, _, h⟩
  obtain ⟨hstart, -⟩ := between?_bounds h
  obtain ⟨hup, hdown⟩ := between?_reach h
  obtain ⟨hle, hlt⟩ := strides_mul start stop step
  rw [hbounded.toInt_last, hstart]
  rcases Int.le_total start.toInt stop.toInt with hdir | hdir
  · have hreach := (hup hdir).2
    omega
  · have hreach := (hdown hdir).2
    omega

/-- **What comes of two bounds and a step is exact.**  There is no progression where the step is the
least word or too many strides fit between the bounds.  Otherwise its values are those of the integers
from one bound as far as strides lead towards the other. -/
theorem between?_exact (start stop step : Int64) (width : Nat) :
    (between? start stop step width = none ↔
      start ≠ stop ∧ (step = Int64.minValue ∨
        2 ^ 63 - 1 ≤ (stop.toInt - start.toInt).natAbs / max 1 step.toInt.natAbs)) ∧
    ∀ p, between? start stop step width = some p →
      p.start = start ∧ p.width = width ∧ p.Exact start stop (max 1 step.toInt.natAbs) := by
  refine ⟨between?_eq_none_iff, fun p h => ?_⟩
  have hbounded : p.Bounded := ⟨_, _, _, _, h⟩
  obtain ⟨hstart, hwidth, -⟩ := between?_bounds h
  refine ⟨hstart, hwidth, ?_⟩
  exact
    { length := length_values p
      value := by
        intro i hi
        rw [length_values] at hi
        rw [getElem_values, hbounded.toInt_value hi, hstart]
      added := hbounded.added?_eq
      step := between?_step h
      between := between?_values h
      upwards := (between?_monotone h).1
      downwards := (between?_monotone h).2
      last := getLast?_values p
      near := between?_near h }

/-- From the least word to the greatest in strides of the greatest: twice the step is no word, but two
steps lead to the last word but one. -/
theorem between?_exact_extremes :
    between? Int64.minValue Int64.maxValue Int64.maxValue 0
        = some ⟨Int64.minValue, 2, Int64.maxValue, 0⟩ ∧
      (Progression.mk Int64.minValue 2 Int64.maxValue 0).Exact Int64.minValue Int64.maxValue
        (2 ^ 63 - 1) := by
  have h : between? Int64.minValue Int64.maxValue Int64.maxValue 0
      = some ⟨Int64.minValue, 2, Int64.maxValue, 0⟩ := by decide
  exact ⟨h, ((between?_exact _ _ _ _).2 _ h).2.2⟩

end Progression

end BraceExpansion
