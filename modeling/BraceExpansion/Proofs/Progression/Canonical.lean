import BraceExpansion.Proofs.Progression.Exact

/-!
# Progressions are canonical

Different bounds and steps can give the same values: `1..9` and `1..9..-1`, `1..8..2` and `1..7..2`,
`1..1` and `1..2..5`.  They also give the same progression, and no two progressions have the same
values, so comparing progressions is comparing what they stand for.

* `Progression.between?_of_apart` — a progression is made again from bounds that are as far apart as
  its values are.
* `Progression.reversed` — the progression back from the last value to the first.
* **`Progression.canonical`** — values determine a progression, its own bounds give it again, and the
  other way round they give its values in reverse.
-/

namespace BraceExpansion

namespace Progression

variable {p q : Progression}

/-! ## What a progression is made of -/

/-- How the words of a progression go together. -/
lemma Bounded.reduced (h : p.Bounded) : p.count.toNat < 2 ^ 63 - 1 ∧
    (p.count.toNat = 0 ↔ p.step.toInt = 0) ∧ p.step ≠ Int64.minValue := by
  obtain ⟨start, stop, step, width, h⟩ := h
  obtain ⟨hfits, -, -, hcount, hstep⟩ := between?_eq_some_iff.mp h
  have hpos := stride_pos step
  rw [Ne, eq_minValue_iff, hcount, hstep]
  split
  next hzero => simp [hzero]
  next hmany =>
    obtain rfl | ⟨hmin, hlt⟩ := hfits
    · exact absurd (strides_self start step) hmany
    · rw [Ne, eq_minValue_iff] at hmin
      have hstride : stride step < 2 ^ 63 := by rw [stride]; omega
      refine ⟨hlt, ?_⟩
      split
      · omega
      · omega

/-- **Bounds as far apart as the values are, and a step of the same magnitude, give a progression
again.** -/
lemma between?_of_apart {stop step : Int64} (hcount : p.count.toNat < 2 ^ 63 - 1)
    (hzero : p.count.toNat = 0 ↔ p.step.toInt = 0) (hmin : step ≠ Int64.minValue)
    (hstep : step.toInt.natAbs = p.step.toInt.natAbs)
    (hstop : stop.toInt = p.start.toInt + p.count.toNat * p.step.toInt) :
    between? p.start stop step p.width = some p := by
  have hdistance : (stop.toInt - p.start.toInt).natAbs = p.count.toNat * p.step.toInt.natAbs := by
    rw [hstop, add_sub_cancel_left, Int.natAbs_mul, Int.natAbs_natCast]
  have hstrides : strides p.start stop step = p.count.toNat := by
    rw [strides, hdistance, stride, hstep]
    by_cases hone : p.count.toNat = 0
    · rw [hone, Nat.zero_mul, Nat.zero_div]
    · rw [Nat.max_eq_right (by omega)]
      exact Nat.mul_div_cancel _ (by omega)
  rw [between?_eq_some_iff, hstrides]
  refine ⟨Or.inr ⟨hmin, hcount⟩, rfl, rfl, rfl, ?_⟩
  split
  next hone => exact hzero.mp hone
  next hmany =>
    have hstride : stride step = p.step.toInt.natAbs := by rw [stride, hstep]; omega
    rcases Int.lt_or_gt_of_ne (mt hzero.mpr hmany) with hdown | hup
    · have hproduct : (p.count.toNat : Int) * p.step.toInt < 0 :=
        Int.mul_neg_of_pos_of_neg (by omega) hdown
      rw [if_neg (by rw [Int64.lt_iff_toInt_lt]; omega), hstride]
      omega
    · have hproduct : 0 < (p.count.toNat : Int) * p.step.toInt := Int.mul_pos (by omega) hup
      rw [if_pos (Int64.lt_iff_toInt_lt.mpr (by omega)), hstride]
      omega

/-! ## The other way round -/

/-- The values from the last to the first. -/
def reversed (p : Progression) : Progression := ⟨p.last, p.count, -p.step, p.width⟩

lemma toInt_neg {step : Int64} (h : step ≠ Int64.minValue) : (-step).toInt = -step.toInt := by
  have hlow := step.le_toInt
  have hhigh := step.toInt_lt
  rw [Ne, eq_minValue_iff] at h
  rw [Int64.toInt_neg]
  exact Int.bmod_eq_of_le (by omega) (by omega)

lemma Bounded.between?_reversed (h : p.Bounded) :
    between? p.last p.start p.step p.width = some p.reversed := by
  obtain ⟨hcount, hzero, hmin⟩ := h.reduced
  have hneg := toInt_neg hmin
  refine between?_of_apart (p := p.reversed) hcount ?_ hmin ?_ ?_
  · rw [reversed, hneg, hzero]
    omega
  · rw [reversed, hneg, Int.natAbs_neg]
  · rw [reversed, hneg, h.toInt_last]
    ring

lemma Bounded.value_reversed (h : p.Bounded) {i : Nat} (hi : i ≤ p.count.toNat) :
    p.reversed.value i = p.value (p.count.toNat - i) := by
  obtain ⟨-, -, hmin⟩ := h.reduced
  have hreversed : p.reversed.Bounded := ⟨_, _, _, _, h.between?_reversed⟩
  rw [← Int64.toInt_inj, hreversed.toInt_value (Nat.lt_succ_of_le hi),
    h.toInt_value (Nat.lt_succ_of_le (Nat.sub_le _ _)), reversed, h.toInt_last, toInt_neg hmin,
    Int.ofNat_sub hi]
  ring

/-- The values of the reversed progression are the values in reverse. -/
lemma Bounded.values_reversed (h : p.Bounded) : p.reversed.values = p.values.reverse := by
  have hlength : p.reversed.values.length = p.values.length := by
    rw [length_values, length_values]
    rfl
  refine List.ext_getElem (by rw [hlength, List.length_reverse]) fun i hi hi' => ?_
  have hposition : p.values.length - 1 - i = p.count.toNat - i := by rw [length_values, length]; omega
  rw [hlength, length_values, length] at hi
  rw [List.getElem_reverse, getElem_values, getElem_values, hposition,
    h.value_reversed (Nat.le_of_lt_succ hi)]

/-! ## Values determine a progression -/

/-- The first value is the start, and the second shows the step if there is one. -/
lemma Bounded.eq_of_values_eq (hp : p.Bounded) (hq : q.Bounded) (hwidth : p.width = q.width)
    (hvalues : p.values = q.values) : p = q := by
  have hcount : p.count.toNat = q.count.toNat := by
    have hlength := congrArg List.length hvalues
    rw [length_values, length_values, length, length] at hlength
    omega
  have hvalue : ∀ i ≤ p.count.toNat,
      p.start.toInt + i * p.step.toInt = q.start.toInt + i * q.step.toInt := by
    intro i hi
    have hi₁ : i < p.length := Nat.lt_succ_of_le hi
    have hi₂ : i < q.length := Nat.lt_succ_of_le (hcount ▸ hi)
    rw [← hp.toInt_value hi₁, ← hq.toInt_value hi₂, Int64.toInt_inj]
    have hget := List.getElem_of_eq hvalues (by rwa [length_values])
    rwa [getElem_values, getElem_values] at hget
  have hstart := hvalue 0 (Nat.zero_le _)
  have hstep : p.step.toInt = q.step.toInt := by
    by_cases hone : p.count.toNat = 0
    · rw [hp.reduced.2.1.mp hone, hq.reduced.2.1.mp (hcount ▸ hone)]
    · have hsecond := hvalue 1 (Nat.one_le_iff_ne_zero.mpr hone)
      omega
  exact eq_iff.mpr ⟨Int64.toInt_inj.mp (by omega), hwidth, hcount, hstep⟩

/-- **Progressions are canonical.**  Two of them are equal if they have the same values and columns.  The
bounds of one and its step give it again, and taken the other way round they give its values in
reverse. -/
theorem canonical (hp : p.Bounded) (hq : q.Bounded) :
    (p = q ↔ p.width = q.width ∧ p.values = q.values) ∧
    between? p.start p.last p.step p.width = some p ∧
    ∃ r, between? p.last p.start p.step p.width = some r ∧ r.values = p.values.reverse := by
  obtain ⟨hcount, hzero, hmin⟩ := hp.reduced
  refine ⟨⟨?_, ?_⟩, between?_of_apart hcount hzero hmin rfl hp.toInt_last,
    ⟨_, hp.between?_reversed, hp.values_reversed⟩⟩
  · rintro rfl
    exact ⟨rfl, rfl⟩
  · rintro ⟨hwidth, hvalues⟩
    exact hp.eq_of_values_eq hq hwidth hvalues

/-- `1..8..2` and `7..1..-3`: both are what their own bounds give. -/
theorem canonical_steps :
    ∃ p q, between? 1 8 2 0 = some p ∧ between? 7 1 (-3) 0 = some q ∧
      (p = q ↔ p.width = q.width ∧ p.values = q.values) ∧
      between? p.start p.last p.step p.width = some p ∧
      ∃ r, between? p.last p.start p.step p.width = some r ∧ r.values = p.values.reverse := by
  have hp : between? 1 8 2 0 = some ⟨1, 3, 2, 0⟩ := by decide
  have hq : between? 7 1 (-3) 0 = some ⟨7, 2, -3, 0⟩ := by decide
  exact ⟨_, _, hp, hq, canonical ⟨_, _, _, _, hp⟩ ⟨_, _, _, _, hq⟩⟩

end Progression

end BraceExpansion
