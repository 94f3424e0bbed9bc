import BraceExpansion.Forest.Outline
import BraceExpansion.Proofs.Progression.Canonical
import BraceExpansion.Proofs.Progression.Endpoints
import BraceExpansion.Proofs.Reading.Proper

/-!
# Zeros that do not show

A range fills its values up with zeros if one of its bounds is written with zeros.  `200..099..60` does
so to three columns, but the values are 200 and 140, and nobody would see it.  Can it show in the
middle of a range, when it does not show at its ends?

**Columns.**  `Decimal.columns` are those of a number without zeros in front.  Of three numbers in order,
the one in the middle never has the most (`Decimal.columns_le_max`), and a bound that is written with
zeros has fewer than it is written in (`Bounds.Padded.columns_lt`).

**Ranges.**  So zeros that are asked for by the first bound show there, and if those asked for by the
other do not show at the last value, they show nowhere (**`Progression.width_le_columns`**).
`Progression.terms_eq_of_ends` finds the values from the ends and the step, and
**`Progression.texts_eq_of_ends`** puts both together.
-/

namespace BraceExpansion

/-! ## Columns -/

namespace Decimal

variable {m n : Nat} {text : Bytes} {a b z : Int} {width : Nat}

/-- The columns of a number that is written as short as possible. -/
def columns (z : Int) : Nat := (if z < 0 then 1 else 0) + (digits z.natAbs).length

lemma length_digits_mono (h : m ≤ n) : (digits m).length ≤ (digits n).length := by
  have hspells := digits_spells n
  have hpos := List.length_pos_iff.mpr hspells.ne_nil
  rw [digits, List.length_map]
  exact Nat.toDigits_length 10 m _ hpos (Nat.lt_of_le_of_lt h hspells.lt_pow)

lemma length_padded_columns (value : Int64) (width : Nat) :
    (padded value width).length = max width (columns value.toInt) := by
  have hsign : (sign value).length = if value.toInt < 0 then 1 else 0 := by
    rw [sign, apply_ite List.length]
    simp only [lt_zero_iff]
    rfl
  rw [length_padded, hsign, columns]

/-- **A number between two others is not the widest.** -/
lemma columns_le_max (ha : a ≤ z) (hb : z ≤ b) : columns z ≤ max (columns a) (columns b) := by
  rcases lt_or_ge z 0 with hneg | hpos
  · have hdigits := length_digits_mono (m := z.natAbs) (n := a.natAbs) (by omega)
    refine le_max_of_le_left ?_
    rw [columns, columns, if_pos hneg, if_pos (by omega)]
    exact Nat.add_le_add_left hdigits 1
  · have hdigits := length_digits_mono (m := z.natAbs) (n := b.natAbs) (by omega)
    refine le_max_of_le_right ?_
    rw [columns, columns, if_neg (by omega), if_neg (by omega)]
    exact Nat.add_le_add_left hdigits 0

/-- A zero in front is worth nothing. -/
lemma Spells.of_zero_cons (h : Spells (Ascii.zero :: text) n) (hne : text ≠ []) : Spells text n where
  ne_nil := hne
  isDigit := (List.forall_mem_cons.mp h.isDigit).2
  value := by
    have hvalue := h.value
    rwa [positional_cons, show Ascii.zero.toNat - 0x30 = 0 from rfl, Nat.zero_mul,
      Nat.zero_add] at hvalue

end Decimal

open Decimal

/-- **A number that is written with zeros would do with fewer columns.** -/
lemma Bounds.Padded.columns_lt {text : Bytes} {z : Int} (h : Padded text) (hz : Numeral text z) :
    columns z < text.length := by
  cases hz with
  | @plain text n hspells =>
      obtain ⟨b, rest, rfl⟩ | ⟨rest, rfl⟩ := h
      · have hlength := (hspells.of_zero_cons (List.cons_ne_nil b rest)).length_digits_le
        rw [columns, if_neg (by omega), Int.natAbs_natCast, Nat.zero_add]
        exact Nat.lt_succ_of_le hlength
      · exact absurd (hspells.isDigit _ List.mem_cons_self) (by decide)
  | @plus text n hspells =>
      obtain ⟨b, rest, h⟩ | ⟨rest, h⟩ := h
      · cases h
      · cases h
  | @minus text n hspells =>
      obtain ⟨b, rest, h⟩ | ⟨rest, h⟩ := h
      · cases h
      · obtain ⟨-, rfl⟩ := List.cons.inj h
        cases rest with
        | nil =>
            obtain rfl : n = 0 := hspells.value.symm
            decide
        | cons b rest =>
            have hlength := (hspells.of_zero_cons (List.cons_ne_nil b rest)).length_digits_le
            have hsign : (if -(n : Int) < 0 then 1 else 0) ≤ 1 := by
              split
              · exact Nat.le_refl 1
              · exact Nat.zero_le 1
            rw [columns, Int.natAbs_neg, Int.natAbs_natCast]
            exact Nat.lt_of_le_of_lt (Nat.add_le_add hsign hlength) (by simp; omega)

/-- Zeros do not show at a number that has as many columns without. -/
lemma RangeKind.text_of_le_columns {width : Nat} {z : Int} (h : width ≤ columns z) :
    integer.text width z = integer.text 0 z := by
  rw [columns] at h
  simp only [text]
  split
  next hneg =>
    rw [if_pos hneg] at h
    rw [show width - 1 - (digits z.natAbs).length = 0 by omega]
    simp
  next hpos =>
    rw [if_neg hpos, Nat.zero_add] at h
    rw [Nat.sub_eq_zero_of_le h, Nat.zero_sub]

/-! ## Steps -/

namespace Decimal

/-- An integer as a string. -/
lemma toList_toString (z : Int) :
    (toString z).toList = (if z < 0 then ['-'] else []) ++ Nat.toDigits 10 z.natAbs := by
  cases z with
  | ofNat n =>
      rw [Int.ofNat_eq_natCast, if_neg (Int.not_lt.mpr (Int.natCast_nonneg n))]
      exact String.toList_ofList
  | negSucc n =>
      rw [if_pos (Int.negSucc_lt_zero n)]
      exact String.toList_append.trans (congrArg ('-' :: ·) String.toList_ofList)

lemma toDigits_inj {m n : Nat} (h : Nat.toDigits 10 m = Nat.toDigits 10 n) : m = n := by
  have hvalue := congrArg (Nat.ofDigitChars 10 · 0) h
  simpa only [Nat.ofDigitChars_ten_toDigits] using hvalue

lemma isDigit_of_mem_toDigits {n : Nat} {c : Char} (h : c ∈ Nat.toDigits 10 n) : c.isDigit = true :=
  Nat.isDigit_of_mem_toDigits (by decide) (by decide) h

/-- **Integers are told from their strings.** -/
lemma toString_inj {a b : Int} (h : toString a = toString b) : a = b := by
  have hsign : ∀ {n : Nat} {more : List Char}, '-' :: more ≠ Nat.toDigits 10 n := by
    intro n more heq
    have hdigit := isDigit_of_mem_toDigits (heq ▸ List.mem_cons_self)
    exact absurd hdigit (by decide)
  have hlist := congrArg String.toList h
  rw [toList_toString, toList_toString] at hlist
  split at hlist
  next ha =>
    split at hlist
    next hb =>
      have hvalue := toDigits_inj (List.cons.inj hlist).2
      omega
    next hb => exact absurd hlist hsign
  next ha =>
    split at hlist
    next hb => exact absurd hlist.symm hsign
    next hb =>
      have hvalue := toDigits_inj hlist
      omega

end Decimal

/-! ## Ranges -/

namespace Progression

variable {options options' : CompileOptions} {first last first' last' : Bytes} {step step' : Int64}
  {p q : Progression}

/-- **Zeros that do not show at the ends of a range show nowhere.** -/
theorem width_le_columns (h : ofTexts? options first last step = some (.integer, p))
    (hstart : p.width ≤ columns p.start.toInt) (hlast : p.width ≤ columns p.last.toInt) :
    ∀ z ∈ p.terms, p.width ≤ columns z := by
  obtain ⟨start, stop, width, hfirst, hstop, hcolumns, hp⟩ := ofTexts?_integer_iff.mp h
  obtain ⟨hpstart, rfl, hup, hdown⟩ := between?_bounds hp
  have hbounded : p.Bounded := ⟨start, stop, step, _, hp⟩
  rcases hcolumns with ⟨-, -, hzero⟩ | ⟨⟨text, htext, hpadded, hwidth⟩, -⟩
  · intro z _
    rw [hzero]
    exact Nat.zero_le _
  rcases htext with rfl | rfl
  · have hfewer := hpadded.columns_lt hfirst
    rw [hpstart] at hstart
    omega
  · have hfewer := hpadded.columns_lt hstop
    rw [hbounded.toInt_last, hpstart] at hlast
    intro z hz
    obtain ⟨i, hi, rfl⟩ := List.mem_map.mp hz
    have hle : (i : Int) ≤ p.count.toNat := by
      rw [List.mem_range, length] at hi
      omega
    rw [hpstart]
    -- the last value lies between this one and the bound
    rcases Int.le_total start.toInt stop.toInt with hdir | hdir
    · obtain ⟨hstep, hreach⟩ := hup hdir
      have hmore := Int.mul_le_mul_of_nonneg_right hle hstep
      have hmiddle := columns_le_max (Int.add_le_add_left hmore start.toInt) hreach
      omega
    · obtain ⟨hstep, hreach⟩ := hdown hdir
      have hmore := Int.mul_le_mul_of_nonpos_right hle hstep
      have hmiddle := columns_le_max hreach (Int.add_le_add_left hmore start.toInt)
      omega

/-- The step, as far as it is shown. -/
lemma step_of_stepLabel (h : p.stepLabel = q.stepLabel) : p.step.toInt = q.step.toInt ∨
    p.step.toInt.natAbs ≤ 1 ∧ q.step.toInt.natAbs ≤ 1 := by
  have hne : ∀ text : String, ".." ++ text ≠ "" := by
    intro text htext
    simpa using congrArg String.toList htext
  rw [stepLabel, stepLabel] at h
  split at h
  next hp =>
    split at h
    next hq =>
      have htext : toString p.step.toInt = toString q.step.toInt := by
        simpa [← String.toList_inj] using h
      exact Or.inl (toString_inj htext)
    next hq => exact absurd h (hne _)
  next hp =>
    split at h
    next hq => exact absurd h.symm (hne _)
    next hq => exact Or.inr ⟨Nat.le_of_not_lt hp, Nat.le_of_not_lt hq⟩

/-- **The ends of a progression, and its step if that is shown, determine its values.** -/
lemma Bounded.eq_of_ends (hp : p.Bounded) (hq : q.Bounded) (hstart : p.start = q.start)
    (hlast : p.last = q.last) (hstep : p.stepLabel = q.stepLabel) :
    p.count.toNat = q.count.toNat ∧ p.step.toInt = q.step.toInt := by
  obtain ⟨-, hzero, -⟩ := hp.reduced
  obtain ⟨-, hzero', -⟩ := hq.reduced
  have hdistance : (p.count.toNat : Int) * p.step.toInt = q.count.toNat * q.step.toInt := by
    have htotal := congrArg Int64.toInt hlast
    rw [hp.toInt_last, hq.toInt_last, hstart] at htotal
    omega
  have hsteps : p.step.toInt = q.step.toInt := by
    rcases step_of_stepLabel hstep with heq | ⟨hsmall, hsmall'⟩
    · exact heq
    · obtain hone | hone | hone : p.step.toInt = -1 ∨ p.step.toInt = 0 ∨ p.step.toInt = 1 := by omega
      all_goals
        obtain hone' | hone' | hone' : q.step.toInt = -1 ∨ q.step.toInt = 0 ∨ q.step.toInt = 1 := by
          omega
        all_goals rw [hone, hone'] at hdistance; omega
  refine ⟨?_, hsteps⟩
  by_cases hnone : p.step.toInt = 0
  · rw [hzero.mpr hnone, hzero'.mpr (hsteps ▸ hnone)]
  · rw [← hsteps] at hdistance
    exact_mod_cast Int.eq_of_mul_eq_mul_right hnone hdistance

lemma Bounded.terms_eq_of_ends (hp : p.Bounded) (hq : q.Bounded) (hstart : p.start = q.start)
    (hlast : p.last = q.last) (hstep : p.stepLabel = q.stepLabel) : p.terms = q.terms := by
  obtain ⟨hcount, hsteps⟩ := hp.eq_of_ends hq hstart hlast hstep
  rw [terms, terms, length, length, hcount, hsteps, hstart]

/-- Fewer columns give the same texts, if the others show at neither end. -/
lemma texts_eq_of_width_lt (hq : ofTexts? options first last step = some (.integer, q))
    (hterms : p.terms = q.terms) (hlt : p.width < q.width)
    (hstart : max p.width (columns q.start.toInt) = max q.width (columns q.start.toInt))
    (hlast : max p.width (columns q.last.toInt) = max q.width (columns q.last.toInt)) :
    p.terms.map (RangeKind.integer.text p.width) = q.terms.map (RangeKind.integer.text q.width) := by
  have hall := width_le_columns hq (by omega) (by omega)
  rw [hterms]
  refine List.map_congr_left fun z hz => ?_
  have hz := hall z hz
  rw [RangeKind.text_of_le_columns hz, RangeKind.text_of_le_columns (hlt.le.trans hz)]

/-- **A range of integers is known from its ends as they are written**, and from its step if that is
shown. -/
theorem texts_eq_of_ends (hp : ofTexts? options first last step = some (.integer, p))
    (hq : ofTexts? options' first' last' step' = some (.integer, q))
    (hstart : padded p.start p.width = padded q.start q.width)
    (hlast : padded p.last p.width = padded q.last q.width) (hstep : p.stepLabel = q.stepLabel) :
    p.terms.map (RangeKind.integer.text p.width) = q.terms.map (RangeKind.integer.text q.width) := by
  have hread : ∀ {v v' : Int64} {width width' : Nat}, padded v width = padded v' width' → v = v' := by
    intro v v' width width' h
    have hv := congrArg read? h
    rwa [read?_padded, read?_padded, Option.some.injEq] at hv
  have hstarts := hread hstart
  have hlasts := hread hlast
  have hterms := (bounded_of_ofTexts? hp).terms_eq_of_ends (bounded_of_ofTexts? hq) hstarts hlasts hstep
  have hcolumns := congrArg List.length hstart
  have hcolumns' := congrArg List.length hlast
  rw [length_padded_columns, length_padded_columns] at hcolumns hcolumns'
  rw [hstarts] at hcolumns
  rw [hlasts] at hcolumns'
  rcases Nat.lt_trichotomy p.width q.width with hlt | heq | hgt
  · exact texts_eq_of_width_lt hq hterms hlt hcolumns hcolumns'
  · rw [hterms, heq]
  · rw [← hstarts] at hcolumns
    rw [← hlasts] at hcolumns'
    exact (texts_eq_of_width_lt hp hterms.symm hgt hcolumns.symm hcolumns'.symm).symm

end Progression

end BraceExpansion
