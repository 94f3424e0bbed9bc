/-!
# Progressions

The values a range stands for: `start`, `start + step`, … , in 64-bit arithmetic.

* `between?` — the progression from `start` towards `stop`.  The sign of the step is ignored and a
  step of zero counts as one, so the direction always leads to `stop`.  It fails when the
  magnitude of the step or the number of values after the first is out of range.
* `value` — the value at a position.
* `last` — the value at the last position, in one multiplication.

A progression made by `between?` never leaves the interval between its bounds, so the arithmetic
of `value` and `last` does not wrap.  The type also admits progressions that do wrap.
-/

namespace BraceExpansion

/-- The values `start`, `start + step`, … , of which `count` follow the first. -/
structure Progression where
  start : Int64
  /-- How many values follow the first. -/
  count : UInt64
  /-- The distance from each value to the next. -/
  step : Int64
  /-- The columns that a written value is filled up to with zeros. -/
  width : Nat
  deriving DecidableEq

namespace Progression

instance : Inhabited Progression := ⟨⟨0, 0, 0, 0⟩⟩

/-! ## Making one -/

/-- The step that leads from `start` towards `stop` in strides of `stride`. -/
def directed (start stop : Int64) (stride : Nat) : Int64 :=
  if start < stop then Int64.ofNat stride else -Int64.ofNat stride

/-- The progression from `start` towards `stop`.  Its last value is the last that does not pass
`stop`. -/
def between? (start stop step : Int64) (width : Nat) : Option Progression :=
  if start = stop then some ⟨start, 0, 0, width⟩
  else if 0x8000000000000000 ≤ step.toInt.natAbs then none
  else
    let stride := max 1 step.toInt.natAbs
    let count := (stop.toInt - start.toInt).natAbs / stride
    if 0x7FFFFFFFFFFFFFFF ≤ count then none
    else if count = 0 then some ⟨start, 0, 0, width⟩
    else some ⟨start, UInt64.ofNat count, directed start stop stride, width⟩

/-! ## Its values -/

/-- How many values there are. -/
def length (p : Progression) : Nat := p.count.toNat + 1

/-- The value at position `i`, counted from zero. -/
def value (p : Progression) (i : Nat) : Int64 := p.start + Int64.ofNat i * p.step

/-- The first `n` values, or all of them if there are fewer. -/
def firstValues (p : Progression) (n : Nat) : List Int64 :=
  (List.range (min n p.length)).map p.value

/-- All values. -/
def values (p : Progression) : List Int64 := p.firstValues p.length

/-- The value at the last position. -/
def last (p : Progression) : Int64 := p.start + p.count.toInt64 * p.step

/-- The character with this number, or U+FFFD if no character has it. -/
def character (value : Int64) : Char :=
  if 0 ≤ value.toInt ∧ value.toInt.toNat.isValidChar then Char.ofNat value.toInt.toNat
  else '\uFFFD'

end Progression

end BraceExpansion
