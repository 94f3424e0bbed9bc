import BraceExpansion.Kind
import BraceExpansion.Options
import BraceExpansion.Progression
import BraceExpansion.Text.Decimal
import BraceExpansion.Text.Utf8

/-!
# Endpoints

What the two texts on either side of `..` stand for.

* Two integers bound an integer range.  If one of them is written with leading zeros, the values
  are filled up to the length of the longest such bound.
* Two letters of one case bound a character range; with `anyCharRange` any two characters do.
* Everything else bounds nothing.

Integers come first: with `anyCharRange` two digits still count as numbers.  Two texts of one byte,
the most frequent case, are told apart by their bytes alone.
-/

namespace BraceExpansion

/-- The bounds of a range before they are known to give a progression. -/
structure Bounds where
  kind : RangeKind
  start : Int64
  stop : Int64
  width : Nat
  deriving DecidableEq

namespace Bounds

/-- Whether an integer is written with zeros that a shorter form would not have. -/
def isPadded : Bytes → Bool
  | Ascii.zero :: _ :: _ => true
  | Ascii.minus :: Ascii.zero :: _ => true
  | _ => false

/-- The length of an integer that is written with leading zeros. -/
def paddedWidth (text : Bytes) : Nat := if isPadded text then text.length else 0

def isSameCase (a b : UInt8) : Bool :=
  (Ascii.isUpper a && Ascii.isUpper b) || (Ascii.isLower a && Ascii.isLower b)

/-- Two texts of one byte each. -/
def ofSingleBytes? (anyChar : Bool) : Bytes → Bytes → Option Bounds
  | [a], [b] =>
    if Ascii.isDigit a && Ascii.isDigit b then
      some ⟨.integer, Int64.ofNat (a.toNat - 0x30), Int64.ofNat (b.toNat - 0x30), 0⟩
    else if isSameCase a b || (anyChar && a < 0x80 && b < 0x80) then
      some ⟨.char, Int64.ofNat a.toNat, Int64.ofNat b.toNat, 0⟩
    else none
  | _, _ => none

/-- Two integers. -/
def ofIntegers? (first last : Bytes) : Option Bounds := do
  let start ← Decimal.read? first
  let stop ← Decimal.read? last
  return ⟨.integer, start, stop, max (paddedWidth first) (paddedWidth last)⟩

/-- Two texts of one character each. -/
def ofCharacters? (first last : Bytes) : Option Bounds := do
  let start ← Utf8.singleChar? first
  let stop ← Utf8.singleChar? last
  return ⟨.char, Int64.ofNat start.toNat, Int64.ofNat stop.toNat, 0⟩

/-- What the two texts stand for. -/
def ofTexts? (anyChar : Bool) (first last : Bytes) : Option Bounds :=
  (ofSingleBytes? anyChar first last).or <|
    (ofIntegers? first last).or <|
      if anyChar then ofCharacters? first last else none

end Bounds

/-- The range from one text to another, if they bound one. -/
def Progression.ofTexts? (options : CompileOptions) (first last : Bytes) (step : Int64) :
    Option (RangeKind × Progression) := do
  let bounds ← Bounds.ofTexts? options.anyCharRange first last
  let progression ← Progression.between? bounds.start bounds.stop step bounds.width
  return (bounds.kind, progression)

end BraceExpansion
