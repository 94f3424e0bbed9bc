import BraceExpansion.Text.Bytes

/-!
# Decimal integers

Writing and reading 64-bit integers in decimal.

* `padded` — the decimal of a value, filled with zeros up to a width.  The sign counts as one
  column, so `-1` at width 3 is `-01`.
* `appendPadded` — the same, written onto a buffer.
* `read?` — an optional sign and one or more digits, whose value fits 64 bits.

Reading accepts more than writing produces: a plus sign, any number of leading zeros, and a
negative zero.
-/

namespace BraceExpansion.Decimal

/-! ## Writing -/

/-- The shortest decimal of a natural number. -/
def digits (n : Nat) : Bytes := (Nat.toDigits 10 n).map fun c => UInt8.ofNat c.toNat

/-- The decimal of `value`, with zeros after the sign up to `width` columns. -/
def padded (value : Int64) (width : Nat) : Bytes :=
  let magnitude := digits value.toInt.natAbs
  if value < 0 then
    Ascii.minus :: (List.replicate (width - 1 - magnitude.length) Ascii.zero ++ magnitude)
  else
    List.replicate (width - magnitude.length) Ascii.zero ++ magnitude

/-- `padded`, written at the end of a buffer. -/
def appendPadded (buffer : Buffer) (value : Int64) (width : Nat) : Buffer :=
  buffer ++ padded value width

/-- The value of one digit. -/
def digitValue? (b : UInt8) : Option Nat :=
  if Ascii.isDigit b then some (b.toNat - 0x30) else none

/-- The value of a non-empty sequence of digits. -/
def readNat? (bytes : Bytes) : Option Nat :=
  if bytes.isEmpty then none
  else bytes.foldlM (fun value b => (digitValue? b).map (10 * value + ·)) 0

/-- The 64-bit integer of this value, if there is one. -/
def ofInt? (value : Int) : Option Int64 :=
  if -0x8000000000000000 ≤ value ∧ value < 0x8000000000000000 then some (Int64.ofInt value)
  else none

/-- The value of an optionally signed decimal that fits 64 bits. -/
def read? : Bytes → Option Int64
  | Ascii.minus :: rest => (readNat? rest).bind fun n => ofInt? (-n)
  | Ascii.plus :: rest => (readNat? rest).bind fun n => ofInt? n
  | bytes => (readNat? bytes).bind fun n => ofInt? n

end BraceExpansion.Decimal
