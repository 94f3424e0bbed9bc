import BraceExpansion.Text.Bytes

/-!
# UTF-8

Reading characters off bytes, and telling malformed bytes apart from text.

* `decodeChar?` — the character a byte sequence starts with, if it starts with a well-formed one.
* `elementWidth` — the length of the first *element*: one character, or one malformed byte.
* `malformedAt?` — where the first malformed byte stands.
* `lossy` — the text with every malformed part shown as U+FFFD.
* `encode` and `decode?` — between strings and bytes; `decode?` accepts exactly the encodings.

A malformed part is a *maximal subpart*: the longest start of a well-formed sequence, or one byte
if no well-formed sequence starts there.  One replacement character stands for each.
-/

namespace BraceExpansion.Utf8

/-! ## The shape of a sequence -/

/-- The length of the sequences that start with this byte, and `0` if none does. -/
def leadWidth (lead : UInt8) : Nat :=
  if lead ≤ 0x7F then 1
  else if lead < 0xC2 then 0
  else if lead ≤ 0xDF then 2
  else if lead ≤ 0xEF then 3
  else if lead ≤ 0xF4 then 4
  else 0

/-- A byte that continues a sequence. -/
def isTail (b : UInt8) : Bool := 0x80 ≤ b && b ≤ 0xBF

/-- Whether `b` may stand second after `lead`.  Four leads narrow the choice: this is what
excludes overlong forms, surrogates and values above U+10FFFF. -/
def isSecond (lead b : UInt8) : Bool :=
  if lead = 0xE0 then 0xA0 ≤ b && b ≤ 0xBF
  else if lead = 0xED then 0x80 ≤ b && b ≤ 0x9F
  else if lead = 0xF0 then 0x90 ≤ b && b ≤ 0xBF
  else if lead = 0xF4 then 0x80 ≤ b && b ≤ 0x8F
  else isTail b

/-- The six payload bits of a tail byte. -/
def payload (b : UInt8) : Nat := b.toNat - 0x80

/-! ## One character -/

/-- The character at the front, if a well-formed sequence stands there. -/
def decodeChar? : Bytes → Option Char
  | [] => none
  | a :: rest =>
    match leadWidth a, rest with
    | 1, _ => some (Char.ofNat a.toNat)
    | 2, b :: _ =>
      if isSecond a b then some (Char.ofNat ((a.toNat - 0xC0) * 64 + payload b)) else none
    | 3, b :: c :: _ =>
      if isSecond a b && isTail c then
        some (Char.ofNat (((a.toNat - 0xE0) * 64 + payload b) * 64 + payload c))
      else none
    | 4, b :: c :: d :: _ =>
      if isSecond a b && isTail c && isTail d then
        some (Char.ofNat ((((a.toNat - 0xF0) * 64 + payload b) * 64 + payload c) * 64 + payload d))
      else none
    | _, _ => none

/-- The length of the element at the front: a character's, or one for a malformed byte. -/
def elementWidth (bytes : Bytes) : Nat :=
  match decodeChar? bytes with
  | some c => c.utf8Size
  | none => 1

/-- The character that the whole text consists of, if it is exactly one. -/
def singleChar? (bytes : Bytes) : Option Char :=
  match decodeChar? bytes with
  | some c => if c.utf8Size = bytes.length then some c else none
  | none => none

/-! ## Malformed bytes -/

/-- `malformedAt?` with `skip` bytes left of a character already read, at position `offset`. -/
def malformedFrom (offset skip : Nat) : Bytes → Option Nat
  | [] => none
  | b :: rest =>
    match skip with
    | skip + 1 => malformedFrom (offset + 1) skip rest
    | 0 =>
      match decodeChar? (b :: rest) with
      | some c => malformedFrom (offset + 1) (c.utf8Size - 1) rest
      | none => some offset

/-- Position of the first byte that neither starts nor continues a character: the length of the
longest well-formed start of the text, unless all of it is well-formed. -/
def malformedAt? (bytes : Bytes) : Option Nat := malformedFrom 0 0 bytes

/-- Length of the maximal subpart at the front of a text that starts malformed. -/
def subpartLength : Bytes → Nat
  | a :: b :: c :: _ =>
    if 3 ≤ leadWidth a && isSecond a b then
      if leadWidth a = 4 && isTail c then 3 else 2
    else 1
  | a :: b :: _ => if 3 ≤ leadWidth a && isSecond a b then 2 else 1
  | _ => 1

/-! ## Whole texts -/

/-- `lossy` onto `shown`, with `skip` bytes left of a part that is already shown. -/
def lossyOnto (shown : String) (skip : Nat) : Bytes → String
  | [] => shown
  | b :: rest =>
    match skip with
    | skip + 1 => lossyOnto shown skip rest
    | 0 =>
      match decodeChar? (b :: rest) with
      | some c => lossyOnto (shown.push c) (c.utf8Size - 1) rest
      | none => lossyOnto (shown.push '\uFFFD') (subpartLength (b :: rest) - 1) rest

/-- The text as characters, each malformed part as one U+FFFD. -/
def lossy (bytes : Bytes) : String := lossyOnto "" 0 bytes

/-- The bytes of a string. -/
def encode (text : String) : Bytes := text.toUTF8.data.toList

/-- The string these bytes encode, if they encode one. -/
def decode? (bytes : Bytes) : Option String :=
  let text := lossy bytes
  if encode text = bytes then some text else none

end BraceExpansion.Utf8
