/-!
# Bytes

Patterns are sequences of bytes, not of characters: a pattern need not be well-formed UTF-8, and
offsets into it count bytes.  This file fixes the two representations the library uses.

* `Bytes` — an immutable text: the source of a token, the value of a node, one expansion.
* `Buffer` — a text under construction, appended to in place.

`Ascii` names the bytes that have a meaning of their own in a pattern.
-/

namespace BraceExpansion

/-- An immutable text. -/
abbrev Bytes := List UInt8

/-- A text that is still being written. -/
abbrev Buffer := Array UInt8

/-! ## The bytes a pattern gives a meaning to -/

namespace Ascii

/-- An opening brace. -/
@[match_pattern] abbrev openBrace : UInt8 := 0x7B

/-- A closing brace. -/
@[match_pattern] abbrev closeBrace : UInt8 := 0x7D

@[match_pattern] abbrev comma : UInt8 := 0x2C

@[match_pattern] abbrev dot : UInt8 := 0x2E

@[match_pattern] abbrev backslash : UInt8 := 0x5C

@[match_pattern] abbrev doubleQuote : UInt8 := 0x22

@[match_pattern] abbrev singleQuote : UInt8 := 0x27

/-- The grave accent, which quotes like the other two. -/
@[match_pattern] abbrev backQuote : UInt8 := 0x60

@[match_pattern] abbrev plus : UInt8 := 0x2B

@[match_pattern] abbrev minus : UInt8 := 0x2D

@[match_pattern] abbrev zero : UInt8 := 0x30

@[match_pattern] abbrev lineFeed : UInt8 := 0x0A

/-- A decimal digit. -/
def isDigit (b : UInt8) : Bool := 0x30 ≤ b && b ≤ 0x39

def isUpper (b : UInt8) : Bool := 0x41 ≤ b && b ≤ 0x5A

def isLower (b : UInt8) : Bool := 0x61 ≤ b && b ≤ 0x7A

/-- One of the three quote bytes. -/
def isQuote (b : UInt8) : Bool := b == doubleQuote || b == singleQuote || b == backQuote

end Ascii

end BraceExpansion
