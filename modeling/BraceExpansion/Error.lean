/-!
# Errors

A pattern is never wrong about its braces: what does not resolve is text.  Reading fails only on
text that is no text, and only in strict mode — or when a pattern is too long for its offsets.

`PatternError` lists the four causes.  Each has a message, the offset where the problem starts, and
a label to stand beside that place.
-/

namespace BraceExpansion

/-- The longest pattern, and the largest offset. -/
def maxPatternLength : Nat := 4294967295

/-- Why a pattern cannot be read. -/
inductive PatternError
  /-- The bytes at `offset` are not UTF-8. -/
  | invalidEncoding (offset : Nat)
  /-- The backslash at `offset` ends the pattern. -/
  | trailingEscape (offset : Nat)
  /-- The quote opened at `offset` is never closed. -/
  | unterminatedQuote (offset : Nat) (quote : Char)
  /-- A pattern of `length` bytes. -/
  | tooLong (length : Nat)
  deriving DecidableEq

namespace PatternError

/-- What happened, in one line. -/
def message : PatternError → String
  | invalidEncoding offset => "invalid UTF-8 sequence at offset " ++ toString offset
  | trailingEscape offset => "trailing escape character at offset " ++ toString offset
  | unterminatedQuote offset quote =>
    "missing closing quote character for `" ++ quote.toString ++ "` opened at offset "
      ++ toString offset
  | tooLong length =>
    "pattern of " ++ toString length ++ " bytes does not fit in 32-bit offsets"

/-- Where the problem starts.  Past the largest offset there is nothing to point at, so a pattern
that is too long points there. -/
def offset : PatternError → Nat
  | invalidEncoding offset => offset
  | trailingEscape offset => offset
  | unterminatedQuote offset _ => offset
  | tooLong _ => maxPatternLength

/-- What to say beside the place. -/
def label : PatternError → String
  | invalidEncoding _ => "not valid UTF-8"
  | trailingEscape _ => "nothing to escape"
  | unterminatedQuote _ _ => "quote opened here"
  | tooLong _ => "pattern ends past this point"

end PatternError

end BraceExpansion
