/-!
# Options

How a pattern is read, and how its expansions are written.  The defaults read every pattern, keep
what is malformed as text, and write neither escapes nor quotes.
-/

namespace BraceExpansion

/-- How a pattern is read. -/
structure CompileOptions where
  /-- A backslash is an ordinary character. -/
  ignoreEscape : Bool := false
  /-- Quotes are ordinary characters. -/
  ignoreQuote : Bool := false
  /-- A range may run between any two characters, not only between letters of one case. -/
  anyCharRange : Bool := false
  /-- Malformed text, a final backslash and an open quote are errors, not text. -/
  strict : Bool := false
  deriving DecidableEq, Inhabited

/-- How expansions are written. -/
structure ExpandOptions where
  /-- The backslash of an escape is written before the character it protects. -/
  keepEscape : Bool := false
  /-- Quotes are written. -/
  keepQuote : Bool := false
  deriving DecidableEq, Inhabited

end BraceExpansion
