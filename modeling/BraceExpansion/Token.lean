import BraceExpansion.Kind
import BraceExpansion.Text.Bytes

/-!
# Tokens

A token is a piece of a pattern together with what it is and where it starts.  Tokens carry their
own text, so that the tokens of a pattern, joined in order, are the pattern.
-/

namespace BraceExpansion

/-- What a token is. -/
inductive TokenKind
  | literal
  | escape
  | quote
  | opening
  | delimiter
  | range
  | closing
  deriving DecidableEq, Inhabited

def TokenKind.kind : TokenKind → Kind
  | literal => .literal
  | escape => .escape
  | quote => .quote
  | opening => .braceOpen
  | delimiter => .braceDelimiter
  | range => .braceRange
  | closing => .braceClose

/-- A piece of a pattern. -/
structure Token where
  kind : TokenKind
  /-- Offset of the first byte. -/
  start : Nat
  text : Bytes
  deriving DecidableEq, Inhabited

/-- Offset after the last byte. -/
def Token.stop (t : Token) : Nat := t.start + t.text.length

end BraceExpansion
