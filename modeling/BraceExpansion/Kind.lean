/-!
# Kinds

Everything a pattern is made of has one of thirteen kinds.  Eight occur in a finished tree, three
only while a brace is open, and two only in the stream of tokens.

`Kind` is the flat list.  Where only some kinds can occur, the smaller types say so: `LeafKind`,
`RangeKind` and `ListKind` are the nodes of a tree by what they carry, and `Mark` is a piece of
punctuation whose meaning is still open.  Each has a `kind` in the flat list.
-/

namespace BraceExpansion

/-- The kind of a token, of a node, or of a piece of open punctuation. -/
inductive Kind
  | empty
  | literal
  | escape
  | quote
  | integerRange
  | charRange
  | concat
  | alternate
  | braceOpen
  | braceDelimiter
  | braceRange
  | braceClose
  | eof
  deriving DecidableEq, Inhabited

namespace Kind

/-- The kinds in their order. -/
def all : List Kind :=
  [empty, literal, escape, quote, integerRange, charRange, concat, alternate,
    braceOpen, braceDelimiter, braceRange, braceClose, eof]

theorem mem_all (k : Kind) : k ∈ all := by cases k <;> decide

/-- The name a kind goes by in a dump. -/
def name : Kind → String
  | empty => "Empty"
  | literal => "Literal"
  | escape => "Escape"
  | quote => "Quote"
  | integerRange => "IntegerRange"
  | charRange => "CharRange"
  | concat => "Concat"
  | alternate => "Alternate"
  | braceOpen => "BraceOpen"
  | braceDelimiter => "BraceDelimiter"
  | braceRange => "BraceRange"
  | braceClose => "BraceClose"
  | eof => "Eof"

/-- Position in the order. -/
def index : Kind → Fin 13
  | empty => 0
  | literal => 1
  | escape => 2
  | quote => 3
  | integerRange => 4
  | charRange => 5
  | concat => 6
  | alternate => 7
  | braceOpen => 8
  | braceDelimiter => 9
  | braceRange => 10
  | braceClose => 11
  | eof => 12

end Kind

/-! ## The kinds a place admits -/

/-- A node that is text. -/
inductive LeafKind
  | empty
  | literal
  | escape
  | quote
  deriving DecidableEq, Inhabited

def LeafKind.kind : LeafKind → Kind
  | empty => .empty
  | literal => .literal
  | escape => .escape
  | quote => .quote

/-- A node that stands for the values of a progression, as numbers or as characters. -/
inductive RangeKind
  | integer
  | char
  deriving DecidableEq, Inhabited

def RangeKind.kind : RangeKind → Kind
  | integer => .integerRange
  | char => .charRange

/-- A node made of other nodes: all of them in sequence, or one of them at a time. -/
inductive ListKind
  | concat
  | alternate
  deriving DecidableEq, Inhabited

def ListKind.kind : ListKind → Kind
  | concat => .concat
  | alternate => .alternate

/-- Punctuation whose block is not closed yet, so that it may still turn out to be text. -/
inductive Mark
  | opening
  | delimiter
  | range
  deriving DecidableEq, Inhabited

def Mark.kind : Mark → Kind
  | opening => .braceOpen
  | delimiter => .braceDelimiter
  | range => .braceRange

end BraceExpansion
