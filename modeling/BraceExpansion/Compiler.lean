import BraceExpansion.Draft.WorkStack
import BraceExpansion.Token.Scanner
import BraceExpansion.Tree

/-!
# The compiler

From a pattern to its tree.

The compiler reads tokens from first to last and keeps the work stack and the blocks that are open.
A block is decided when it closes: with a comma it is an alternation, with one or two range
separators between suitable bounds it is a range, and otherwise it is text.  What is still open at
the end of the pattern is text too.

* `Compiler.step` — one token.
* `Compiler.finish` — the tree, once all tokens are read.
* `Compiler.compile` — a whole pattern.  The compiler that comes back can be used again, and it
  has no memory of the patterns before but for the slots it has made.
* `compile` — a pattern with a new compiler; `compilePacked`, if its bytes are packed.

Commas win over range separators: a comma makes the separators of its block text, and behind a
comma a separator is text at once.
-/

namespace BraceExpansion

/-! ## Open blocks -/

/-- A block that is open. -/
structure Block where
  /-- The position of its opening mark on the stack. -/
  base : Nat
  /-- How many range separators stand in it as marks. -/
  separators : Nat := 0
  /-- Whether it may still be a range: no separator has come at a wrong place. -/
  ranging : Bool := true
  /-- How many commas stand in it. -/
  delimiters : Nat := 0
  deriving DecidableEq

/-- Where a pattern has been read up to. -/
structure Compiler where
  options : CompileOptions
  work : WorkStack
  /-- The open blocks, the innermost first. -/
  blocks : List Block
  /-- The position of the quote that is open. -/
  openQuote : Option Nat

namespace Compiler

/-- A compiler that has read nothing. -/
def new (options : CompileOptions) : Compiler := ⟨options, .empty, [], none⟩

/-! ## Tokens -/

/-- Text that means itself. -/
def literal (c : Compiler) (text : Bytes) : Compiler :=
  { c with work := c.work.appendLiteral text }

/-- A draft of its own. -/
def push (c : Compiler) (d : Draft) : Compiler := { c with work := c.work.push d }

/-- A quote opens, or the open one closes. -/
def quote (c : Compiler) (text : Bytes) : Compiler :=
  let position := c.work.size
  let openQuote := match c.openQuote with
    | none => some position
    | some _ => none
  { c.push (.leaf .quote text.toArray) with openQuote := openQuote }

/-- An opening brace opens a block. -/
def openBlock (c : Compiler) (text : Bytes) : Compiler :=
  let block : Block := { base := c.work.size }
  { c.push (.mark .opening text.toArray) with blocks := block :: c.blocks }

/-- A comma ends an alternative of the innermost block. -/
def delimiter (c : Compiler) (text : Bytes) : Compiler :=
  match c with
  | ⟨options, work, [], openQuote⟩ => literal ⟨options, work, [], openQuote⟩ text
  | ⟨options, work, block :: outer, openQuote⟩ =>
    let demoted := decide (0 < block.separators)
    let work := if demoted then work.demote (block.base + 1) false else work
    let block := { block with
      separators := 0
      ranging := block.ranging || demoted
      delimiters := block.delimiters + 1 }
    ⟨options, work.joinSegment.push (.mark .delimiter text.toArray), block :: outer, openQuote⟩

/-- Whether a range separator can stand where the innermost block has `drafts` drafts: behind the
first bound, or behind the second. -/
def separates (drafts : Nat) : Bool := drafts == 2 || drafts == 4

/-- Two dots separate the bounds of the innermost block, if it may be a range. -/
def rangeSeparator (c : Compiler) (text : Bytes) : Compiler :=
  match c with
  | ⟨options, work, [], openQuote⟩ => literal ⟨options, work, [], openQuote⟩ text
  | ⟨options, work, block :: outer, openQuote⟩ =>
    if 0 < block.delimiters || !block.ranging || 2 ≤ block.separators then
      literal ⟨options, work, block :: outer, openQuote⟩ text
    else if separates (work.size - block.base) then
      let block := { block with separators := block.separators + 1 }
      ⟨options, work.push (.mark .range text.toArray), block :: outer, openQuote⟩
    else
      let block := { block with ranging := false }
      literal ⟨options, work, block :: outer, openQuote⟩ text

/-- What becomes of a block that closes. -/
def closed (options : CompileOptions) (work : WorkStack) (block : Block) (text : Bytes) :
    WorkStack :=
  if 0 < block.delimiters then work.joinSegment.gather .alternate block.base
  else
    match if block.ranging && 0 < block.separators then work.closeRange? options block.base
      else none with
    | some work => work
    | none => (work.demote block.base true).appendLiteral text

/-- A closing brace closes the innermost block. -/
def closeBlock (c : Compiler) (text : Bytes) : Compiler :=
  match c with
  | ⟨options, work, [], openQuote⟩ => literal ⟨options, work, [], openQuote⟩ text
  | ⟨options, work, block :: outer, openQuote⟩ =>
    ⟨options, closed options work block text, outer, openQuote⟩

/-- One token. -/
def step (c : Compiler) (t : Token) : Compiler :=
  match t.kind with
  | .literal => c.literal t.text
  | .escape => c.push (.leaf .escape t.text.toArray)
  | .quote => c.quote t.text
  | .opening => c.openBlock t.text
  | .delimiter => c.delimiter t.text
  | .range => c.rangeSeparator t.text
  | .closing => c.closeBlock t.text

/-! ## The end of the pattern -/

/-- The position of the first thing that is still open: the open quote, or the outermost block. -/
def firstOpen? (c : Compiler) : Option Nat :=
  match c.openQuote, c.blocks.getLast? with
  | some quote, some block => some (min quote block.base)
  | some quote, none => some quote
  | none, some block => some block.base
  | none, none => none

/-- The stack with everything that is still open as text. -/
def settled (c : Compiler) : WorkStack :=
  let start := c.firstOpen?
  let work := match c.openQuote with
    | some quote => { c.work with
        pool := c.work.pool.modify (c.work.items.getD quote 0) Draft.toLiteral }
    | none => c.work
  match start with
  | some start => work.demote start true
  | none => work

/-- The tree of the pattern that has been read, and a compiler for the next one. -/
def finish (c : Compiler) : Tree × Compiler :=
  let options := c.options
  let work := c.settled.join 0
  let (root, forest) := work.pool.plant .empty (work.items.getD 0 0)
  (forest.toTree root, ⟨options, work.clear, [], none⟩)

/-- A compiler at the start of a pattern. -/
def start (c : Compiler) : Compiler := ⟨c.options, c.work.clear, [], none⟩

/-- The tree of a pattern, and a compiler for the next one.  Only strict reading can fail, or a
pattern that is too long. -/
def compile (c : Compiler) (pattern : Bytes) : Except PatternError Tree × Compiler :=
  match Scanner.ofPattern c.options pattern with
  | .error e => (.error e, c.start)
  | .ok scanner =>
    match scanner.foldTokens step c.start with
    | (c, some e) => (.error e, c)
    | (c, none) =>
      let (tree, c) := c.finish
      (.ok tree, c)

end Compiler

/-- The tree of a pattern. -/
def compile (options : CompileOptions) (pattern : Bytes) : Except PatternError Tree :=
  ((Compiler.new options).compile pattern).1

theorem compile_tooLong {options : CompileOptions} {pattern : Bytes}
    (hlong : maxPatternLength < pattern.length) :
    compile options pattern = .error (.tooLong pattern.length) := by
  have hscanner : Scanner.ofPattern (Compiler.new options).options pattern
      = .error (.tooLong pattern.length) := if_pos hlong
  rw [compile, Compiler.compile, hscanner]

/-- The tree of a pattern whose bytes are packed.  One that is too long is never unpacked. -/
def compilePacked (options : CompileOptions) (pattern : ByteArray) : Except PatternError Tree :=
  if maxPatternLength < pattern.size then .error (.tooLong pattern.size)
  else compile options pattern.data.toList

/-- Packed bytes have the tree of the bytes. -/
theorem compilePacked_eq (options : CompileOptions) (pattern : ByteArray) :
    compilePacked options pattern = compile options pattern.data.toList := by
  rw [compilePacked]
  split
  next hlong => exact (compile_tooLong hlong).symm
  next => rfl

end BraceExpansion
