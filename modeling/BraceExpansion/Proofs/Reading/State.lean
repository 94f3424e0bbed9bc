import BraceExpansion.Compiler
import BraceExpansion.Proofs.Token.Stream
import BraceExpansion.Proofs.Reading.Row

/-!
# The compiler without its stack

A `Reading` is what a compiler has read, sorted by the blocks that are open: rows of shapes, and no
slots, positions or marks.  It takes tokens as the compiler does.

* `Level` — an open block.  Its finished alternatives and the bounds of a range are rows of their
  own, each with the punctuation that ended it.
* `Level.comma`, `Level.separate`, `Level.close` — what punctuation does to the innermost block.
* `Reading.step` — one token.
* `Reading.row` — everything that has been read, with what is still open as text.

What is inside a quote is kept apart until the quote closes.

`Level.pieces` and `Reading.pieces` say how this looks on a stack, with the last piece first.
-/

namespace BraceExpansion

/-- An open block. -/
structure Level where
  /-- The text of its opening brace. -/
  opening : Bytes
  /-- The alternatives that are finished, the last one first, each with its comma. -/
  alternatives : List (List Shape × Bytes) := []
  /-- What stands before each range separator, the last one first. -/
  bounds : List (List Shape × Bytes) := []
  /-- What stands behind all of these. -/
  current : List Shape := []
  /-- Whether it may still be a range. -/
  ranging : Bool := true

namespace Level

/-- Everything since the last comma, with range separators as text. -/
def segment (l : Level) : List Shape :=
  (l.bounds.reverse.flatMap fun b => b.1 ++ [.text b.2]) ++ l.current

/-- Everything, with all punctuation as text. -/
def row (l : Level) : List Shape :=
  .text l.opening ::
    (l.alternatives.reverse.flatMap fun a => [Shape.joined (fuse a.1), .text a.2]) ++ l.segment

/-! ## Its pieces -/

def boundPieces (l : Level) : List Piece :=
  l.bounds.flatMap fun b => .mark .range b.2 :: (fuse b.1).map .shape

def alternativePieces (l : Level) : List Piece :=
  l.alternatives.flatMap fun a => [.mark .delimiter a.2, .shape (Shape.joined (fuse a.1))]

/-- The pieces before the last row. -/
def past (l : Level) : List Piece :=
  l.boundPieces ++ (l.alternativePieces ++ [.mark .opening l.opening])

def pieces (l : Level) : List Piece := (fuse l.current).map .shape ++ l.past

/-! ## What tokens do -/

/-- More shapes. -/
def add (l : Level) (row : List Shape) : Level := { l with current := l.current ++ row }

/-- A comma ends an alternative. -/
def comma (l : Level) (text : Bytes) : Level :=
  { l with
    alternatives := (l.segment, text) :: l.alternatives
    bounds := []
    current := []
    ranging := l.ranging || !l.bounds.isEmpty }

/-- Two dots separate bounds, or are text. -/
def separate (l : Level) (text : Bytes) : Level :=
  if !l.alternatives.isEmpty || !l.ranging || 2 ≤ l.bounds.length then l.add [.text text]
  else if Compiler.separates l.pieces.length then
    { l with bounds := (l.current, text) :: l.bounds, current := [] }
  else { l with ranging := false }.add [.text text]

/-- The block as an alternation. -/
def choice (l : Level) : Shape :=
  Shape.gathered .alternate
    (Shape.joined (fuse l.current) :: l.alternatives.map fun a => Shape.joined (fuse a.1))

/-- The block as a range. -/
def range? (options : CompileOptions) (l : Level) : Option (RangeKind × Progression) :=
  if l.ranging && !l.bounds.isEmpty then
    Piece.readRange? options ((fuse l.current).map Piece.shape ++ l.boundPieces).reverse
  else none

/-- What becomes of the block when it closes. -/
def close (options : CompileOptions) (l : Level) (closing : Bytes) : List Shape :=
  if l.alternatives.isEmpty then
    match l.range? options with
    | some (kind, p) => [.range kind p]
    | none => l.row ++ [.text closing]
  else [l.choice]

end Level

/-- A pattern up to some token. -/
structure Reading where
  /-- What stands outside all open blocks. -/
  ground : List Shape := []
  /-- The open blocks, the innermost first. -/
  levels : List Level := []
  /-- The open quote, and what stands inside it. -/
  quote : Option (Bytes × List Shape) := none

namespace Reading

/-! ## Its pieces -/

/-- The pieces of some levels and of what stands outside them. -/
def levelPieces (ground : List Shape) (levels : List Level) : List Piece :=
  levels.flatMap Level.pieces ++ (fuse ground).map .shape

def pieces (r : Reading) : List Piece :=
  match r.quote with
  | none => levelPieces r.ground r.levels
  | some (text, inside) =>
    (fuse inside).map .shape ++ .shape (.leaf .quote text) :: levelPieces r.ground r.levels

/-- The blocks of some levels. -/
def blocks (ground : List Shape) : List Level → List Block
  | [] => []
  | l :: outer =>
    { base := (levelPieces ground outer).length
      separators := l.bounds.length
      ranging := l.ranging
      delimiters := l.alternatives.length } :: blocks ground outer

/-- The position of the open quote. -/
def quotePosition (r : Reading) : Option Nat :=
  r.quote.map fun _ => (levelPieces r.ground r.levels).length

/-! ## What tokens do -/

/-- More shapes where the pattern has been read up to. -/
def add (r : Reading) (row : List Shape) : Reading :=
  match r with
  | ⟨ground, levels, some (text, inside)⟩ => ⟨ground, levels, some (text, inside ++ row)⟩
  | ⟨ground, l :: outer, none⟩ => ⟨ground, l.add row :: outer, none⟩
  | ⟨ground, [], none⟩ => ⟨ground ++ row, [], none⟩

/-- A quote opens, or the open one closes. -/
def toggle (r : Reading) (text : Bytes) : Reading :=
  match r.quote with
  | none => { r with quote := some (text, []) }
  | some (opening, inside) =>
    { r with quote := none }.add (.leaf .quote opening :: (inside ++ [Shape.leaf .quote text]))

/-- One token. -/
def step (options : CompileOptions) (r : Reading) (t : Token) : Reading :=
  match t.kind, r.levels with
  | .escape, _ => r.add [.leaf .escape t.text]
  | .quote, _ => r.toggle t.text
  | .opening, levels => { r with levels := { opening := t.text } :: levels }
  | .delimiter, l :: outer => { r with levels := l.comma t.text :: outer }
  | .range, l :: outer => { r with levels := l.separate t.text :: outer }
  | .closing, l :: outer => { r with levels := outer }.add (l.close options t.text)
  | _, _ => r.add [.text t.text]

/-- Everything that has been read, with what is open as text. -/
def row (r : Reading) : List Shape :=
  r.ground ++ r.levels.reverse.flatMap Level.row ++
    match r.quote with
    | none => []
    | some (text, inside) => .text text :: inside

end Reading

/-! ## Levels and their pieces -/

namespace Level

variable {l : Level}

/-- A block is divided by commas or by range separators, not by both, and never by more than two
separators, or more than one if it cannot be a range. -/
structure Divided (l : Level) : Prop where
  either : l.alternatives = [] ∨ l.bounds = []
  few : l.bounds.length ≤ 2
  barred : l.ranging = false → l.bounds.length ≤ 1

lemma divided_opening (text : Bytes) : ({ opening := text } : Level).Divided :=
  ⟨Or.inl rfl, Nat.zero_le 2, fun _ => Nat.zero_le 1⟩

lemma divided_add (h : l.Divided) (row : List Shape) : (l.add row).Divided :=
  ⟨h.either, h.few, h.barred⟩

lemma divided_comma (l : Level) (text : Bytes) : (l.comma text).Divided :=
  ⟨Or.inr rfl, Nat.zero_le 2, fun _ => Nat.zero_le 1⟩

lemma divided_separate (h : l.Divided) (text : Bytes) : (l.separate text).Divided := by
  rw [separate]
  split
  · exact divided_add h _
  next hcond =>
    simp only [Bool.or_eq_true, Bool.not_eq_true', List.isEmpty_eq_false_iff, not_or,
      decide_eq_true_eq, ne_eq, not_not, Bool.not_eq_false] at hcond
    split
    · refine ⟨Or.inl hcond.1.1, ?_, ?_⟩
      · rw [List.length_cons]
        omega
      · simp [hcond.1.2]
    · refine ⟨h.either, h.few, fun _ => ?_⟩
      show l.bounds.length ≤ 1
      omega

/-! ## Settling a level -/

lemma firm_past (l : Level) (rest : List Piece) : Firm (l.past ++ rest) := by
  rw [past, boundPieces, alternativePieces]
  cases l.bounds with
  | cons b bounds => exact firm_mark _ _
  | nil =>
      cases l.alternatives with
      | cons a alternatives => exact firm_mark _ _
      | nil => exact firm_mark _ _

lemma past_head_isMark (l : Level) (rest : List Piece) :
    ∀ piece ∈ (l.past ++ rest).head?, piece.isMark = true := by
  rw [past, boundPieces, alternativePieces]
  cases l.bounds with
  | cons b bounds => rintro _ ⟨⟩; rfl
  | nil =>
      cases l.alternatives with
      | cons a alternatives => rintro _ ⟨⟩; rfl
      | nil => rintro _ ⟨⟩; rfl

lemma settle_mark (m : Mark) (t : Bytes) (below : List Shape) :
    (Piece.mark m t).settle (below.map .shape) = (Shape.put below (.text t)).map .shape :=
  (map_appendText below t).symm

/-- The bounds of a level as text. -/
lemma foldr_settle_bounds (bounds : List (List Shape × Bytes)) (below : List Shape) :
    (bounds.flatMap fun b => Piece.mark .range b.2 :: (fuse b.1).map .shape).foldr Piece.settle
        (below.map .shape)
      = ((bounds.reverse.flatMap fun b => b.1 ++ [.text b.2]).foldl Shape.put below).map .shape := by
  induction bounds with
  | nil => rfl
  | cons b bounds ih =>
      rw [List.flatMap_cons, List.foldr_append, ih, List.foldr_cons, foldr_settle_fuse,
        settle_mark, List.reverse_cons, List.flatMap_append, List.foldl_append, List.flatMap_singleton,
        List.foldl_append]
      rfl

/-- The alternatives of a level as text. -/
lemma foldr_settle_alternatives (alternatives : List (List Shape × Bytes)) (below : List Shape) :
    (alternatives.flatMap fun a =>
        [Piece.mark .delimiter a.2, .shape (Shape.joined (fuse a.1))]).foldr Piece.settle
        (below.map .shape)
      = ((alternatives.reverse.flatMap fun a => [Shape.joined (fuse a.1), .text a.2]).foldl
          Shape.put below).map .shape := by
  induction alternatives with
  | nil => rfl
  | cons a alternatives ih =>
      rw [List.flatMap_cons, List.foldr_append, ih, List.foldr_cons, List.foldr_cons, List.foldr_nil,
        ← map_put, settle_mark, List.reverse_cons, List.flatMap_append, List.foldl_append,
        List.flatMap_singleton]
      rfl

lemma foldr_settle_segment (l : Level) (below : List Shape) :
    ((fuse l.current).map Piece.shape ++ l.boundPieces).foldr Piece.settle (below.map .shape)
      = (l.segment.foldl Shape.put below).map .shape := by
  rw [List.foldr_append, boundPieces, foldr_settle_bounds, foldr_settle_fuse, segment,
    List.foldl_append]

/-- A level that comes to nothing is its row. -/
lemma foldr_settle_pieces (l : Level) (below : List Shape) :
    l.pieces.foldr Piece.settle (below.map .shape) = (l.row.foldl Shape.put below).map .shape := by
  have hopening : (l.alternativePieces ++ [Piece.mark .opening l.opening]).foldr Piece.settle
      (below.map .shape) = ((l.alternatives.reverse.flatMap fun a =>
        [Shape.joined (fuse a.1), .text a.2]).foldl Shape.put
          (Shape.put below (.text l.opening))).map .shape := by
    rw [List.foldr_append, List.foldr_cons, List.foldr_nil, settle_mark, alternativePieces,
      foldr_settle_alternatives]
  rw [pieces, past, ← List.append_assoc, List.foldr_append, hopening, foldr_settle_segment, row,
    List.foldl_append, List.foldl_cons]

end Level

namespace Reading

variable {r : Reading}

/-! ## The row a reading is at -/

/-- Where the next token goes. -/
def top (r : Reading) : List Shape :=
  match r with
  | ⟨_, _, some (_, inside)⟩ => inside
  | ⟨_, l :: _, none⟩ => l.current
  | ⟨ground, [], none⟩ => ground

/-- The pieces below that. -/
def under (r : Reading) : List Piece :=
  match r with
  | ⟨ground, levels, some (text, _)⟩ => .shape (.leaf .quote text) :: levelPieces ground levels
  | ⟨ground, l :: outer, none⟩ => l.past ++ levelPieces ground outer
  | ⟨_, [], none⟩ => []

lemma levelPieces_cons (ground : List Shape) (l : Level) (outer : List Level) :
    levelPieces ground (l :: outer) = l.pieces ++ levelPieces ground outer := by
  simp [levelPieces]

lemma firm_under (r : Reading) : Firm r.under := by
  match r with
  | ⟨_, _, some _⟩ => exact firm_quote _
  | ⟨_, l :: _, none⟩ => exact l.firm_past _
  | ⟨_, [], none⟩ => exact firm_nil

lemma pieces_eq (r : Reading) : r.pieces = (fuse r.top).map .shape ++ r.under := by
  match r with
  | ⟨_, _, some _⟩ => rfl
  | ⟨ground, l :: outer, none⟩ =>
    show levelPieces ground (l :: outer) = _
    rw [levelPieces_cons, Level.pieces, List.append_assoc]
    rfl
  | ⟨ground, [], none⟩ => simp [pieces, levelPieces, top, under]

lemma pieces_add (r : Reading) (row : List Shape) :
    (r.add row).pieces = (fuse (r.top ++ row)).map .shape ++ r.under := by
  rw [pieces_eq]
  match r with
  | ⟨_, _, some _⟩ => rfl
  | ⟨_, l :: _, none⟩ => rfl
  | ⟨_, [], none⟩ => rfl

lemma blocks_add (r : Reading) (row : List Shape) :
    blocks (r.add row).ground (r.add row).levels = blocks r.ground r.levels := by
  match r with
  | ⟨_, _, some _⟩ => rfl
  | ⟨_, l :: _, none⟩ => rfl
  | ⟨ground, [], none⟩ => rfl

lemma quotePosition_add (r : Reading) (row : List Shape) :
    (r.add row).quotePosition = r.quotePosition := by
  match r with
  | ⟨_, _, some _⟩ => rfl
  | ⟨_, l :: _, none⟩ => rfl
  | ⟨_, [], none⟩ => rfl

/-- Quotes open and close with quote tokens, and with no others. -/
lemma quote_step (options : CompileOptions) (r : Reading) (t : Token) :
    (step options r t).quote.isSome = (r.quote.isSome != t.isQuote) := by
  have hadd : ∀ (r : Reading) (row : List Shape), (r.add row).quote.isSome = r.quote.isSome := by
    rintro ⟨ground, levels, quote⟩ row
    cases quote with
    | some quote => rfl
    | none => cases levels <;> rfl
  obtain ⟨kind, start, text⟩ := t
  obtain ⟨ground, levels, quote⟩ := r
  cases kind with
  | literal => simp [step, hadd, Token.isQuote]
  | escape => simp [step, hadd, Token.isQuote]
  | quote => cases quote <;> simp [step, toggle, hadd, Token.isQuote]
  | opening => simp [step, Token.isQuote]
  | delimiter => cases levels <;> simp [step, hadd, Token.isQuote]
  | range => cases levels <;> simp [step, hadd, Token.isQuote]
  | closing => cases levels <;> simp [step, hadd, Token.isQuote]

end Reading

end BraceExpansion
