import BraceExpansion.Error
import BraceExpansion.Error.Row
import BraceExpansion.Error.Window

/-!
# Error reports

An error shown on the line it is about, with carets under the character where the problem starts.

* `Excerpt.ofOffset` — the text split at an offset.  The offset may lie past the end or inside a
  character, since a report can be made on a text the error did not come from: the split then is
  at the end, or before that character.
* `PatternError.rows` — the rows of the report.  The row of the line shows what stands in a
  `Window` around the place, without the characters that would set it in another order than it is
  written in (`shownLine`).
* `PatternError.report` — the rows as text, with the parts set as a `Palette` says.

The report is laid out for a text of one line.  Of a text with line feeds only the message and the
place are meant, not the rows that show it.
-/

namespace BraceExpansion

/-! ## The marked place -/

/-- A text split at the place a report points to. -/
structure Excerpt where
  /-- The characters before the place. -/
  before : List Char
  /-- The characters from the place on, of which the first is marked. -/
  after : List Char

namespace Excerpt

/-- `text` split after the characters that lie within its first `offset` bytes. -/
def splitAt (offset : Nat) : List Char → List Char × List Char
  | [] => ([], [])
  | c :: rest =>
    if c.utf8Size ≤ offset then
      let (before, after) := splitAt (offset - c.utf8Size) rest
      (c :: before, after)
    else ([], c :: rest)

/-- The place in `text` for an offset: the last character boundary not above it. -/
def ofOffset (text : String) (offset : Nat) : Excerpt :=
  let (before, after) := splitAt offset text.toList
  ⟨before, after⟩

/-- The byte offset of the marked character. -/
def start (e : Excerpt) : Nat := Window.byteCount e.before

/-- The byte offset after the marked character; at the end of the text nothing is marked. -/
def stop (e : Excerpt) : Nat :=
  match e.after with
  | [] => e.start
  | c :: _ => e.start + c.utf8Size

/-- The column number of the place, counted in characters from one. -/
def column (e : Excerpt) : Nat := e.before.length + 1

/-- The columns before the place. -/
def startColumn (e : Excerpt) : Nat := Columns.ofChars e.before

/-- The columns up to the end of the marked character, which is given at least one. -/
def stopColumn (e : Excerpt) : Nat :=
  e.startColumn + max 1 (Columns.ofChars (e.after.take 1))

end Excerpt

/-! ## The report -/

/-- Characters that join the emoji beside them or turn the direction of the text: the zero width
joiner, and the embeddings, overrides and isolates with their ends. -/
def rearranges (c : Char) : Bool :=
  c = '\u200D' || ('\u202A' ≤ c && c ≤ '\u202E') || ('\u2066' ≤ c && c ≤ '\u2069')

/-- A line as it is shown, so that its characters stand in the order they have in the text.  What is
left out has no columns, so the carets stay in place. -/
def shownLine (text : List Char) : List Char := text.filter (!rearranges ·)

/-- The cell in which the line starts, behind its number and the frame. -/
def lineStart : Nat := 4

/-- Three dots for what is left out. -/
def dots : List Char := ['.', '.', '.']

/-- The row of the line: its number and what the window shows of it. -/
def sourceRow (w : Window) (line : List Char) : Row :=
  let text := w.shown line
  let row := (Row.ofParts [(.frame, "1 |")]).put lineStart .source text
  let row := if w.cutsFront then row.put lineStart .frame dots else row
  if w.cutsBack line then row.put (lineStart + Window.columnCount text - dots.length) .frame dots
  else row

/-- The row below the line: a caret for each column of the marked character, and the label one
blank behind them.  Carets that would stand before the line, because their character is left out,
are drawn over the frame. -/
def Excerpt.markRow (e : Excerpt) (label : String) (w : Window) (line : List Char) : Row :=
  let left := w.offset line
  let first := lineStart + e.startColumn - left
  let last := lineStart + e.stopColumn - 1 - left
  let row := (Row.ofParts [(.source, "  "), (.frame, "|")])
    |>.put (lineStart + (e.stopColumn + 1 - left)) .severity label.toList
  row.put first .severity (List.replicate (last + 1 - first) '^')

/-- The rows of the report on `text`, which comes from `origin`. -/
def PatternError.rows (e : PatternError) (origin text : String) : List Row :=
  let place := Excerpt.ofOffset text e.offset
  let line := shownLine text.toList
  let window := Window.around text.toList place.startColumn
    (place.stopColumn + 1 + e.label.length)
  let gutter := Row.ofParts [(.source, "  "), (.frame, "|")]
  [Row.ofParts [(.severity, "error"), (.source, ": "), (.emphasis, e.message)],
    Row.ofParts [(.source, " "), (.frame, "-->"),
      (.source, " " ++ origin ++ ":1:" ++ toString place.column)],
    gutter, sourceRow window line, place.markRow e.label window line, gutter]

/-- The report, without a final line feed.  The text is taken for one line. -/
def PatternError.report (e : PatternError) (palette : Palette) (origin text : String) : String :=
  "\n".intercalate ((e.rows origin text).map (·.render palette))

end BraceExpansion
