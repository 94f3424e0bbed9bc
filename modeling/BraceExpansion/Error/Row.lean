/-!
# Rows of a report

A row is a line of cells, each a character and the style it is set in.

* `Row.ofParts` — texts in their styles, one after the other.
* `Row.put` — a text written from a cell on, over what stands there.
* `Row.render` — the row as text, in the look a `Palette` gives to the styles.
-/

namespace BraceExpansion

/-! ## Styles -/

/-- The kinds of parts a report has. -/
inductive Style where
  /-- What is shown as it is. -/
  | source
  /-- The word that says how bad it is, and what belongs to the marked place. -/
  | severity
  /-- The message. -/
  | emphasis
  /-- The frame around the line. -/
  | frame
deriving DecidableEq, Repr

/-- How a text of each style is set. -/
abbrev Palette := Style → String → String

namespace Palette

/-- Text only. -/
def plain : Palette := fun _ text => text

/-- Text between a terminal's control sequences. -/
def sequenced (codes text : String) : String := codes ++ text ++ "\x1b[0m"

/-- Bold, with red for what is wrong and blue for the frame. -/
def colored : Palette
  | .source => id
  | .severity => sequenced "\x1b[1m\x1b[91m"
  | .emphasis => sequenced "\x1b[1m"
  | .frame => sequenced "\x1b[1m\x1b[94m"

end Palette

/-! ## Rows -/

/-- A line of a report, cell by cell. -/
structure Row where
  /-- The characters with their styles. -/
  cells : List (Style × Char)

namespace Row

/-- The cells of a text in one style. -/
def cellsOf (style : Style) (text : List Char) : List (Style × Char) :=
  text.map fun c => (style, c)

/-- Texts in their styles, one after the other. -/
def ofParts (parts : List (Style × String)) : Row :=
  ⟨parts.flatMap fun (style, text) => cellsOf style text.toList⟩

/-- `text` written from the cell `start` on.  Cells before it that were never written are blank. -/
def put (row : Row) (start : Nat) (style : Style) (text : List Char) : Row :=
  if text.isEmpty then row
  else ⟨row.cells.take start ++ cellsOf .source (List.replicate (start - row.cells.length) ' ')
    ++ cellsOf style text ++ row.cells.drop (start + text.length)⟩

/-- The longest stretches of one style, in order. -/
def runs : List (Style × Char) → List (Style × List Char)
  | [] => []
  | (style, c) :: rest =>
    match runs rest with
    | [] => [(style, [c])]
    | (next, text) :: more =>
      if style = next then (style, c :: text) :: more else (style, [c]) :: (next, text) :: more

/-- The row as text. -/
def render (row : Row) (palette : Palette) : String :=
  String.join ((runs row.cells).map fun (style, text) => palette style (String.ofList text))

end Row

end BraceExpansion
