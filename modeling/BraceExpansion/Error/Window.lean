import BraceExpansion.Text.Columns

/-!
# The shown part of a line

A report has `Window.screen` columns for the line it is about.  A line that is deeply indented or
longer than that is shown in part, with three dots where characters are left out.

* `Window.around` — the part to show, chosen around the marked place.  A line of blanks only has
  nothing to show, so all of it is left out.
* `Window.shown` — the characters of a line that stand in the window.
-/

namespace BraceExpansion

/-- A part of a line. -/
structure Window where
  /-- How many characters are left out in front. -/
  skipped : Nat
  /-- How many columns the others may take. -/
  room : Nat
deriving DecidableEq, Repr

namespace Window

/-! ## Choice -/

/-- The columns a report has for a line. -/
def screen : Nat := 140

/-- The columns kept free next to what must be seen, so that dots find room there. -/
def margin : Nat := 6

/-- Whether a character leaves its place empty. -/
def isBlank (c : Char) : Bool := CharacterTable.inRanges CharacterTable.blanks c

/-- The number of blanks in front of the first other character, if there is one. -/
def indentation? (line : List Char) : Option Nat :=
  if line.all isBlank then none else some (line.takeWhile isBlank).length

/-- The bytes of a line.  They are never fewer than its columns. -/
def byteCount (line : List Char) : Nat := line.foldl (fun n c => n + c.utf8Size) 0

/-- The first and the last column to show of a line of `size` bytes behind `indent` blanks.  The
marked place starts at column `start`, and its label ends at column `labelStop`.

Of more than twenty spare blanks four are kept.  When the rest is still longer than the screen,
every spare blank goes if the label can then be seen, and else the label is brought to the
middle. -/
def bounds (size indent start labelStop : Nat) : Nat × Nat :=
  let spare := indent - margin
  let first := if spare > 20 then spare - 16 else 0
  if size - first ≤ screen then (first, size)
  else if labelStop + margin - spare ≤ screen then (spare, spare + screen)
  else
    let near := start - margin
    let first := near - (screen - (labelStop + margin - near)) / 2
    (first, first + screen)

/-- The part of `line` to show around the place from column `start`, whose label ends at column
`labelStop`. -/
def around (line : List Char) (start labelStop : Nat) : Window :=
  match indentation? line with
  | none => ⟨line.length, 0⟩
  | some indent =>
    let size := byteCount line
    let (first, last) := bounds size indent start labelStop
    let stop := if size - first ≤ screen then size else min size last
    ⟨first, stop - first⟩

/-! ## Contents -/

/-- The columns a character is given in a window.  A control character counts as one, so that what
is left out is never shorter than it looks. -/
def columnsOf (c : Char) : Nat := if Columns.isControl c then 1 else Columns.ofChar c

/-- The columns of a text in a window. -/
def columnCount (text : List Char) : Nat := text.foldl (fun n c => n + columnsOf c) 0

/-- The characters in front of `text` that fit in `room` columns. -/
def fitting (room : Nat) : List Char → List Char
  | [] => []
  | c :: rest => if columnsOf c ≤ room then c :: fitting (room - columnsOf c) rest else []

/-- The characters of `line` that stand in the window. -/
def shown (w : Window) (line : List Char) : List Char := fitting w.room (line.drop w.skipped)

/-- Whether characters in front of the window are left out. -/
def cutsFront (w : Window) : Bool := w.skipped != 0

/-- Whether characters behind the window are left out. -/
def cutsBack (w : Window) (line : List Char) : Bool :=
  w.skipped + (w.shown line).length < line.length

/-- The columns of what is left out in front. -/
def offset (w : Window) (line : List Char) : Nat := columnCount (line.take w.skipped)

end Window

end BraceExpansion
