import BraceExpansion.Text.CharacterTable

/-!
# Columns

How many columns a text takes on a terminal: one for most characters, two for wide ones, none for
characters that draw nothing of their own.

* `ofChar` — one character.  Four characters have a number of their own (`exceptions`), since their
  class would give the wrong one; after them a character without a cell (`hasNoCell`) counts before
  a wide one.
* `ofChars` — a text, character by character.
-/

namespace BraceExpansion.Columns

/-- Hangul medial vowels and final consonants, which are drawn within the syllable they end. -/
def closesSyllable (c : Char) : Bool :=
  let inside (first last : Nat) : Bool := first ≤ c.toNat && c.toNat ≤ last
  inside 0x1160 0x11FF || inside 0xD7B0 0xD7C6 || inside 0xD7CB 0xD7FB

/-- Whether a character is drawn in no cell of its own: it steers the layout, or is drawn on the
characters beside it. -/
def hasNoCell (c : Char) : Bool :=
  closesSyllable c || CharacterTable.inRanges CharacterTable.ignorable c
    || CharacterTable.inRanges CharacterTable.graphemeExtenders c
    || CharacterTable.inRanges CharacterTable.joiningNext c

/-- Characters drawn otherwise than their class says: the Tifinagh consonant joiner shows, the
Hangul initial filler and the Khmer vowel QAA are as wide as a syllable, and the Khmer sign BEYYAL
is a word. -/
def exceptions : List (Char × Nat) :=
  [('\u2D7F', 1), ('\u115F', 2), ('\u17A4', 2), ('\u17D8', 3)]

/-- Characters that are commands to the terminal. -/
def isControl (c : Char) : Bool := c.toNat < 0x20 || (0x7F ≤ c.toNat && c.toNat < 0xA0)

/-- The columns of one character.  ASCII is decided first: it is what most text is. -/
def ofChar (c : Char) : Nat :=
  if isControl c then 0
  else if c.toNat < 0x7F then 1
  else match exceptions.lookup c with
    | some columns => columns
    | none =>
      if hasNoCell c then 0
      else if CharacterTable.inRanges CharacterTable.wide c then 2
      else 1

/-- The columns of a text. -/
def ofChars (text : List Char) : Nat := text.foldl (fun n c => n + ofChar c) 0

end BraceExpansion.Columns
