import BraceExpansion.Text.CharacterTable

/-!
# Quoted text

Text between quotes in which every character can be told apart, for dumps.

* `text` — a string in double quotes.
* `character` — a character in single quotes.

Five characters have an escape of two letters, the closing quote and the backslash stand behind a
backslash, and a character that would not show on its own is written by its number.  A mark that
joins the character before it is written by its number too, since it would change that character.
-/

namespace BraceExpansion.Quoted

/-- Whether a character shows on its own.  ASCII is decided first: it is what most text is. -/
def isShown (c : Char) : Bool :=
  if c.toNat < 0x7F then 0x20 ≤ c.toNat
  else !(CharacterTable.inRanges CharacterTable.unshown c
    || CharacterTable.inRanges CharacterTable.formatControls c
    || CharacterTable.inRanges CharacterTable.ignorable c
    || CharacterTable.inRanges CharacterTable.graphemeExtenders c)

/-- A character by its number, in lower-case hexadecimal without leading zeros. -/
def byNumber (c : Char) : String :=
  "\\u\x7b" ++ String.ofList (Nat.toDigits 16 c.toNat) ++ "\x7d"

/-- One character as it stands between two `quote` marks. -/
def escaped (quote c : Char) : String :=
  if c = '\x00' then "\\0"
  else if c = '\t' then "\\t"
  else if c = '\r' then "\\r"
  else if c = '\n' then "\\n"
  else if c = '\\' || c = quote then "\\".push c
  else if isShown c then c.toString
  else byNumber c

/-- A string in double quotes. -/
def text (s : String) : String :=
  (s.toList.foldl (fun shown c => shown ++ escaped '"' c) "\"").push '"'

/-- A character in single quotes. -/
def character (c : Char) : String := "'" ++ escaped '\'' c ++ "'"

end BraceExpansion.Quoted
