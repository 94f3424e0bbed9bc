import BraceExpansion.Error
import BraceExpansion.Options
import BraceExpansion.Text.Utf8
import BraceExpansion.Token

/-!
# The scanner

A scanner stands somewhere in a pattern and hands out one token at a time.

* `Scanner.next` — the next token, the end of the pattern, or an error; and the scanner after it.
* `Scanner.foldTokens` — a function applied to every token up to the end or the first error.
* `Scanner.tokens` — the list of them.
* **`Scanner.splits_next`** — a token and what comes after it are what was there before.

Braces, commas and double dots are tokens wherever they stand outside quotes; whether they mean
anything is decided later.  Inside quotes only the closing quote and escapes are recognised.
Everything else is a literal, as long as possible.  A scanner goes on after an error, behind the
byte that caused it.
-/

namespace BraceExpansion

/-- A place in a pattern. -/
structure Scanner where
  options : CompileOptions
  /-- What is left of the pattern. -/
  rest : Bytes
  /-- Where it starts. -/
  offset : Nat
  /-- The quote that is open, and where it was opened. -/
  openQuote : Option (UInt8 × Nat)

namespace Scanner

/-- A scanner at the start of a pattern, unless the pattern is too long. -/
def ofPattern (options : CompileOptions) (pattern : Bytes) : Except PatternError Scanner :=
  if maxPatternLength < pattern.length then .error (.tooLong pattern.length)
  else .ok ⟨options, pattern, 0, none⟩

/-- Where the open quote was opened. -/
def openQuoteOffset (s : Scanner) : Option Nat := s.openQuote.map (·.2)

/-! ## Where tokens start -/

/-- Whether the next byte starts an escape. -/
def startsEscape (options : CompileOptions) (b : UInt8) : Bool :=
  b == Ascii.backslash && !options.ignoreEscape

/-- Whether the next byte opens a quote, outside quotes. -/
def startsQuote (options : CompileOptions) (b : UInt8) : Bool :=
  Ascii.isQuote b && !options.ignoreQuote

/-- Whether two dots start here. -/
def startsRange : Bytes → Bool
  | Ascii.dot :: Ascii.dot :: _ => true
  | _ => false

/-- Whether something other than a literal starts here, outside quotes. -/
def isSpecial (options : CompileOptions) : Bytes → Bool
  | [] => false
  | b :: rest =>
    startsEscape options b || startsQuote options b || b == Ascii.openBrace || b == Ascii.comma
      || b == Ascii.closeBrace || startsRange (b :: rest)

/-- Whether something other than a literal starts here, inside quotes. -/
def isSpecialWithin (options : CompileOptions) (quote : UInt8) : Bytes → Bool
  | [] => false
  | b :: _ => b == quote || startsEscape options b

/-- `runLength` with `counted` bytes counted already. -/
def runLengthFrom (special : Bytes → Bool) (counted : Nat) : Bytes → Nat
  | [] => counted
  | b :: rest =>
    if special (b :: rest) then counted else runLengthFrom special (counted + 1) rest

/-- How many bytes there are before something special starts. -/
def runLength (special : Bytes → Bool) (bytes : Bytes) : Nat := runLengthFrom special 0 bytes

/-! ## One token -/

/-- A token or the end of the pattern, or an error; and the scanner after it. -/
abbrev Step := Except PatternError (Option Token) × Scanner

/-- The scanner `n` bytes on. -/
def advance (s : Scanner) (n : Nat) : Scanner :=
  { s with rest := s.rest.drop n, offset := s.offset + n }

/-- The next `n` bytes as a token. -/
def emit (s : Scanner) (kind : TokenKind) (n : Nat) : Step :=
  (.ok (some ⟨kind, s.offset, s.rest.take n⟩), s.advance n)

/-- An error about the malformed byte `n` bytes on. -/
def rejectByte (s : Scanner) (n : Nat) : Step :=
  (.error (.invalidEncoding (s.offset + n)), s.advance (n + 1))

/-- The literal that runs up to something special. -/
def literal (s : Scanner) (special : Bytes → Bool) : Step :=
  let n := runLength special s.rest
  if s.options.strict then
    match Utf8.malformedAt? (s.rest.take n) with
    | some i => s.rejectByte i
    | none => s.emit .literal n
  else s.emit .literal n

/-- The escape that starts here: a backslash and the element after it.  A backslash that ends the
pattern has nothing to escape. -/
def escape (s : Scanner) : Step :=
  match s.rest.drop 1 with
  | [] =>
    if s.options.strict then (.error (.trailingEscape s.offset), s.advance 1)
    else s.emit .literal 1
  | b :: rest =>
    if s.options.strict && (Utf8.decodeChar? (b :: rest)).isNone then s.rejectByte 1
    else s.emit .escape (1 + Utf8.elementWidth (b :: rest))

/-- The quote that opens here. -/
def quote (s : Scanner) (b : UInt8) : Step :=
  { s with openQuote := some (b, s.offset) }.emit .quote 1

/-- The quote that closes here. -/
def unquote (s : Scanner) : Step :=
  { s with openQuote := none }.emit .quote 1

/-- The end of the pattern. -/
def finish (s : Scanner) : Step :=
  match s.openQuote with
  | some (b, offset) =>
    if s.options.strict then (.error (.unterminatedQuote offset (Char.ofNat b.toNat)), s)
    else (.ok none, s)
  | none => (.ok none, s)

/-- The next token outside quotes, which starts with `b`. -/
def unquoted (s : Scanner) (b : UInt8) : Step :=
  if startsEscape s.options b then s.escape
  else if startsQuote s.options b then s.quote b
  else if b = Ascii.openBrace then s.emit .opening 1
  else if b = Ascii.comma then s.emit .delimiter 1
  else if b = Ascii.closeBrace then s.emit .closing 1
  else if startsRange s.rest then s.emit .range 2
  else s.literal (isSpecial s.options)

/-- The next token inside quotes, which starts with `b`. -/
def quoted (s : Scanner) (opened b : UInt8) : Step :=
  if b = opened then s.unquote
  else if startsEscape s.options b then s.escape
  else s.literal (isSpecialWithin s.options opened)

/-- The next token. -/
def next (s : Scanner) : Step :=
  match s.rest, s.openQuote with
  | [], _ => s.finish
  | b :: _, some (opened, _) => s.quoted opened b
  | b :: _, none => s.unquoted b

/-! ## All tokens

Every token takes at least one byte off what is left, so the tokens of a pattern come to an end.
-/

theorem le_runLengthFrom (special : Bytes → Bool) (counted : Nat) (bytes : Bytes) :
    counted ≤ runLengthFrom special counted bytes := by
  induction bytes generalizing counted with
  | nil => exact Nat.le_refl _
  | cons b rest ih =>
    rw [runLengthFrom]
    split
    · exact Nat.le_refl _
    · exact Nat.le_trans (Nat.le_succ _) (ih _)

theorem runLength_pos {special : Bytes → Bool} {b : UInt8} {rest : Bytes}
    (h : special (b :: rest) = false) : 0 < runLength special (b :: rest) := by
  rw [runLength, runLengthFrom, h]
  exact le_runLengthFrom special 1 rest

/-- A step that gives a token, if it gives one, splits what is left into the text of the token,
which is not empty, and what is left afterwards. -/
def Splits (s : Scanner) (step : Step) : Prop :=
  ∀ t s', step = (.ok (some t), s') → t.text ≠ [] ∧ s.rest = t.text ++ s'.rest

theorem splits_error (s s' : Scanner) (e : PatternError) : s.Splits (.error e, s') := by
  simp [Splits]

theorem splits_end (s s' : Scanner) : s.Splits (.ok none, s') := by
  simp [Splits]

theorem splits_emit {s : Scanner} (hrest : s.rest ≠ []) {n : Nat} (hn : 0 < n)
    (kind : TokenKind) : s.Splits (s.emit kind n) := by
  rintro t s' ⟨⟩
  refine ⟨fun h => ?_, (List.take_append_drop n s.rest).symm⟩
  rcases List.take_eq_nil_iff.1 h with h | h
  · omega
  · exact hrest h

theorem splits_literal {s : Scanner} (hrest : s.rest ≠ []) {special : Bytes → Bool}
    (hspecial : special s.rest = false) : s.Splits (s.literal special) := by
  have hn : 0 < runLength special s.rest := by
    cases hs : s.rest with
    | nil => exact absurd hs hrest
    | cons b rest => exact runLength_pos (hs ▸ hspecial)
  rw [literal]
  split
  · split
    · exact splits_error _ _ _
    · exact splits_emit hrest hn _
  · exact splits_emit hrest hn _

theorem splits_escape {s : Scanner} (hrest : s.rest ≠ []) : s.Splits s.escape := by
  rw [escape]
  split
  · split
    · exact splits_error _ _ _
    · exact splits_emit hrest Nat.one_pos _
  · split
    · exact splits_error _ _ _
    · exact splits_emit hrest (by omega) _

theorem splits_finish (s : Scanner) : s.Splits s.finish := by
  rw [finish]
  split
  · split
    · exact splits_error _ _ _
    · exact splits_end _ _
  · exact splits_end _ _

theorem splits_quoted {s : Scanner} {b : UInt8} {rest : Bytes} (hs : s.rest = b :: rest)
    (opened : UInt8) : s.Splits (s.quoted opened b) := by
  have hrest : s.rest ≠ [] := by simp [hs]
  rw [quoted]
  split
  · exact splits_emit (s := { s with openQuote := none }) hrest Nat.one_pos _
  split
  · exact splits_escape hrest
  · exact splits_literal hrest (by simp_all [isSpecialWithin])

theorem splits_unquoted {s : Scanner} {b : UInt8} {rest : Bytes} (hs : s.rest = b :: rest) :
    s.Splits (s.unquoted b) := by
  have hrest : s.rest ≠ [] := by simp [hs]
  rw [unquoted]
  split
  · exact splits_escape hrest
  split
  · exact splits_emit (s := { s with openQuote := some (b, s.offset) }) hrest Nat.one_pos _
  split
  · exact splits_emit hrest Nat.one_pos _
  split
  · exact splits_emit hrest Nat.one_pos _
  split
  · exact splits_emit hrest Nat.one_pos _
  split
  · exact splits_emit hrest Nat.two_pos _
  · exact splits_literal hrest (by simp_all [isSpecial])

/-- Tokens leave nothing out: a token and what comes after it are what was there before. -/
theorem splits_next (s : Scanner) : s.Splits s.next := by
  rw [next]
  split
  · exact splits_finish s
  · exact splits_quoted ‹_› _
  · exact splits_unquoted ‹_›

/-- A token leaves less of the pattern. -/
theorem next_shorter {s s' : Scanner} {t : Token} (h : s.next = (.ok (some t), s')) :
    s'.rest.length < s.rest.length := by
  obtain ⟨htext, hrest⟩ := splits_next s t s' h
  have := List.length_pos_iff.2 htext
  rw [hrest, List.length_append]
  omega

/-- `f` applied to every token from here on, up to the end or the first error. -/
def foldTokens {σ : Type} (f : σ → Token → σ) (acc : σ) (s : Scanner) :
    σ × Option PatternError :=
  match h : s.next with
  | (.ok (some t), s') =>
    have := next_shorter h
    foldTokens f (f acc t) s'
  | (.ok none, _) => (acc, none)
  | (.error e, _) => (acc, some e)
termination_by s.rest.length

/-- The tokens from here on, if none of them is an error. -/
def tokens (s : Scanner) : Except PatternError (Array Token) :=
  match s.foldTokens Array.push #[] with
  | (tokens, none) => .ok tokens
  | (_, some e) => .error e

end Scanner

end BraceExpansion
