import BraceExpansion.Proofs.Text.WellFormed
import BraceExpansion.Proofs.Token.Stream
import Mathlib.Algebra.Ring.Parity

/-!
# Strict reading

A scanner works on bytes and goes from token to token.  What strict reading rejects can be said of the
characters of a pattern and without tokens.

**The scan.**  `Scan.step` goes from character to character and minds nothing but backslashes and
quotes.  Behind all characters a backslash has nothing to escape if the number of backslashes at the
end is odd (`Scan.escaped_foldl`).

**Tokens.**  The text of a token that strict reading hands out is characters, and a scan of these leads
from the scanner before the token to the one behind it (**`Scanner.Reads.scans`**).

**Errors.**  `Scanner.Refuses s e` lists what strict reading rejects, and there is nothing else
(`Scanner.refuses_of_next`).

**Permissive reading** goes on in the same way where strict reading goes on
(`Scanner.Reads.permissive`).
-/

namespace BraceExpansion

/-! ## The scan -/

/-- The characters that quote. -/
def isQuoteChar (c : Char) : Bool := c = '\x22' || c = '\x27' || c = '\x60'

/-- Where a scan of characters stands. -/
structure Scan where
  /-- How many bytes there are before. -/
  offset : Nat := 0
  /-- Whether a backslash protects the next character. -/
  escaped : Bool := false
  /-- The quote that is open, and where it was opened. -/
  quote : Option (Nat × Char) := none
  deriving DecidableEq

namespace Scan

variable {options : CompileOptions}

/-- One character. -/
def step (options : CompileOptions) (s : Scan) (c : Char) : Scan :=
  let offset := s.offset + c.utf8Size
  if s.escaped then ⟨offset, false, s.quote⟩
  else if c = '\x5C' && !options.ignoreEscape then ⟨offset, true, s.quote⟩
  else if isQuoteChar c && !options.ignoreQuote then
    match s.quote with
    | none => ⟨offset, false, some (s.offset, c)⟩
    | some (start, opened) => ⟨offset, false, if c = opened then none else some (start, opened)⟩
  else ⟨offset, false, s.quote⟩

/-- A scan of all characters. -/
def run (options : CompileOptions) (text : String) : Scan := text.toList.foldl (step options) {}

/-- How many backslashes there are at the end. -/
def trailingBackslashes (cs : List Char) : Nat := (cs.reverse.takeWhile (· = '\x5C')).length

lemma escaped_step (s : Scan) (c : Char) :
    (s.step options c).escaped = (!s.escaped && c = '\x5C' && !options.ignoreEscape) := by
  rw [step]
  cases s.escaped with
  | true => rfl
  | false =>
      simp only [Bool.false_eq_true, if_false, Bool.not_false, Bool.true_and]
      split
      next hescape => exact hescape.symm
      next hescape =>
        rw [Bool.not_eq_true] at hescape
        rw [hescape]
        split
        · split <;> rfl
        · rfl

/-- **A backslash protects nothing if an odd number of them ends the text.** -/
lemma escaped_foldl (cs : List Char) : (cs.foldl (step options) {}).escaped = true ↔
    options.ignoreEscape = false ∧ Odd (trailingBackslashes cs) := by
  induction cs using List.reverseRecOn with
  | nil => simp [trailingBackslashes]
  | append_singleton cs c ih =>
      rw [List.foldl_append, List.foldl_cons, List.foldl_nil, escaped_step]
      by_cases hc : c = '\x5C'
      · have hcount : trailingBackslashes (cs ++ [c]) = trailingBackslashes cs + 1 := by
          simp [trailingBackslashes, hc]
        rw [hcount, Nat.odd_add_one]
        cases hignore : options.ignoreEscape with
        | true => simp
        | false =>
            rw [hignore] at ih
            simp only [true_and] at ih
            rw [← ih]
            simp [hc]
      · have hcount : trailingBackslashes (cs ++ [c]) = 0 := by
          simp [trailingBackslashes, hc]
        rw [hcount]
        simp [hc]

end Scan

/-! ## Quotes as bytes and as characters -/

lemma isQuoteChar_iff {c : Char} : isQuoteChar c = true ↔
    ∃ b, Ascii.isQuote b = true ∧ c = Char.ofNat b.toNat := by
  constructor
  · intro h
    simp only [isQuoteChar, Bool.or_eq_true, decide_eq_true_eq] at h
    rcases h with (rfl | rfl) | rfl
    · exact ⟨Ascii.doubleQuote, rfl, rfl⟩
    · exact ⟨Ascii.singleQuote, rfl, rfl⟩
    · exact ⟨Ascii.backQuote, rfl, rfl⟩
  · rintro ⟨b, hb, rfl⟩
    simp only [Ascii.isQuote, Bool.or_eq_true, beq_iff_eq] at hb
    rcases hb with (rfl | rfl) | rfl <;> rfl

/-- A quote byte is the encoding of a quote character. -/
lemma encode_quote {b : UInt8} (h : Ascii.isQuote b = true) :
    String.utf8EncodeChar (Char.ofNat b.toNat) = [b] ∧ Char.ofNat b.toNat ≠ '\x5C' ∧
      (Char.ofNat b.toNat).utf8Size = 1 := by
  simp only [Ascii.isQuote, Bool.or_eq_true, beq_iff_eq] at h
  rcases h with (rfl | rfl) | rfl <;> decide

namespace Scanner

variable {s s' : Scanner} {t : Token} {ts : List Token} {b : UInt8}

/-- A scanner as a scan of what it has read. -/
def scan (s : Scanner) : Scan :=
  ⟨s.offset, false, s.openQuote.map fun q => (q.2, Char.ofNat q.1.toNat)⟩

/-! ## Tokens -/

/-- A plain character neither escapes, nor does it open or close a quote. -/
lemma step_plain (hsound : s.Sound) {c : Char} (hplain : ∀ b ∈ String.utf8EncodeChar c, s.Plain b)
    (offset : Nat) : Scan.step s.options ⟨offset, false, s.scan.quote⟩ c
      = ⟨offset + c.utf8Size, false, s.scan.quote⟩ := by
  have hescape : (c = '\x5C' && !s.options.ignoreEscape) = false := by
    by_cases hc : c = '\x5C'
    · subst hc
      have hslash := (hplain Ascii.backslash (by decide)).1
      simpa [startsEscape] using hslash
    · simp [hc]
  simp only [Scan.step, hescape, Bool.false_eq_true, if_false]
  split
  next hquote =>
    rw [Bool.and_eq_true, isQuoteChar_iff, Bool.not_eq_true'] at hquote
    obtain ⟨⟨b, hb, rfl⟩, henabled⟩ := hquote
    have hbytes := (encode_quote hb).1
    have hstate := (hplain b (by rw [hbytes]; exact List.mem_singleton.mpr rfl)).2
    cases hopen : s.openQuote with
    | none =>
        rw [hopen] at hstate
        rw [startsQuote_iff.mpr ⟨hb, henabled⟩] at hstate
        cases hstate
    | some q =>
        obtain ⟨opened, start⟩ := q
        rw [hopen] at hstate
        have hopened := (encode_quote (isQuote_of_startsQuote (hsound opened start hopen))).1
        have hne : Char.ofNat b.toNat ≠ Char.ofNat opened.toNat := by
          intro heq
          rw [heq, hopened] at hbytes
          exact hstate (List.cons.inj hbytes).1.symm
        simp [scan, hopen, hne]
  · rfl

/-- Plain characters only move the scan on. -/
lemma foldl_plain (hsound : s.Sound) {cs : List Char}
    (hplain : ∀ b ∈ Utf8.encodeAll cs, s.Plain b) (offset : Nat) :
    cs.foldl (Scan.step s.options) ⟨offset, false, s.scan.quote⟩
      = ⟨offset + (Utf8.encodeAll cs).length, false, s.scan.quote⟩ := by
  induction cs generalizing offset with
  | nil => rfl
  | cons c cs ih =>
      rw [Utf8.encodeAll_cons, List.forall_mem_append] at hplain
      rw [List.foldl_cons, step_plain hsound hplain.1, ih hplain.2, Utf8.encodeAll_cons,
        List.length_append, String.length_utf8EncodeChar, Nat.add_assoc]

lemma scans_plain (hsound : s.Sound) {text rest : Bytes} (hplain : ∀ b ∈ text, s.Plain b)
    (hwell : Utf8.malformedAt? text = none) : ∃ cs, text = Utf8.encodeAll cs ∧
      cs.foldl (Scan.step s.options) s.scan = (s.behind text rest).scan := by
  rcases Utf8.malformedAt?_cases text with ⟨cs, bad, htext, ⟨rfl, -⟩ | ⟨-, -, hbad⟩⟩
  · rw [List.append_nil] at htext
    subst htext
    exact ⟨cs, rfl, foldl_plain hsound hplain s.offset⟩
  · rw [hwell] at hbad
    cases hbad

/-- Punctuation is text. -/
lemma malformedAt?_punctuation {kind : TokenKind} {text : Bytes}
    (hkind : kind ≠ .literal ∧ kind ≠ .escape ∧ kind ≠ .quote)
    (hspelled : Token.Spelled ⟨kind, s.offset, text⟩) : Utf8.malformedAt? text = none := by
  cases kind with
  | literal => exact absurd rfl hkind.1
  | escape => exact absurd rfl hkind.2.1
  | quote => exact absurd rfl hkind.2.2
  | opening | delimiter | range | closing =>
      obtain rfl := hspelled
      rfl

/-- **A scan of the text of a token leads over the token.** -/
lemma Takes.scans (h : s.Takes t s') (hstrict : s.options.strict = true) (hsound : s.Sound) :
    ∃ cs, t.text = Utf8.encodeAll cs ∧ cs.foldl (Scan.step s.options) s.scan = s'.scan := by
  cases h with
  | escape hrest henabled _ hchar =>
      obtain ⟨c, rfl⟩ := hchar hstrict
      have hescape : s.options.ignoreEscape = false := by
        simpa [startsEscape] using henabled
      have hslash : '\x5C'.utf8Size = 1 := rfl
      refine ⟨['\x5C', c], ?_, ?_⟩
      · rw [Utf8.encodeAll_cons, Utf8.encodeAll_cons, Utf8.encodeAll_nil, List.append_nil]
        rfl
      · simp only [Scan.step, scan, behind, hescape, hslash, String.length_utf8EncodeChar,
          List.foldl_cons, List.foldl_nil, List.length_cons, Bool.false_eq_true, if_false,
          decide_true, Bool.not_false, Bool.and_self, if_true, Scan.mk.injEq, and_self, and_true]
        omega
  | backslash hrest hpermissive =>
      rw [hstrict] at hpermissive
      cases hpermissive
  | @opens b rest hrest hopen hescape hquote =>
      obtain ⟨hbytes, hslash, hsize⟩ := encode_quote (isQuote_of_startsQuote hquote)
      refine ⟨[Char.ofNat b.toNat], by rw [Utf8.encodeAll_cons, hbytes]; rfl, ?_⟩
      obtain ⟨hb, henabled⟩ := startsQuote_iff.mp hquote
      have hchar := isQuoteChar_iff.mpr ⟨b, hb, rfl⟩
      simp [Scan.step, scan, behind, hopen, hslash, hchar, henabled, hsize]
  | @closes b start rest hrest hopen =>
      have hquote := hsound b start hopen
      obtain ⟨hbytes, hslash, hsize⟩ := encode_quote (isQuote_of_startsQuote hquote)
      refine ⟨[Char.ofNat b.toNat], by rw [Utf8.encodeAll_cons, hbytes]; rfl, ?_⟩
      obtain ⟨hb, henabled⟩ := startsQuote_iff.mp hquote
      have hchar := isQuoteChar_iff.mpr ⟨b, hb, rfl⟩
      simp [Scan.step, scan, behind, hopen, hslash, hchar, henabled, hsize]
  | punctuation hrest hopen hkind hspelled hplain =>
      exact scans_plain hsound hplain (malformedAt?_punctuation hkind hspelled)
  | literal hrest hne hstart hstop hplain hwell =>
      exact scans_plain hsound hplain (hwell hstrict)

/-- **A scan of what has been read leads to the scanner behind it.** -/
theorem Reads.scans (h : s.Reads ts s') (hstrict : s.options.strict = true) (hsound : s.Sound) :
    s'.Sound ∧ ∃ cs, s.rest = Utf8.encodeAll cs ++ s'.rest ∧
      cs.foldl (Scan.step s.options) s.scan = s'.scan := by
  induction h with
  | nil s => exact ⟨hsound, [], rfl, rfl⟩
  | @cons s s₁ s' t ts hnext hreads ih =>
      have htakes := takes_of_next hnext
      have hoptions := (follows_of_next hnext).options_eq
      obtain ⟨-, hrest⟩ := splits_next s t s₁ hnext
      obtain ⟨cs, htext, hscan⟩ := htakes.scans hstrict hsound
      obtain ⟨hsound', ds, hrest', hscan'⟩ := ih (hoptions ▸ hstrict) (htakes.sound hsound)
      refine ⟨hsound', cs ++ ds, ?_, ?_⟩
      · rw [hrest, htext, hrest', Utf8.encodeAll_append, List.append_assoc]
      · rw [List.foldl_append, hscan, ← hoptions, hscan']

/-! ## Errors -/

/-- What strict reading rejects. -/
inductive Refuses (s : Scanner) : PatternError → Prop
  | malformed {cs : List Char} {bad : Bytes} (hrest : s.rest = Utf8.encodeAll cs ++ bad)
      (hne : bad ≠ []) (hbad : Utf8.decodeChar? bad = none) :
      Refuses s (.invalidEncoding (s.offset + (Utf8.encodeAll cs).length))
  | backslash (hrest : s.rest = [Ascii.backslash]) (henabled : s.options.ignoreEscape = false) :
      Refuses s (.trailingEscape s.offset)
  | unclosed {b : UInt8} {start : Nat} (hrest : s.rest = [])
      (hopen : s.openQuote = some (b, start)) :
      Refuses s (.unterminatedQuote start (Char.ofNat b.toNat))

/-- A step that gives an error, if it gives one, rejects something. -/
def Rejects (s : Scanner) (step : Step) : Prop := ∀ e s', step = (.error e, s') → s.Refuses e

/-- A step to a token or to the end rejects nothing. -/
lemma rejects_ok (x : Option Token) (s' : Scanner) : s.Rejects (.ok x, s') := by
  rintro e s'' ⟨⟩

lemma rejects_emit (kind : TokenKind) (n : Nat) : s.Rejects (s.emit kind n) := rejects_ok _ _

/-- What is malformed in a run is malformed, whatever comes behind the run. -/
lemma rejects_literal {special : Bytes → Bool}
    (hascii : ∀ b more, special (b :: more) = true → b.toNat ≤ 0x7F) :
    s.Rejects (s.literal special) := by
  have hsplit := (List.take_append_drop (runLength special s.rest) s.rest).symm
  have hstop := (runLength_stops special s.rest).2
  rw [literal]
  split
  · split
    next i hi =>
      rcases Utf8.malformedAt?_cases (s.rest.take (runLength special s.rest)) with
        ⟨cs, bad, htake, ⟨-, hnone⟩ | ⟨hne, hbad, hat⟩⟩
      · rw [hnone] at hi
        cases hi
      · rw [hat, Option.some.injEq] at hi
        subst hi
        rintro e s' ⟨⟩
        rw [htake, List.append_assoc] at hsplit
        refine .malformed hsplit (by simp [hne]) ?_
        cases hdecode : Utf8.decodeChar? (bad ++ s.rest.drop (runLength special s.rest)) with
        | none => rfl
        | some c =>
            have hafter : ∀ b ∈ (s.rest.drop (runLength special s.rest)).head?, b.toNat ≤ 0x7F := by
              intro b hb
              obtain ⟨more, hmore⟩ := List.head?_eq_some_iff.mp hb
              rw [hmore] at hstop
              exact hascii b more (hstop.resolve_left (List.cons_ne_nil _ _))
            rw [Utf8.decodeChar?_of_append hne hafter hdecode] at hbad
            cases hbad
    · exact rejects_emit _ _
  · exact rejects_emit _ _

lemma rejects_escape {bytes : Bytes} (hs : s.rest = b :: bytes)
    (hb : startsEscape s.options b = true) : s.Rejects s.escape := by
  simp only [startsEscape, Bool.and_eq_true, beq_iff_eq, Bool.not_eq_true'] at hb
  obtain ⟨rfl, henabled⟩ := hb
  rw [escape, hs, List.drop_one, List.tail_cons]
  cases bytes with
  | nil =>
      dsimp only
      split
      · rintro e s' ⟨⟩
        exact .backslash hs henabled
      · exact rejects_emit _ _
  | cons a bytes =>
      dsimp only
      split
      next hbad =>
        rw [Bool.and_eq_true, Option.isNone_iff_eq_none] at hbad
        rintro e s' ⟨⟩
        have hrest : s.rest = Utf8.encodeAll ['\x5C'] ++ a :: bytes := hs
        have hrefuses := Refuses.malformed hrest (List.cons_ne_nil _ _) hbad.2
        exact hrefuses
      · exact rejects_emit _ _

/-- **There is nothing else that strict reading rejects.** -/
theorem refuses_of_next {e : PatternError} (hsound : s.Sound) (h : s.next = (.error e, s')) :
    s.Refuses e := by
  revert h
  suffices hrejects : s.Rejects s.next from fun h => hrejects e s' h
  rw [next]
  split
  next hrest =>
    rw [finish]
    split
    next opened start hopen =>
      split
      · rintro e s' ⟨⟩
        exact .unclosed hrest hopen
      · exact rejects_ok _ _
    · exact rejects_ok _ _
  next b rest opened start hs hopen =>
    rw [quoted]
    split
    · exact rejects_ok _ _
    split
    next hb => exact rejects_escape hs hb
    · refine rejects_literal ?_
      intro a more hspecial
      simp only [isSpecialWithin, Bool.or_eq_true, beq_iff_eq] at hspecial
      rcases hspecial with rfl | hspecial
      · exact toNat_le_of_isQuote (isQuote_of_startsQuote (hsound _ _ hopen))
      · exact toNat_le_of_startsEscape hspecial
  next b rest hs hopen =>
    rw [unquoted]
    split
    next hb => exact rejects_escape hs hb
    split
    · exact rejects_ok _ _
    split
    · exact rejects_emit _ _
    split
    · exact rejects_emit _ _
    split
    · exact rejects_emit _ _
    split
    · exact rejects_emit _ _
    · refine rejects_literal ?_
      intro a more hspecial
      simp only [isSpecial, Bool.or_eq_true, beq_iff_eq] at hspecial
      rcases hspecial with ((((hspecial | hspecial) | rfl) | rfl) | rfl) | hspecial
      · exact toNat_le_of_startsEscape hspecial
      · exact toNat_le_of_isQuote (isQuote_of_startsQuote hspecial)
      · decide
      · decide
      · decide
      · rcases startsRange_cases hspecial with ⟨more', hmore⟩
        rw [(List.cons.inj hmore).1]
        decide

/-! ## Permissive reading -/

/-- The same place, and permissive reading from there on. -/
def permissive (s : Scanner) : Scanner := { s with options := { s.options with strict := false } }

/-- A literal is as long. -/
lemma literal_permissive {special : Bytes → Bool} {x : Option Token}
    (h : s.literal special = (.ok x, s')) :
    s.permissive.literal special = (.ok x, s'.permissive) := by
  rw [literal] at h ⊢
  split at h
  · split at h
    · cases h
    · cases h
      rfl
  · cases h
    rfl

/-- An escape is as long. -/
lemma escape_permissive {x : Option Token} (h : s.escape = (.ok x, s')) :
    s.permissive.escape = (.ok x, s'.permissive) := by
  rw [escape] at h ⊢
  have hrest : s.permissive.rest = s.rest := rfl
  rw [hrest]
  split at h
  · split at h
    · cases h
    · cases h
      rfl
  · split at h
    · cases h
    · cases h
      rfl

lemma startsEscape_permissive (b : UInt8) :
    startsEscape s.permissive.options b = startsEscape s.options b := rfl

lemma startsQuote_permissive (b : UInt8) :
    startsQuote s.permissive.options b = startsQuote s.options b := rfl

/-- The pattern ends the same way. -/
lemma finish_permissive {x : Option Token} (h : s.finish = (.ok x, s')) :
    s.permissive.finish = (.ok x, s'.permissive) := by
  have hopen : s.permissive.openQuote = s.openQuote := rfl
  rw [finish] at h ⊢
  rw [hopen]
  split at h
  · split at h
    · cases h
    · cases h
      rfl
  · cases h
    rfl

lemma emit_permissive {kind : TokenKind} {n : Nat} {x : Option Token}
    (h : s.emit kind n = (.ok x, s')) : s.permissive.emit kind n = (.ok x, s'.permissive) := by
  cases h
  rfl

/-- Outside quotes the same token is next. -/
lemma unquoted_permissive {b : UInt8} {x : Option Token} (h : s.unquoted b = (.ok x, s')) :
    s.permissive.unquoted b = (.ok x, s'.permissive) := by
  have hrest : s.permissive.rest = s.rest := rfl
  rw [unquoted] at h ⊢
  rw [startsEscape_permissive, startsQuote_permissive, hrest]
  split at h
  next hescape =>
    rw [if_pos hescape]
    exact escape_permissive h
  next hescape =>
  rw [if_neg hescape]
  split at h
  next hquote =>
    rw [if_pos hquote]
    cases h
    rfl
  next hquote =>
  rw [if_neg hquote]
  split_ifs at h ⊢
  · exact emit_permissive h
  · exact emit_permissive h
  · exact emit_permissive h
  · exact emit_permissive h
  · exact literal_permissive h

/-- Inside quotes the same token is next. -/
lemma quoted_permissive {q b : UInt8} {x : Option Token} (h : s.quoted q b = (.ok x, s')) :
    s.permissive.quoted q b = (.ok x, s'.permissive) := by
  rw [quoted] at h ⊢
  rw [startsEscape_permissive]
  split at h
  next hb =>
    rw [if_pos hb]
    cases h
    rfl
  next hb =>
  rw [if_neg hb]
  split at h
  next hescape =>
    rw [if_pos hescape]
    exact escape_permissive h
  next hescape =>
    rw [if_neg hescape]
    exact literal_permissive h

/-- **Where strict reading goes on, permissive reading goes on in the same way.** -/
theorem next_permissive {x : Option Token} (h : s.next = (.ok x, s')) :
    s.permissive.next = (.ok x, s'.permissive) := by
  have hrest : s.permissive.rest = s.rest := rfl
  have hopen : s.permissive.openQuote = s.openQuote := rfl
  rw [next] at h ⊢
  rw [hrest, hopen]
  split at h
  · exact finish_permissive h
  · exact quoted_permissive h
  · exact unquoted_permissive h

/-- A run of strict reading is one of permissive reading. -/
theorem Reads.permissive (h : s.Reads ts s') : s.permissive.Reads ts s'.permissive := by
  induction h with
  | nil s => exact .nil _
  | cons hnext _ ih => exact .cons (next_permissive hnext) ih

end Scanner

end BraceExpansion
