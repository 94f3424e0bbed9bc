import BraceExpansion.Proofs.Token.Stream

/-!
# The grammar of tokens

What a token is can be said of the bytes of a pattern alone, without a scanner and the order in which it
looks for things.

* `Stands` — a token that is no literal, by its kind: punctuation, a quote that opens or closes, and an
  escape.
* `Interrupted` — a place where no literal goes on.
* `Lexeme` — any token: one that stands there, a backslash that has nothing to escape, or a literal that
  runs up to the next place where it is interrupted.

A scanner hands out the token of the grammar (**`Scanner.next_of_lexeme`**), and where something is left
there is one (`exists_lexeme`).  So permissive reading hands out nothing else
(**`Scanner.lexeme_of_next`**).
-/

namespace BraceExpansion

variable {options : CompileOptions} {quote : Option UInt8} {kind : TokenKind} {b : UInt8}
  {text rest bytes : Bytes}

/-! ## Tokens by their bytes -/

/-- A token that is no literal stands in front of `rest`, outside quotes or inside the quote `quote`. -/
inductive Stands (options : CompileOptions) : Option UInt8 → TokenKind → Bytes → Bytes → Prop
  | opening (rest : Bytes) : Stands options none .opening [Ascii.openBrace] rest
  | delimiter (rest : Bytes) : Stands options none .delimiter [Ascii.comma] rest
  | closing (rest : Bytes) : Stands options none .closing [Ascii.closeBrace] rest
  | range (rest : Bytes) : Stands options none .range [Ascii.dot, Ascii.dot] rest
  | opens {b : UInt8} (rest : Bytes) (hquote : Ascii.isQuote b = true)
      (henabled : options.ignoreQuote = false) : Stands options none .quote [b] rest
  | closes (b : UInt8) (rest : Bytes) : Stands options (some b) .quote [b] rest
  | character (quote : Option UInt8) (c : Char) (rest : Bytes)
      (henabled : options.ignoreEscape = false) :
      Stands options quote .escape (Ascii.backslash :: String.utf8EncodeChar c) rest
  /-- A byte with which no character starts. -/
  | malformed (quote : Option UInt8) {b : UInt8} {rest : Bytes}
      (henabled : options.ignoreEscape = false)
      (hbad : ∀ c : Char, ¬ String.utf8EncodeChar c <+: b :: rest) :
      Stands options quote .escape [Ascii.backslash, b] rest

/-- No literal goes on here: the text ends, a backslash has nothing to escape, or another token
stands. -/
def Interrupted (options : CompileOptions) (quote : Option UInt8) (bytes : Bytes) : Prop :=
  bytes = [] ∨ (bytes = [Ascii.backslash] ∧ options.ignoreEscape = false) ∨
    ∃ kind text rest, bytes = text ++ rest ∧ Stands options quote kind text rest

/-- A token in front of `rest`. -/
inductive Lexeme (options : CompileOptions) (quote : Option UInt8) : TokenKind → Bytes → Bytes → Prop
  | stands {kind : TokenKind} {text rest : Bytes} (h : Stands options quote kind text rest) :
      Lexeme options quote kind text rest
  | backslash (henabled : options.ignoreEscape = false) :
      Lexeme options quote .literal [Ascii.backslash] []
  | run {text rest : Bytes} (hne : text ≠ [])
      (hrun : ∀ before behind, text = before ++ behind → behind ≠ [] →
        ¬ Interrupted options quote (behind ++ rest))
      (hstop : Interrupted options quote rest) : Lexeme options quote .literal text rest

namespace Lexeme

/-- A literal stops where no literal goes on. -/
lemma stops (h : Lexeme options quote .literal text rest) : Interrupted options quote rest := by
  cases h with
  | stands h => cases h
  | backslash henabled => exact Or.inl rfl
  | run hne hrun hstop => exact hstop

/-- Where no literal goes on, the only literal is a backslash at the end. -/
lemma resumes (h : Lexeme options quote .literal text rest)
    (hstopped : Interrupted options quote (text ++ rest)) :
    text = [Ascii.backslash] ∧ options.ignoreEscape = false ∧ rest = [] := by
  cases h with
  | stands h => cases h
  | backslash henabled => exact ⟨rfl, henabled, rfl⟩
  | run hne hrun hstop => exact absurd hstopped (hrun [] text rfl hne)

end Lexeme

/-! ## What a scanner looks for -/

namespace Scanner

/-- Whether something other than a literal starts here. -/
def special (options : CompileOptions) : Option UInt8 → Bytes → Bool
  | none => isSpecial options
  | some quote => isSpecialWithin options quote

end Scanner

/-- An escape, or a backslash that has nothing to escape. -/
lemma interrupted_backslash (henabled : options.ignoreEscape = false) (rest : Bytes) :
    Interrupted options quote (Ascii.backslash :: rest) := by
  cases rest with
  | nil => exact Or.inr (Or.inl ⟨rfl, henabled⟩)
  | cons b rest =>
      refine Or.inr (Or.inr ?_)
      by_cases hchar : ∃ c : Char, String.utf8EncodeChar c <+: b :: rest
      · rcases hchar with ⟨c, more, hmore⟩
        refine ⟨_, _, more, ?_, .character quote c more henabled⟩
        rw [List.cons_append, hmore]
      · exact ⟨_, _, rest, rfl, .malformed quote henabled (not_exists.mp hchar)⟩

open Scanner in
/-- **The scanner looks for what interrupts a literal.** -/
lemma interrupted_iff : Interrupted options quote bytes ↔
    bytes = [] ∨ special options quote bytes = true := by
  constructor
  · rintro (rfl | ⟨rfl, henabled⟩ | ⟨kind, text, rest, rfl, h⟩)
    · exact Or.inl rfl
    · right
      have hslash : startsEscape options Ascii.backslash = true := startsEscape_iff.mpr ⟨rfl, henabled⟩
      cases quote <;> simp [special, isSpecial, isSpecialWithin, hslash]
    · right
      cases h with
      | opening | delimiter | closing => simp [special, isSpecial]
      | range rest =>
          have hdots : startsRange (Ascii.dot :: Ascii.dot :: rest) = true := rfl
          simp [special, isSpecial, hdots]
      | opens rest hquote henabled =>
          have hstarts := startsQuote_iff.mpr ⟨hquote, henabled⟩
          simp [special, isSpecial, hstarts]
      | closes => simp [special, isSpecialWithin]
      | character quote c rest henabled =>
          have hslash := startsEscape_iff.mpr ⟨rfl, henabled⟩
          cases quote <;> simp [special, isSpecial, isSpecialWithin, hslash]
      | malformed quote henabled hbad =>
          have hslash := startsEscape_iff.mpr ⟨rfl, henabled⟩
          cases quote <;> simp [special, isSpecial, isSpecialWithin, hslash]
  · rintro (rfl | h)
    · exact Or.inl rfl
    · cases bytes with
      | nil => exact Or.inl rfl
      | cons b rest =>
          have hescape : startsEscape options b = true →
              Interrupted options quote (b :: rest) := by
            intro hstarts
            obtain ⟨rfl, henabled⟩ := startsEscape_iff.mp hstarts
            exact interrupted_backslash henabled rest
          cases quote with
          | some q =>
              simp only [special, isSpecialWithin, Bool.or_eq_true, beq_iff_eq] at h
              rcases h with rfl | h
              · exact Or.inr (Or.inr ⟨_, [b], rest, rfl, .closes b rest⟩)
              · exact hescape h
          | none =>
              simp only [special, isSpecial, Bool.or_eq_true, beq_iff_eq] at h
              rcases h with ((((h | h) | rfl) | rfl) | rfl) | h
              · exact hescape h
              · obtain ⟨hquote, henabled⟩ := startsQuote_iff.mp h
                exact Or.inr (Or.inr ⟨_, [b], rest, rfl, .opens rest hquote henabled⟩)
              · exact Or.inr (Or.inr ⟨_, [_], rest, rfl, .opening rest⟩)
              · exact Or.inr (Or.inr ⟨_, [_], rest, rfl, .delimiter rest⟩)
              · exact Or.inr (Or.inr ⟨_, [_], rest, rfl, .closing rest⟩)
              · obtain ⟨more, hmore⟩ := startsRange_cases h
                exact Or.inr (Or.inr ⟨_, [_, _], more, hmore, .range more⟩)

/-! ## Runs -/

namespace Scanner

variable {s s' : Scanner} {t : Token} {isStop : Bytes → Bool}

/-- A run is as long as the bytes in front of something special. -/
lemma runLength_append
    (hrun : ∀ before behind, text = before ++ behind → behind ≠ [] → isStop (behind ++ rest) = false)
    (hstop : rest = [] ∨ isStop rest = true) : runLength isStop (text ++ rest) = text.length := by
  induction text with
  | nil =>
      rcases hstop with rfl | hstop
      · rfl
      · cases rest with
        | nil => rfl
        | cons b rest => rw [List.nil_append, runLength, runLengthFrom, if_pos hstop]; rfl
  | cons b text ih =>
      have hfirst := hrun [] (b :: text) rfl (List.cons_ne_nil _ _)
      rw [List.cons_append] at hfirst ⊢
      rw [runLength, runLengthFrom, hfirst, if_neg Bool.false_ne_true, runLengthFrom_eq, ih,
        List.length_cons, Nat.zero_add, Nat.add_comm]
      intro before behind htext hne
      exact hrun (b :: before) behind (by rw [htext, List.cons_append]) hne

/-- Nothing special starts anywhere in a run. -/
lemma not_special_run {before behind : Bytes}
    (h : bytes.take (runLength isStop bytes) = before ++ behind) (hne : behind ≠ []) :
    isStop (behind ++ bytes.drop (runLength isStop bytes)) = false := by
  induction bytes generalizing before with
  | nil =>
      obtain ⟨-, rfl⟩ := List.append_eq_nil_iff.mp h.symm
      exact absurd rfl hne
  | cons a bytes ih =>
      rw [runLength, runLengthFrom] at h ⊢
      split at h
      · obtain ⟨-, rfl⟩ := List.append_eq_nil_iff.mp h.symm
        exact absurd rfl hne
      next hspecial =>
        rw [if_neg hspecial, runLengthFrom_eq, Nat.zero_add, Nat.add_comm] at *
        rw [List.take_succ_cons] at h
        rw [List.drop_succ_cons]
        cases before with
        | nil =>
            rw [List.nil_append] at h
            rw [← h, List.cons_append, List.take_append_drop]
            simpa using hspecial
        | cons a' before =>
            exact ih (List.cons.inj h).2

/-! ## The next token -/

/-- The byte that closes the open quote. -/
def quoteByte (s : Scanner) : Option UInt8 := s.openQuote.map Prod.fst

/-- The scanner behind a token. -/
def past (s : Scanner) (t : Token) (rest : Bytes) : Scanner :=
  { s.behind t.text rest with
    openQuote := match t.kind, s.openQuote with
      | .quote, none => t.text.head?.map fun b => (b, s.offset)
      | .quote, some _ => none
      | _, quote => quote }

/-- Strict reading takes the token, too. -/
def Strictly (kind : TokenKind) (text : Bytes) : Prop :=
  kind ≠ .literal ∧ (kind = .escape → ∃ c, text = Ascii.backslash :: String.utf8EncodeChar c)

lemma next_escape (hsound : s.Sound) {more : Bytes} (hrest : s.rest = Ascii.backslash :: more)
    (henabled : s.options.ignoreEscape = false) : s.next = s.escape := by
  have hslash : startsEscape s.options Ascii.backslash = true := startsEscape_iff.mpr ⟨rfl, henabled⟩
  cases hopen : s.openQuote with
  | none => simp only [next, hrest, hopen, unquoted, hslash, if_true]
  | some q =>
      obtain ⟨opened, start⟩ := q
      have hne : Ascii.backslash ≠ opened := by
        rintro rfl
        have hquote := isQuote_of_startsQuote (hsound _ _ hopen)
        exact absurd hquote (by decide)
      simp only [next, hrest, hopen, quoted, if_neg hne, hslash, if_true]

lemma next_literal (hspecial : special s.options s.quoteByte (b :: bytes) = false)
    (hrest : s.rest = b :: bytes) :
    s.next = s.literal (special s.options s.quoteByte) := by
  cases hopen : s.openQuote with
  | none =>
      have hbyte : s.quoteByte = none := by rw [quoteByte, hopen]; rfl
      rw [hbyte] at hspecial ⊢
      simp only [special, isSpecial, Bool.or_eq_false_iff, beq_eq_false_iff_ne] at hspecial
      obtain ⟨⟨⟨⟨⟨hescape, hquote⟩, hopening⟩, hcomma⟩, hclosing⟩, hdots⟩ := hspecial
      simp only [next, hrest, hopen, unquoted, hescape, hquote, hdots, if_neg hopening,
        if_neg hcomma, if_neg hclosing, Bool.false_eq_true, if_false, special]
  | some q =>
      obtain ⟨opened, start⟩ := q
      have hbyte : s.quoteByte = some opened := by rw [quoteByte, hopen]; rfl
      rw [hbyte] at hspecial ⊢
      simp only [special, isSpecialWithin, Bool.or_eq_false_iff, beq_eq_false_iff_ne] at hspecial
      simp only [next, hrest, hopen, quoted, if_neg hspecial.1, hspecial.2, Bool.false_eq_true,
        if_false, special]

lemma past_of_ne_quote (h : t.kind ≠ .quote) (rest : Bytes) : s.past t rest = s.behind t.text rest := by
  simp only [past]
  split
  next hkind _ => exact absurd hkind h
  next hkind _ => exact absurd hkind h
  · rfl

/-- An escape, if its element is the one that stands behind the backslash. -/
lemma next_element {element : Bytes} (hsound : s.Sound)
    (hrest : s.rest = Ascii.backslash :: element ++ rest)
    (henabled : s.options.ignoreEscape = false) (hne : element ≠ [])
    (hwidth : Utf8.elementWidth (element ++ rest) = element.length)
    (hstrict : s.options.strict = true → ∃ c, element = String.utf8EncodeChar c) :
    s.next = (.ok (some ⟨.escape, s.offset, Ascii.backslash :: element⟩),
      s.past ⟨.escape, s.offset, Ascii.backslash :: element⟩ rest) := by
  obtain ⟨a, tail, rfl⟩ := List.exists_cons_of_ne_nil hne
  have hemit := emit_append hrest .escape
  have hreads : (s.options.strict && (Utf8.decodeChar? (a :: tail ++ rest)).isNone) = false := by
    cases hmode : s.options.strict with
    | false => rfl
    | true =>
        obtain ⟨c, hc⟩ := hstrict hmode
        rw [hc, Utf8.decodeChar?_encodeChar]
        rfl
  rw [List.cons_append] at hwidth hreads
  rw [next_escape hsound hrest henabled, past_of_ne_quote (by simp), ← hemit, escape, hrest,
    List.cons_append, List.drop_one, List.tail_cons, List.cons_append]
  dsimp only
  rw [hreads, if_neg Bool.false_ne_true, hwidth, Nat.add_comm]
  rfl

/-- What is no literal. -/
lemma next_stands (hsound : s.Sound) (hrest : s.rest = text ++ rest)
    (h : Stands s.options s.quoteByte kind text rest)
    (hstrict : s.options.strict = true → Strictly kind text) :
    s.next = (.ok (some ⟨kind, s.offset, text⟩), s.past ⟨kind, s.offset, text⟩ rest) := by
  have helement : ∀ {element : Bytes}, kind = .escape → text = Ascii.backslash :: element →
      s.options.strict = true → ∃ c, element = String.utf8EncodeChar c := by
    rintro element rfl rfl hmode
    obtain ⟨c, hc⟩ := (hstrict hmode).2 rfl
    exact ⟨c, (List.cons.inj hc).2⟩
  generalize hbyte : s.quoteByte = quote at h
  cases h with
  | opening | delimiter | closing | range =>
      obtain ⟨options, before, offset, openQuote⟩ := s
      obtain rfl := Option.map_eq_none_iff.mp hbyte
      obtain rfl := hrest
      rfl
  | @opens b rest hquote henabled =>
      obtain ⟨options, before, offset, openQuote⟩ := s
      obtain rfl := Option.map_eq_none_iff.mp hbyte
      obtain rfl := hrest
      have hstarts : startsQuote options b = true := startsQuote_iff.mpr ⟨hquote, henabled⟩
      have hslash : startsEscape options b = false := by
        rw [← Bool.not_eq_true, startsEscape_iff]
        rintro ⟨rfl, -⟩
        exact absurd hquote (by decide)
      simp only [next, List.cons_append, List.nil_append, unquoted, hslash, hstarts]
      rfl
  | closes b rest =>
      obtain ⟨options, before, offset, openQuote⟩ := s
      obtain ⟨⟨opened, start⟩, rfl, rfl⟩ := Option.map_eq_some_iff.mp hbyte
      obtain rfl := hrest
      simp only [next, List.cons_append, List.nil_append, quoted]
      rfl
  | character quote c rest henabled =>
      refine next_element hsound hrest henabled ?_ ?_ (helement rfl rfl)
      · exact String.utf8EncodeChar_ne_nil
      · rw [Utf8.elementWidth, Utf8.decodeChar?_encodeChar, String.length_utf8EncodeChar]
  | @malformed quote b rest henabled hbad =>
      have hnone : Utf8.decodeChar? (b :: rest) = none := by
        rw [Option.eq_none_iff_forall_ne_some]
        intro c hc
        obtain ⟨more, hmore⟩ := Utf8.decodeChar?_eq_some_iff.mp hc
        exact hbad c ⟨more, hmore.symm⟩
      refine next_element hsound hrest henabled (List.cons_ne_nil _ _) ?_ (helement rfl rfl)
      rw [List.singleton_append, Utf8.elementWidth, hnone]
      rfl

/-- Punctuation. -/
lemma next_punctuation (hclosed : s.openQuote = none) (h : Stands s.options none kind text rest)
    (hrest : s.rest = text ++ rest) (hquote : kind ≠ .quote) (hescape : kind ≠ .escape) :
    s.next = (.ok (some ⟨kind, s.offset, text⟩), s.behind text rest) := by
  have hbyte : s.quoteByte = none := by rw [quoteByte, hclosed]; rfl
  have hliteral : kind ≠ .literal := by
    rintro rfl
    cases h
  have hsound : s.Sound := by simp [Sound, hclosed]
  rw [next_stands hsound hrest (hbyte ▸ h) fun _ => ⟨hliteral, fun hkind => absurd hkind hescape⟩,
    past_of_ne_quote hquote]

/-- **A scanner hands out the token of the grammar.** -/
theorem next_of_lexeme (hsound : s.Sound) (hrest : s.rest = text ++ rest)
    (h : Lexeme s.options s.quoteByte kind text rest)
    (hstrict : s.options.strict = true → Strictly kind text) :
    s.next = (.ok (some ⟨kind, s.offset, text⟩), s.past ⟨kind, s.offset, text⟩ rest) := by
  cases h with
  | stands h => exact next_stands hsound hrest h hstrict
  | backslash henabled =>
      have hpermissive : s.options.strict = false := by
        rw [← Bool.not_eq_true]
        exact fun hmode => (hstrict hmode).1 rfl
      have hemit := emit_append hrest .literal
      rw [next_escape hsound hrest henabled, past_of_ne_quote (by simp), ← hemit, escape, hrest,
        List.append_nil]
      simp [hpermissive]
  | run hne hrun hstop =>
      have hpermissive : s.options.strict = false := by
        rw [← Bool.not_eq_true]
        exact fun hmode => (hstrict hmode).1 rfl
      have hrun' : ∀ before behind, text = before ++ behind → behind ≠ [] →
          special s.options s.quoteByte (behind ++ rest) = false := by
        intro before behind htext hbehind
        rw [← Bool.not_eq_true]
        exact fun hspecial => hrun before behind htext hbehind (interrupted_iff.mpr (Or.inr hspecial))
      obtain ⟨b, text, rfl⟩ := List.exists_cons_of_ne_nil hne
      have hemit := emit_append hrest .literal
      have hlength := runLength_append hrun' (interrupted_iff.mp hstop)
      rw [next_literal (hrun' [] _ rfl hne) hrest, literal, hpermissive, hrest, hlength,
        past_of_ne_quote (by simp), ← hemit]
      rfl

/-- **Where something is left, there is a token.** -/
theorem exists_lexeme (options : CompileOptions) (quote : Option UInt8) (hne : bytes ≠ []) :
    ∃ kind text rest, bytes = text ++ rest ∧ Lexeme options quote kind text rest := by
  by_cases hinterrupted : Interrupted options quote bytes
  · rcases hinterrupted with rfl | ⟨rfl, henabled⟩ | ⟨kind, text, rest, hbytes, h⟩
    · exact absurd rfl hne
    · exact ⟨_, _, _, (List.append_nil _).symm, .backslash henabled⟩
    · exact ⟨kind, text, rest, hbytes, .stands h⟩
  · set n := runLength (special options quote) bytes with hn
    have hsplit := (List.take_append_drop n bytes).symm
    have hstop := (runLength_stops (special options quote) bytes).2
    refine ⟨.literal, bytes.take n, bytes.drop n, hsplit, .run ?_ ?_ ?_⟩
    · intro htake
      rw [htake, List.nil_append] at hsplit
      rw [hsplit] at hinterrupted
      exact hinterrupted (interrupted_iff.mpr hstop)
    · intro before behind htext hbehind hstops
      have hspecial := not_special_run htext hbehind
      rcases interrupted_iff.mp hstops with hnil | hyes
      · exact hbehind (List.append_eq_nil_iff.mp hnil).1
      · rw [hspecial] at hyes
        cases hyes
    · exact interrupted_iff.mpr hstop

/-- **Permissive reading hands out nothing else.** -/
theorem lexeme_of_next (hsound : s.Sound) (hpermissive : s.options.strict = false)
    (h : s.next = (.ok (some t), s')) :
    ∃ rest, s.rest = t.text ++ rest ∧ Lexeme s.options s.quoteByte t.kind t.text rest ∧
      t.start = s.offset ∧ s' = s.past t rest := by
  have hne : s.rest ≠ [] := by
    obtain ⟨htext, hrest⟩ := splits_next s t s' h
    rw [hrest]
    exact List.append_ne_nil_of_left_ne_nil htext _
  obtain ⟨kind, text, rest, hrest, hlexeme⟩ := exists_lexeme s.options s.quoteByte hne
  have hnext := next_of_lexeme hsound hrest hlexeme (by simp [hpermissive])
  rw [h] at hnext
  cases hnext
  exact ⟨rest, hrest, hlexeme, rfl, rfl⟩

end Scanner

end BraceExpansion
