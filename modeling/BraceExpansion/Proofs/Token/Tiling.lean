import BraceExpansion.Proofs.Token.Grammar

/-!
# The tokens of a pattern tile it

Calling `Scanner.next` again and again on a pattern, without strict reading, gives finitely many tokens
and then the end, for ever.  The tokens are the pattern without gaps, and each of them stands where the
grammar has it: `Token.Placed` says this of one token, with the tokens before it and behind it.

Which quote is open does not have to be asked of the scanner.  It is the last quote of an odd number
of them, `Token.openQuote?`.

**`Scanner.tokens_tile`** says all of this.
-/

namespace BraceExpansion

variable {options : CompileOptions} {t u : Token} {ts before behind : List Token}

/-! ## Where a token stands -/

namespace Token

/-- The quote that some tokens leave open: the last of an odd number of quotes. -/
def openQuote? (ts : List Token) : Option Token :=
  let quotes := ts.filter isQuote
  if quotes.length % 2 = 1 then quotes.getLast? else none

/-- A token that stands where the grammar has it, behind the tokens `before` and in front of the tokens
`behind`. -/
structure Placed (options : CompileOptions) (before : List Token) (t : Token) (behind : List Token) :
    Prop where
  nonempty : t.text ≠ []
  start_eq : t.start = (before.flatMap Token.text).length
  lexeme : Lexeme options ((openQuote? before).bind (·.text.head?)) t.kind t.text
    (behind.flatMap Token.text)
  /-- A quote closes the one that is open with an equal byte. -/
  closes : t.kind = .quote → ∀ q ∈ openQuote? before, t.text = q.text
  /-- Only a backslash that ends the pattern is a literal behind a literal. -/
  apart : t.kind = .literal → ∀ u ∈ behind.head?, u.kind = .literal →
    u.text = [Ascii.backslash] ∧ options.ignoreEscape = false ∧ behind = [u]

/-- A quote opens or closes, and no other token does. -/
lemma openQuote?_concat (ts : List Token) (t : Token) :
    openQuote? (ts ++ [t])
      = if t.isQuote then (if (openQuote? ts).isSome then none else some t) else openQuote? ts := by
  have hsome : (openQuote? ts).isSome = decide ((ts.filter isQuote).length % 2 = 1) := by
    rw [openQuote?]
    cases hquotes : ts.filter isQuote with
    | nil => rfl
    | cons q qs =>
        split
        next hodd => simp only [List.getLast?_cons, Option.isSome_some, hodd, decide_true]
        next heven => simp only [Option.isSome_none, heven, decide_false]
  rw [hsome]
  cases hquote : t.isQuote with
  | false => simp [openQuote?, hquote]
  | true =>
      rcases Nat.mod_two_eq_zero_or_one (ts.filter isQuote).length with heven | hodd
      · simp [openQuote?, List.filter_append, hquote, heven, Nat.add_mod]
      · simp [openQuote?, List.filter_append, hquote, hodd, Nat.add_mod]

end Token

/-! ## Calls in a row -/

namespace Scanner

variable {s s' : Scanner}

/-- The scanner after `n` calls of `next`. -/
def after (s : Scanner) : Nat → Scanner
  | 0 => s
  | n + 1 => s.next.2.after n

lemma after_add (s : Scanner) (m n : Nat) : s.after (m + n) = (s.after m).after n := by
  induction m generalizing s with
  | zero => rw [Nat.zero_add, after]
  | succ m ih => rw [Nat.succ_add, after, after, ih]

lemma Reads.after_eq (h : s.Reads ts s') : s.after ts.length = s' := by
  induction h with
  | nil => rfl
  | cons hnext _ ih => rw [List.length_cons, after, hnext, ih]

lemma after_end (hpermissive : s.options.strict = false) (hrest : s.rest = []) (n : Nat) :
    s.after n = s := by
  induction n with
  | zero => rfl
  | succ n ih => rw [after, next_end hpermissive hrest, ih]

/-- After `n` calls the tokens before the `n`th have been read. -/
lemma Reads.reads_take (h : s.Reads ts s') (hpermissive : s.options.strict = false)
    (hrest : s'.rest = []) (n : Nat) :
    s.Reads (ts.take n) (s.after n) ∧ (s.after n).next.1 = .ok ts[n]? := by
  rw [← List.take_append_drop n ts] at h
  obtain ⟨s₁, htaken, hleft⟩ := h.of_append
  have hreached : s.after n = s₁ := by
    rcases Nat.le_total n ts.length with hn | hn
    · rw [← htaken.after_eq, List.length_take_of_le hn]
    · rw [List.drop_of_length_le hn] at hleft
      cases hleft
      have hsplit : n = (ts.take n).length + (n - ts.length) := by
        rw [List.take_of_length_le hn]
        omega
      rw [hsplit, after_add, htaken.after_eq, after_end (htaken.options_eq ▸ hpermissive) hrest]
  rw [hreached]
  refine ⟨htaken, ?_⟩
  cases hdrop : ts.drop n with
  | nil =>
      rw [hdrop] at hleft
      cases hleft
      have hend := next_end (htaken.options_eq ▸ hpermissive) hrest
      rw [hend, List.getElem?_eq_none (List.drop_eq_nil_iff.mp hdrop)]
  | cons t us =>
      rw [hdrop] at hleft
      cases hleft with
      | cons hnext _ =>
          have htoken : ts[n]? = some t := by
            rw [← List.head?_drop, hdrop, List.head?_cons]
          rw [hnext, htoken]

/-! ## What has been read -/

/-- Where a scanner has come to, from the tokens that it has handed out. -/
structure Past (s : Scanner) (ts : List Token) : Prop where
  sound : s.Sound
  offset_eq : s.offset = (ts.flatMap Token.text).length
  /-- The open quote is the last of an odd number of quotes. -/
  openQuote_eq : s.openQuote
    = (Token.openQuote? ts).bind fun q => q.text.head?.map fun b => (b, q.start)
  /-- What the open quote is spelled with is one byte. -/
  spelled : ∀ q ∈ Token.openQuote? ts, ∃ b, q.text = [b]

lemma past_start (options : CompileOptions) (pattern : Bytes) :
    Past ⟨options, pattern, 0, none⟩ [] where
  sound := by simp [Sound]
  offset_eq := rfl
  openQuote_eq := rfl
  spelled := by simp [Token.openQuote?]

/-- One token more. -/
lemma Past.step (h : s.Past ts) (hnext : s.next = (.ok (some t), s')) : s'.Past (ts ++ [t]) := by
  have htakes := takes_of_next hnext
  have hfollows := follows_of_next hnext
  have hisSome : (Token.openQuote? ts).isSome = s.openQuote.isSome := by
    rw [h.openQuote_eq]
    cases hopen : Token.openQuote? ts with
    | none => rfl
    | some q =>
        obtain ⟨b, hb⟩ := h.spelled q hopen
        rw [Option.bind_some, hb]
        rfl
  refine ⟨htakes.sound h.sound, ?_, ?_, ?_⟩
  · rw [hfollows.offset_eq, h.offset_eq]
    simp
  · rw [Token.openQuote?_concat, hisSome]
    cases htakes with
    | opens hrest hopen hescape hquote => simp [Token.isQuote, hopen]
    | closes hrest hopen => simp [Token.isQuote, hopen]
    | punctuation hrest hopen hkind hspelled hplain =>
        simp only [Token.isQuote, hkind.2.2, decide_false]
        exact h.openQuote_eq
    | escape | backslash | literal => exact h.openQuote_eq
  · intro q hq
    rw [Token.openQuote?_concat, hisSome] at hq
    split at hq
    next hquote =>
      split at hq
      · cases hq
      · cases hq
        obtain ⟨b, -, hb⟩ := (htakes.exact h.sound).2 (of_decide_eq_true hquote)
        exact ⟨b, hb⟩
    · exact h.spelled q hq

lemma Past.reads (hreads : s.Reads ts s') (h : s.Past before) : s'.Past (before ++ ts) := by
  induction hreads generalizing before with
  | nil => simpa using h
  | cons hnext _ ih => simpa using ih (h.step hnext)

lemma Past.quoteByte_eq (h : s.Past ts) :
    s.quoteByte = (Token.openQuote? ts).bind (·.text.head?) := by
  rw [quoteByte, h.openQuote_eq]
  cases Token.openQuote? ts with
  | none => rfl
  | some q => cases hhead : q.text.head? <;> simp [hhead]

/-! ## The tiling -/

/-- A literal behind a literal is a backslash that has nothing to escape. -/
lemma literal_apart (hpermissive : s.options.strict = false) (hsound : s.Sound)
    (h : s.Reads (t :: u :: ts) s') (ht : t.kind = .literal)
    (hu : u.kind = .literal) :
    u.text = [Ascii.backslash] ∧ s.options.ignoreEscape = false ∧ ts = [] := by
  cases h with
  | @cons _ s₁ _ _ _ hnext hmore =>
  have hsound₁ := (takes_of_next hnext).sound hsound
  have hoptions : s₁.options = s.options := (follows_of_next hnext).options_eq
  obtain ⟨rest, -, hlexeme, -, hs₁⟩ := lexeme_of_next hsound hpermissive hnext
  have hbehind : s₁ = s.behind t.text rest := by rw [hs₁, past_of_ne_quote (by simp [ht])]
  have hquote : s₁.quoteByte = s.quoteByte := by rw [hbehind]; rfl
  cases hmore with
  | @cons _ s₂ _ _ _ hnext₁ hmore₁ =>
  obtain ⟨rest₁, hrest₁, hlexeme₁, -, hs₂⟩ :=
    lexeme_of_next hsound₁ (hoptions ▸ hpermissive) hnext₁
  have hrest₀ : rest = u.text ++ rest₁ := by rw [← hrest₁, hbehind]; rfl
  rw [ht] at hlexeme
  rw [hu, hoptions, hquote] at hlexeme₁
  obtain ⟨htext, henabled, hend⟩ := hlexeme₁.resumes (hrest₀ ▸ hlexeme.stops)
  refine ⟨htext, henabled, ?_⟩
  have hlength := hmore₁.length_le
  have hnil : s₂.rest = [] := by rw [hs₂, hend]; rfl
  rw [hnil, List.length_nil] at hlength
  exact List.length_eq_zero_iff.mp (by omega)

/-- A token of a run is placed. -/
lemma Past.placed (hpast : s.Past before) (hpermissive : s.options.strict = false)
    (h : s.Reads (t :: behind) s') (hend : s'.rest = []) : t.Placed s.options before behind := by
  have hapart : t.kind = .literal → ∀ u ∈ behind.head?, u.kind = .literal →
      u.text = [Ascii.backslash] ∧ s.options.ignoreEscape = false ∧ behind = [u] := by
    intro ht u hu hliteral
    obtain ⟨ts, rfl⟩ := List.head?_eq_some_iff.mp hu
    obtain ⟨htext, henabled, rfl⟩ := literal_apart hpermissive hpast.sound h ht hliteral
    exact ⟨htext, henabled, rfl⟩
  cases h with
  | @cons _ s₁ _ _ _ hnext hmore =>
  obtain ⟨rest, hrest, hlexeme, hstart, hs₁⟩ := lexeme_of_next hpast.sound hpermissive hnext
  have hbehind : rest = behind.flatMap Token.text := by
    have htext := hmore.text_eq
    rw [hend, List.append_nil, hs₁] at htext
    exact htext
  rw [hbehind, hpast.quoteByte_eq] at hlexeme
  refine ⟨(splits_next _ _ _ hnext).1, hstart.trans hpast.offset_eq, hlexeme, ?_, hapart⟩
  intro hquote q hq
  obtain ⟨b, hb⟩ := hpast.spelled q hq
  rw [Option.mem_def.mp hq, Option.bind_some, hb, hquote] at hlexeme
  rw [hb]
  cases hlexeme with
  | stands h =>
      generalize t.text = text at h
      cases h with
      | closes => rfl

/-- **Reading tiles a pattern.**  Calls of `next` give the tokens of the pattern and then its end, for
ever; at any time the open quote is the last of an odd number of quotes; and the tokens are the pattern,
each of them placed as the grammar has it. -/
theorem tokens_tile (options : CompileOptions) (pattern : Bytes) (hpermissive : options.strict = false)
    (hlength : pattern.length ≤ maxPatternLength) :
    ∃ s ts, ofPattern options pattern = .ok s ∧
      (∀ n, (s.after n).next.1 = .ok ts[n]? ∧
        (s.after n).openQuoteOffset = (Token.openQuote? (ts.take n)).map Token.start) ∧
      ts.flatMap Token.text = pattern ∧
      ∀ before t behind, ts = before ++ t :: behind → t.Placed options before behind := by
  have hstart := past_start options pattern
  obtain ⟨ts, s', hreads, hends⟩ := exists_reads ⟨options, pattern, 0, none⟩
  have hrest : s'.rest = [] := hends.rest_eq_nil
    (failure?_eq_none (hreads.options_eq ▸ hpermissive))
  refine ⟨⟨options, pattern, 0, none⟩, ts, if_neg (Nat.not_lt.mpr hlength), ?_, ?_, ?_⟩
  · intro n
    obtain ⟨htaken, hnext⟩ := hreads.reads_take hpermissive hrest n
    refine ⟨hnext, ?_⟩
    have hpast : Past _ (ts.take n) := hstart.reads htaken
    rw [openQuoteOffset, hpast.openQuote_eq]
    cases hopen : Token.openQuote? (ts.take n) with
    | none => rfl
    | some q =>
        obtain ⟨b, hb⟩ := hpast.spelled q hopen
        simp [hb]
  · have htext := hreads.text_eq
    rw [hrest, List.append_nil] at htext
    exact htext.symm
  · rintro before t behind rfl
    obtain ⟨s₁, hbefore, hmore⟩ := hreads.of_append
    have hpast : s₁.Past before := hstart.reads hbefore
    have hplaced := hpast.placed (hbefore.options_eq ▸ hpermissive) hmore hrest
    rwa [hbefore.options_eq] at hplaced

/-- `'\'}'..{"\`: a quote with an escape and a brace in it, two dots, and a quote that stays open up to
a backslash at the end. -/
theorem tokens_tile_quoted :
    let pattern : Bytes := [0x27, 0x5C, 0x27, 0x7D, 0x27, 0x2E, 0x2E, 0x7B, 0x22, 0x5C]
    let before : List Token := [⟨.quote, 0, [0x27]⟩, ⟨.escape, 1, [0x5C, 0x27]⟩,
      ⟨.literal, 3, [0x7D]⟩, ⟨.quote, 4, [0x27]⟩, ⟨.range, 5, [0x2E, 0x2E]⟩, ⟨.opening, 7, [0x7B]⟩,
      ⟨.quote, 8, [0x22]⟩]
    let last : Token := ⟨.literal, 9, [0x5C]⟩
    pattern.length ≤ maxPatternLength ∧
      ∃ s, ofPattern {} pattern = .ok s ∧
        (∀ n, (s.after n).next.1 = .ok (before ++ [last])[n]?) ∧
        (s.after 4).openQuoteOffset = none ∧ (s.after 7).openQuoteOffset = some 8 ∧
        (before ++ [last]).flatMap Token.text = pattern ∧ Token.Placed {} before last [] := by
  intro pattern before last
  have hlength : pattern.length ≤ maxPatternLength := by decide
  obtain ⟨s, ts, hs, hcalls, htext, hplaced⟩ := tokens_tile {} pattern rfl hlength
  obtain rfl : ⟨{}, pattern, 0, none⟩ = s := Except.ok.inj hs
  have hreads : Reads ⟨{}, pattern, 0, none⟩ (before ++ [last]) ⟨{}, [], 10, some (0x22, 8)⟩ :=
    .cons rfl <| .cons rfl <| .cons rfl <| .cons rfl <| .cons rfl <| .cons rfl <| .cons rfl <|
    .cons rfl <| .nil _
  obtain rfl : ts = before ++ [last] := by
    refine List.ext_getElem? fun n => ?_
    exact Except.ok.inj ((hcalls n).1.symm.trans (hreads.reads_take rfl rfl n).2)
  exact ⟨hlength, _, hs, fun n => (hcalls n).1, (hcalls 4).2.trans (by decide),
    (hcalls 7).2.trans (by decide), htext, hplaced before last [] rfl⟩

end Scanner

end BraceExpansion
