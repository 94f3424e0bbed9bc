import BraceExpansion.Proofs.Expansion
import BraceExpansion.Proofs.Nesting.Choice

/-!
# Expansion is compositional

A pattern that leaves nothing open, `SelfContained`, can be put before any other: every expansion of the
first is followed by every expansion of the second.  Two of them between braces, with a comma between
them, expand to what the first expands to and then to what the second expands to
(**`expansionsOf_compositional`**).

Tokens can change where two patterns meet.  Expansions do not, since what changes is text:

* `patternMeaning_plain` — a byte that is not special stands for itself, whether it becomes part of the
  literal that follows, of two dots, or a literal of its own.
* `patternMeaning_escape` — a backslash and a byte stand for the byte, whether or not a character starts
  with it that goes on behind.

So the literals and escapes at the end of a pattern stand for the same with anything behind them
(`Scanner.Reads.patternMeaning_loose`), and the tokens before these do not change.
-/

namespace BraceExpansion

variable {options : CompileOptions} {expand : ExpandOptions} {b : UInt8} {text bytes rest : Bytes}

/-! ## Bytes at the start of a pattern -/

/-- A byte that is not special by itself, outside quotes. -/
def PlainByte (options : CompileOptions) (b : UInt8) : Prop :=
  Scanner.special options none [b] = false

lemma plainByte_of_not_special (h : Scanner.special options none (b :: bytes) = false) :
    PlainByte options b := by
  rw [Scanner.special_cons, Bool.or_eq_false_iff] at h
  exact h.1

/-- Only ASCII bytes are special. -/
lemma plainByte_of_not_ascii (h : 0x80 ≤ b.toNat) : PlainByte options b := by
  have hne : ∀ a : UInt8, a.toNat ≤ 0x7F → b ≠ a := by
    rintro a ha rfl
    omega
  have hescape : Scanner.startsEscape options b = false := by
    rw [← Bool.not_eq_true]
    intro hstarts
    have hlow := Scanner.toNat_le_of_startsEscape hstarts
    omega
  have hquote : Scanner.startsQuote options b = false := by
    rw [← Bool.not_eq_true]
    intro hstarts
    have hlow := Scanner.toNat_le_of_isQuote (Scanner.isQuote_of_startsQuote hstarts)
    omega
  simp [PlainByte, Scanner.special, Scanner.isSpecial, Scanner.startsRange, hescape, hquote,
    hne Ascii.openBrace (by decide), hne Ascii.comma (by decide), hne Ascii.closeBrace (by decide)]

lemma meaning_single (options : CompileOptions) (expand : ExpandOptions) {t : Token}
    (hquote : t.kind ≠ .quote) (hopening : t.kind ≠ .opening) :
    (nest [t]).levels = [] ∧ meaning options expand [t] = [t.shown expand] := by
  have hnest : nest [t] = ⟨[.token t], []⟩ := by
    obtain ⟨kind, start, text⟩ := t
    cases kind with
    | quote => exact absurd rfl hquote
    | opening => exact absurd rfl hopening
    | literal | escape | delimiter | range | closing => rfl
  have hsettle : Token.settleQuotes false [t] = [t] :=
    Token.settleQuotes_of_no_quote (by simpa using hquote) false
  refine ⟨by rw [hnest], ?_⟩
  rw [meaning_of_paired (by rw [hnest]) hsettle, hnest]
  simp [Item.meaning_token]

/-- A token that opens nothing stands for itself. -/
lemma patternMeaning_lexeme {kind : TokenKind} (hpermissive : options.strict = false)
    (h : Lexeme options none kind text rest) (hquote : kind ≠ .quote) (hopening : kind ≠ .opening)
    (expand : ExpandOptions) : patternMeaning options expand (text ++ rest)
      = Expansions.cross [Token.shown expand ⟨kind, 0, text⟩] (patternMeaning options expand rest) := by
  set s : Scanner := ⟨options, text ++ rest, 0, none⟩
  have hnext := Scanner.next_of_lexeme (s := s) (Scanner.sound_of_closed rfl) rfl h
    fun hstrict => by simp [s, hpermissive] at hstrict
  rw [Scanner.past_of_ne_quote hquote] at hnext
  obtain ⟨hpaired, hmeaning⟩ := meaning_single options expand (t := ⟨kind, s.offset, text⟩)
    hquote hopening
  have hcross := (Scanner.Reads.cons hnext (.nil _)).patternMeaning_append rfl rfl hpaired hpermissive
    expand
  rw [hmeaning] at hcross
  exact hcross

/-- A plain byte that is not the first of two dots. -/
lemma patternMeaning_plain_apart (hpermissive : options.strict = false) (hb : PlainByte options b)
    (hdots : Scanner.startsRange (b :: bytes) = false) (expand : ExpandOptions) :
    patternMeaning options expand (b :: bytes)
      = Expansions.cross [[b]] (patternMeaning options expand bytes) := by
  have hfirst : ¬ Interrupted options none (b :: bytes) := by
    rw [interrupted_iff, or_iff_right (List.cons_ne_nil _ _), Scanner.special_cons, hb, hdots]
    simp
  by_cases hstop : Interrupted options none bytes
  · -- a literal of its own
    have hlexeme : Lexeme options none .literal [b] bytes := by
      refine .run (List.cons_ne_nil _ _) ?_ hstop
      intro before behind htext hbehind
      rcases List.singleton_eq_append_iff.mp htext with ⟨-, rfl⟩ | ⟨-, rfl⟩
      · exact hfirst
      · exact absurd rfl hbehind
    exact patternMeaning_lexeme hpermissive hlexeme (by simp) (by simp) expand
  · -- the start of the literal that is there without it
    have hne : bytes ≠ [] := by
      rintro rfl
      exact hstop (Or.inl rfl)
    obtain ⟨kind, text, rest, rfl, hlexeme⟩ := Scanner.exists_lexeme options none hne
    cases hlexeme with
    | stands h => exact absurd (Or.inr (Or.inr ⟨kind, text, rest, rfl, h⟩)) hstop
    | backslash henabled => exact absurd (Or.inr (Or.inl ⟨rfl, henabled⟩)) hstop
    | run hne hrun hend =>
        have hlonger : Lexeme options none .literal (b :: text) rest := by
          refine .run (List.cons_ne_nil _ _) ?_ hend
          intro before behind htext hbehind
          cases before with
          | nil =>
              rw [List.nil_append] at htext
              rw [← htext]
              exact hfirst
          | cons a before => exact hrun before behind (List.cons.inj htext).2 hbehind
        have hwhole := patternMeaning_lexeme hpermissive hlonger (by simp) (by simp) expand
        rw [patternMeaning_lexeme hpermissive (.run hne hrun hend) (by simp) (by simp),
          ← Expansions.cross_assoc]
        exact hwhole

/-- **A byte that is not special stands for itself.** -/
theorem patternMeaning_plain (hpermissive : options.strict = false) (hb : PlainByte options b)
    (expand : ExpandOptions) (bytes : Bytes) : patternMeaning options expand (b :: bytes)
      = Expansions.cross [[b]] (patternMeaning options expand bytes) := by
  induction bytes generalizing b with
  | nil => exact patternMeaning_plain_apart hpermissive hb (by simp [Scanner.startsRange]) expand
  | cons a bytes ih =>
      cases hdots : Scanner.startsRange (b :: a :: bytes) with
      | false => exact patternMeaning_plain_apart hpermissive hb hdots expand
      | true =>
          -- the second dot by itself is text, too
          obtain ⟨rfl, ha⟩ := Scanner.startsRange_cons.mp hdots
          obtain rfl : a = Ascii.dot := Option.some.inj ha
          have hlexeme : Lexeme options none .range [Ascii.dot, Ascii.dot] bytes :=
            .stands (.range bytes)
          have hboth := patternMeaning_lexeme hpermissive hlexeme (by simp) (by simp) expand
          rw [ih hb, ← Expansions.cross_assoc]
          exact hboth

lemma patternMeaning_text (hpermissive : options.strict = false)
    (htext : ∀ b ∈ text, PlainByte options b) (expand : ExpandOptions) (bytes : Bytes) :
    patternMeaning options expand (text ++ bytes)
      = Expansions.cross [text] (patternMeaning options expand bytes) := by
  induction text with
  | nil => rw [List.nil_append, Expansions.one_cross]
  | cons b text ih =>
      rw [List.cons_append, patternMeaning_plain hpermissive (htext b List.mem_cons_self),
        ih fun a ha => htext a (List.mem_cons_of_mem _ ha), ← Expansions.cross_assoc]
      rfl

/-! ## Escapes at the start of a pattern -/

/-- Behind its first byte a character has no ASCII bytes. -/
lemma exists_encodeChar_cons (c : Char) :
    ∃ b tail, String.utf8EncodeChar c = b :: tail ∧ ∀ a ∈ tail, 0x80 ≤ a.toNat := by
  by_cases hlow : c.toNat ≤ 0x7F
  · exact ⟨_, [], Utf8.encodeChar_ascii hlow, by simp⟩
  · have hhigh := Utf8.encodeChar_not_ascii (c := c) (by omega)
    obtain ⟨b, tail, hchar⟩ := List.exists_cons_of_ne_nil (String.utf8EncodeChar_ne_nil (c := c))
    rw [hchar] at hhigh
    exact ⟨b, tail, hchar, fun a ha => hhigh a (List.mem_cons_of_mem _ ha)⟩

/-- What stands behind the second byte of an escape is written as it is. -/
lemma shown_escape_append (expand : ExpandOptions) (b : UInt8) (tail : Bytes) :
    expand.shown .escape (Ascii.backslash :: b :: tail)
      = expand.shown .escape [Ascii.backslash, b] ++ tail := by
  unfold ExpandOptions.shown
  cases expand.keepEscape <;> simp

/-- **A backslash and a byte stand for the byte**, or for both if escapes are kept. -/
theorem patternMeaning_escape (hpermissive : options.strict = false)
    (henabled : options.ignoreEscape = false) (expand : ExpandOptions) (b : UInt8) (bytes : Bytes) :
    patternMeaning options expand (Ascii.backslash :: b :: bytes)
      = Expansions.cross [expand.shown .escape [Ascii.backslash, b]]
        (patternMeaning options expand bytes) := by
  by_cases hchar : ∃ c : Char, String.utf8EncodeChar c <+: b :: bytes
  · -- the rest of the character would be text without its first byte
    obtain ⟨c, rest, hrest⟩ := hchar
    obtain ⟨a, tail, htail, hhigh⟩ := exists_encodeChar_cons c
    have hlexeme := Lexeme.stands (.character none c rest henabled)
    rw [htail] at hrest hlexeme
    obtain ⟨rfl, rfl⟩ := List.cons.inj hrest
    have hescape := patternMeaning_lexeme hpermissive hlexeme (by simp) (by simp) expand
    have htext := patternMeaning_text hpermissive (fun a ha => plainByte_of_not_ascii (hhigh a ha))
      expand rest
    calc patternMeaning options expand (Ascii.backslash :: a :: (tail ++ rest))
        = Expansions.cross [expand.shown .escape (Ascii.backslash :: a :: tail)]
            (patternMeaning options expand rest) := hescape
      _ = Expansions.cross (Expansions.cross [expand.shown .escape [Ascii.backslash, a]] [tail])
            (patternMeaning options expand rest) := by rw [shown_escape_append]; rfl
      _ = Expansions.cross [expand.shown .escape [Ascii.backslash, a]]
            (patternMeaning options expand (tail ++ rest)) := by
          rw [Expansions.cross_assoc]
          exact congrArg _ htext.symm
  · have hlexeme := Lexeme.stands (.malformed none henabled (not_exists.mp hchar))
    exact patternMeaning_lexeme hpermissive hlexeme (by simp) (by simp) expand

lemma Lexeme.escape_eq {quote : Option UInt8} (h : Lexeme options quote .escape text rest) :
    options.ignoreEscape = false ∧
      ∃ b tail, text = Ascii.backslash :: b :: tail ∧ ∀ a ∈ tail, 0x80 ≤ a.toNat := by
  cases h with
  | stands h =>
      cases h with
      | character quote c rest henabled =>
          obtain ⟨b, tail, hchar, hhigh⟩ := exists_encodeChar_cons c
          exact ⟨henabled, b, tail, by rw [hchar], hhigh⟩
      | @malformed quote b rest henabled hbad => exact ⟨henabled, b, [], rfl, by simp⟩

/-! ## The end of a pattern -/

namespace Scanner

variable {s s' : Scanner} {ts : List Token}

/-- A literal that is no backslash at the end holds plain bytes. -/
lemma plain_of_literal {t : Token} (hkind : t.kind = .literal)
    (h : Lexeme options none t.kind t.text rest) (hlone : rest = [] → ¬ t.Lone options) :
    ∀ b ∈ t.text, PlainByte options b := by
  have hlone' : t.text = [Ascii.backslash] → options.ignoreEscape = false → rest ≠ [] :=
    fun htext henabled hnil => hlone hnil ⟨hkind, htext, henabled⟩
  rw [hkind] at h
  generalize t.text = text at h hlone'
  cases h with
  | stands h => cases h
  | backslash henabled => exact absurd rfl (hlone' rfl henabled)
  | run hne hrun hstop =>
      intro b hb
      obtain ⟨before, behind, rfl⟩ := List.append_of_mem hb
      have hgoes := hrun before (b :: behind) rfl (List.cons_ne_nil _ _)
      rw [List.cons_append, interrupted_iff, or_iff_right (List.cons_ne_nil _ _),
        Bool.not_eq_true] at hgoes
      exact plainByte_of_not_special hgoes

/-- A literal or an escape stands for the same with anything behind it. -/
lemma patternMeaning_token {t : Token} (hpermissive : options.strict = false) (hloose : t.Loose)
    (h : Lexeme options none t.kind t.text rest) (hlone : rest = [] → ¬ t.Lone options)
    (expand : ExpandOptions) (bytes : Bytes) : patternMeaning options expand (t.text ++ bytes)
      = Expansions.cross [t.shown expand] (patternMeaning options expand bytes) := by
  rcases hloose with hkind | hkind
  · have hshown : t.shown expand = t.text := by simp only [Token.shown, hkind]
    rw [patternMeaning_text hpermissive (plain_of_literal hkind h hlone), hshown]
  · rw [hkind] at h
    obtain ⟨henabled, b, tail, htext, hhigh⟩ := h.escape_eq
    have hshown : t.shown expand = expand.shown .escape [Ascii.backslash, b] ++ tail := by
      rw [← shown_escape_append]
      simp only [Token.shown, hkind, htext]
    rw [htext, List.cons_append, List.cons_append, patternMeaning_escape hpermissive henabled,
      patternMeaning_text hpermissive fun a ha => plainByte_of_not_ascii (hhigh a ha),
      ← Expansions.cross_assoc, hshown]
    rfl

/-- **Literals and escapes at the end of a pattern stand for the same with anything behind them.** -/
theorem Reads.patternMeaning_loose (h : s.Reads ts s') (hrest : s'.rest = [])
    (hclosed : s.openQuote = none) (hpermissive : s.options.strict = false)
    (hloose : ∀ t ∈ ts, t.Loose) (hlone : ∀ t ∈ ts.getLast?, ¬ t.Lone s.options)
    (expand : ExpandOptions) (more : Bytes) : patternMeaning s.options expand (s.rest ++ more)
      = Expansions.cross [ts.flatMap (Token.shown expand)] (patternMeaning s.options expand more) := by
  induction h with
  | nil s => rw [hrest, List.nil_append, List.flatMap_nil, Expansions.one_cross]
  | @cons s s₁ s' t ts hnext hmore ih =>
      have hsound := sound_of_closed hclosed
      obtain ⟨rest, hsplit, hlexeme, -, hs₁⟩ := lexeme_of_next hsound hpermissive hnext
      have hquote : s.quoteByte = none := by rw [quoteByte, hclosed]; rfl
      have hkind : t.kind ≠ .quote := by
        rcases hloose t List.mem_cons_self with hkind | hkind <;> simp [hkind]
      rw [past_of_ne_quote hkind] at hs₁
      have hrest₁ : s₁.rest = rest := by rw [hs₁]; rfl
      have hoptions : s₁.options = s.options := by rw [hs₁]; rfl
      have hlone' : ∀ u ∈ ts.getLast?, ¬ u.Lone s₁.options := by
        intro u hu
        rw [hoptions]
        exact hlone u (by rw [List.getLast?_cons, Option.mem_def.mp hu]; rfl)
      have hbehind := ih hrest (by rw [hs₁]; exact hclosed) (hoptions ▸ hpermissive)
        (fun u hu => hloose u (List.mem_cons_of_mem _ hu)) hlone'
      rw [hrest₁, hoptions] at hbehind
      have hend : rest = [] → ¬ t.Lone s.options := by
        intro hnil
        have hlength := hmore.length_le
        rw [hrest₁, hnil, List.length_nil] at hlength
        have hts : ts = [] := List.length_eq_zero_iff.mp (by omega)
        exact hlone t (by simp [hts])
      rw [hquote] at hlexeme
      rw [hsplit, List.append_assoc,
        patternMeaning_token hpermissive (hloose t List.mem_cons_self) hlexeme hend, hbehind,
        ← Expansions.cross_assoc, List.flatMap_cons]
      rfl

/-- Tokens that are no quotes leave no quote open that was not open before. -/
lemma Reads.closed_of_loose (h : s.Reads ts s') (hloose : ∀ t ∈ ts, t.Loose)
    (hclosed : s'.openQuote = none) : s.openQuote = none := by
  have hnone : ∀ t ∈ ts, t.kind ≠ .quote := by
    intro t ht
    rcases hloose t ht with hkind | hkind <;> simp [hkind]
  have hsame := h.open_of_no_quote (Token.any_isQuote_eq_false hnone)
  rw [hclosed] at hsame
  exact Option.not_isSome_iff_eq_none.mp (by simp [← hsame])

end Scanner

lemma Nesting.openings_append_inner {ts : List Token} (hinner : ∀ t ∈ ts, t.Inner) (pre : List Token) :
    (nest (pre ++ ts)).levels.map Prod.fst = (nest pre).levels.map Prod.fst := by
  induction ts using List.reverseRecOn with
  | nil => simp
  | append_singleton ts t ih =>
      rw [← List.append_assoc, nest_concat, step_inner (hinner t (by simp)), openings_add,
        ih fun u hu => hinner u (List.mem_append_left _ hu)]

/-- Up to the last token that is neither a literal nor an escape. -/
lemma exists_loose_suffix (ts : List Token) : ∃ pre tail, ts = pre ++ tail ∧
    (∀ t ∈ tail, t.Loose) ∧ ∀ t ∈ pre.getLast?, ¬ t.Loose := by
  induction ts using List.reverseRecOn with
  | nil => exact ⟨[], [], rfl, by simp, by simp⟩
  | append_singleton ts t ih =>
      by_cases hloose : t.Loose
      · obtain ⟨pre, tail, rfl, htail, hpre⟩ := ih
        refine ⟨pre, tail ++ [t], List.append_assoc _ _ _, ?_, hpre⟩
        intro u hu
        rcases List.mem_append.mp hu with hu | hu
        · exact htail u hu
        · rwa [List.mem_singleton.mp hu]
      · exact ⟨ts ++ [t], [], (List.append_nil _).symm, by simp, by simpa using hloose⟩

/-! ## Patterns that leave nothing open -/

/-- A pattern whose tokens leave no quote open, pair every opening brace, and do not end in a backslash
that has nothing to escape. -/
structure SelfContained (options : CompileOptions) (text : Bytes) (ts : List Token) : Prop where
  reads : ∃ s', Scanner.Reads ⟨options, text, 0, none⟩ ts s' ∧ s'.rest = [] ∧ s'.openQuote = none
  paired : (nest ts).levels = []
  final : ∀ t ∈ ts.getLast?, ¬ t.Lone options

namespace SelfContained

variable {a more : Bytes} {ts : List Token}

/-- **What leaves nothing open stands before anything.** -/
theorem patternMeaning_append (h : SelfContained options a ts) (hpermissive : options.strict = false)
    (expand : ExpandOptions) (b : Bytes) :
    patternMeaning options expand (a ++ b)
      = Expansions.cross (patternMeaning options expand a) (patternMeaning options expand b) := by
  obtain ⟨s', hreads, hrest, hclosed⟩ := h.reads
  obtain ⟨pre, tail, rfl, hloose, hpre⟩ := exists_loose_suffix ts
  obtain ⟨s₁, hfirst, hlast⟩ := hreads.of_append
  have hclosed₁ : s₁.openQuote = none := hlast.closed_of_loose hloose hclosed
  have hoptions₁ : s₁.options = options := hfirst.options_eq
  have hinner : ∀ t ∈ tail, t.Inner := fun t ht => (hloose t ht).imp_right Or.inl
  have hpaired : (nest pre).levels = [] := by
    have hsame := Nesting.openings_append_inner hinner pre
    rw [h.paired] at hsame
    exact List.map_eq_nil_iff.mp hsame.symm
  have hlone : ∀ t ∈ tail.getLast?, ¬ t.Lone s₁.options := by
    intro t ht
    rw [hoptions₁]
    exact h.final t (by rw [List.getLast?_append, Option.mem_def.mp ht]; rfl)
  -- the same factor, whatever stands behind
  have hfactor : ∀ more, patternMeaning options expand (a ++ more)
      = Expansions.cross (Expansions.cross (meaning options expand pre)
          [tail.flatMap (Token.shown expand)]) (patternMeaning options expand more) := by
    intro more
    have hlonger : Scanner.Longer ⟨options, a, 0, none⟩ ⟨options, a ++ more, 0, none⟩ more :=
      ⟨Scanner.sound_of_closed rfl, rfl, rfl, rfl⟩
    obtain ⟨us, u, hus, hcontent, hlonger₁⟩ := hfirst.extend (Scanner.sound_of_closed rfl) hpermissive
      hlonger fun _ t ht hloose => absurd hloose (hpre t ht)
    have hpaired' : (nest us).levels = [] :=
      Nesting.paired_congr hpaired (Token.kinds_of_content hcontent).symm
    have hsplit := hus.patternMeaning_append rfl (hlonger₁.closed hclosed₁) hpaired' hpermissive expand
    have hend := hlast.patternMeaning_loose hrest hclosed₁ (hoptions₁ ▸ hpermissive) hloose hlone
      expand more
    rw [hoptions₁] at hend
    dsimp only at hsplit
    rw [hsplit, hus.meaning_congr rfl hfirst rfl hcontent, hlonger₁.rest_eq, hend,
      Expansions.cross_assoc]
  have hnil : patternMeaning options expand [] = [[]] :=
    (Scanner.Reads.nil ⟨options, [], 0, none⟩).patternMeaning_eq rfl rfl hpermissive expand
  have hself := hfactor []
  rw [List.append_nil, hnil, Expansions.cross_one] at hself
  rw [hfactor, hself]

/-- Such a pattern in front of a comma or a closing brace. -/
lemma reads_before (h : SelfContained options a ts) (more : Bytes)
    (hpermissive : options.strict = false)
    (hmore : more.head? = some Ascii.comma ∨ more.head? = some Ascii.closeBrace) {s : Scanner}
    (hoptions : s.options = options) (hclosed : s.openQuote = none) (hrest : s.rest = a ++ more) :
    ∃ us s', s.Reads us s' ∧ s'.rest = more ∧ s'.options = options ∧ s'.openQuote = none ∧
      us.map Token.kind = ts.map Token.kind ∧ Token.settleQuotes false us = us ∧
      ∀ expand, meaning options expand us = patternMeaning options expand a := by
  obtain ⟨u, hreads, hend, hshut⟩ := h.reads
  have hlonger : Scanner.Longer ⟨options, a, 0, none⟩ s more :=
    ⟨Scanner.sound_of_closed hclosed, hoptions, by rw [Scanner.quoteByte, hclosed]; rfl, hrest⟩
  have hseals : Scanner.Seals ts u more := by
    intro t ht _
    refine ⟨hend, hshut, ?_, hmore⟩
    rw [hreads.options_eq]
    exact h.final t ht
  obtain ⟨us, s', hus, hcontent, hlonger'⟩ := hreads.extend (Scanner.sound_of_closed rfl) hpermissive
    hlonger fun _ => hseals
  have hclosed' : s'.openQuote = none := hlonger'.closed hshut
  refine ⟨us, s', hus, ?_, hus.options_eq.trans hoptions, hclosed', Token.kinds_of_content hcontent,
    ?_, ?_⟩
  · rw [hlonger'.rest_eq, hend, List.nil_append]
  · have hsettle := hus.settleQuotes_of_closed (by rw [hclosed']; rfl)
    rwa [hclosed] at hsettle
  · intro expand
    rw [hus.meaning_congr hclosed hreads rfl hcontent]
    exact (hreads.patternMeaning_eq hend rfl hpermissive expand).symm

end SelfContained

/-- **Two patterns between braces stand for what they stand for by themselves.** -/
theorem SelfContained.patternMeaning_alternation {a b : Bytes} {ts us : List Token}
    (ha : SelfContained options a ts) (hb : SelfContained options b us)
    (hbareA : Nesting.Bare (nest ts).ground) (hbareB : Nesting.Bare (nest us).ground)
    (hpermissive : options.strict = false) (expand : ExpandOptions) :
    patternMeaning options expand (alternation [a, b])
      = patternMeaning options expand a ++ patternMeaning options expand b := by
  set s : Scanner := ⟨options, alternation [a, b], 0, none⟩
  have hs : s.rest = [Ascii.openBrace] ++ (a ++ Ascii.comma :: (b ++ [Ascii.closeBrace])) := by
    simp [s, alternation]
  have hopening := Scanner.next_punctuation rfl (.opening _) hs (by simp) (by simp)
  obtain ⟨as, s₁, hfirst, hrest₁, hoptions₁, hclosed₁, hkindsA, hsettleA, hmeaningA⟩ :=
    ha.reads_before (Ascii.comma :: (b ++ [Ascii.closeBrace])) (s := s.behind _ _) hpermissive
      (Or.inl rfl) rfl rfl rfl
  have hcomma := Scanner.next_punctuation hclosed₁ (.delimiter _) hrest₁ (by simp) (by simp)
  obtain ⟨bs, s₂, hsecond, hrest₂, hoptions₂, hclosed₂, hkindsB, hsettleB, hmeaningB⟩ :=
    hb.reads_before [Ascii.closeBrace] (s := s₁.behind _ _) hpermissive (Or.inr rfl) hoptions₁
      hclosed₁ rfl
  have hclosing := Scanner.next_punctuation hclosed₂ (.closing _) hrest₂ (by simp) (by simp)
  set opening : Token := ⟨.opening, s.offset, [Ascii.openBrace]⟩
  set comma : Token := ⟨.delimiter, s₁.offset, [Ascii.comma]⟩
  set closing : Token := ⟨.closing, s₂.offset, [Ascii.closeBrace]⟩
  have hall : s.Reads (opening :: as ++ ([(comma, bs)].flatMap fun part => part.1 :: part.2)
      ++ [closing]) (s₂.behind [Ascii.closeBrace] []) := by
    have hreads := Scanner.Reads.cons hopening
      (hfirst.append (.cons hcomma (hsecond.append (.cons hclosing (.nil _)))))
    simpa using hreads
  have hpartA : Nesting.Part as := Nesting.Part.congr ⟨ha.paired, hbareA⟩ hkindsA.symm
  have hpartB : Nesting.Part bs := Nesting.Part.congr ⟨hb.paired, hbareB⟩ hkindsB.symm
  have hsettle := hall.settleQuotes_of_closed (by rw [Scanner.behind, hclosed₂]; rfl)
  have hchoice := meaning_choice options expand rfl rfl hpartA (List.cons_ne_nil (comma, bs) [])
    (by simp [comma, hpartB]) rfl hsettle (by simp [hsettleA, hsettleB])
  have hpattern := hall.patternMeaning_eq rfl rfl hpermissive expand
  rw [hchoice] at hpattern
  simpa [hmeaningA, hmeaningB] using hpattern

/-- **Expansion is compositional.**  In front of any pattern a self-contained one is followed by it in
every combination, the first varying slowest; and two self-contained patterns between braces, without
commas and unpaired braces of their own, come one after the other. -/
theorem expansionsOf_compositional (hpermissive : options.strict = false) (expand : ExpandOptions)
    {a : Bytes} {ts : List Token} (ha : SelfContained options a ts) :
    (∀ b : Bytes, (a ++ b).length ≤ maxPatternLength →
      ∃ xs ys, expansionsOf options expand a = .ok xs ∧ expansionsOf options expand b = .ok ys ∧
        expansionsOf options expand (a ++ b) = .ok (xs.flatMap fun x => ys.map (x ++ ·))) ∧
    ∀ (b : Bytes) (us : List Token), SelfContained options b us → Nesting.Bare (nest ts).ground →
      Nesting.Bare (nest us).ground → (alternation [a, b]).length ≤ maxPatternLength →
      ∃ xs ys, expansionsOf options expand a = .ok xs ∧ expansionsOf options expand b = .ok ys ∧
        expansionsOf options expand (alternation [a, b]) = .ok (xs ++ ys) := by
  refine ⟨?_, ?_⟩
  · intro b hlength
    have hboth := hlength
    rw [List.length_append] at hboth
    refine ⟨_, _, expansionsOf_eq hpermissive expand (by omega),
      expansionsOf_eq hpermissive expand (by omega), ?_⟩
    rw [expansionsOf_eq hpermissive expand hlength, ha.patternMeaning_append hpermissive]
    rfl
  · intro b us hb hbareA hbareB hlength
    have hboth := hlength
    simp [alternation] at hboth
    refine ⟨_, _, expansionsOf_eq hpermissive expand (by omega),
      expansionsOf_eq hpermissive expand (by omega), ?_⟩
    rw [expansionsOf_eq hpermissive expand hlength,
      ha.patternMeaning_alternation hb hbareA hbareB hpermissive]

/-- `{a,b}.` in front of `.{`, where two dots meet and a brace stays open, and between braces with
`1..2`, which is no range there. -/
theorem expansionsOf_compositional_dots :
    let a : Bytes := [0x7B, 0x61, 0x2C, 0x62, 0x7D, 0x2E]
    let b : Bytes := [0x31, 0x2E, 0x2E, 0x32]
    expansionsOf {} {} (a ++ [0x2E, 0x7B])
      = .ok [[0x61, 0x2E, 0x2E, 0x7B], [0x62, 0x2E, 0x2E, 0x7B]] ∧
    expansionsOf {} {} (alternation [a, b]) = .ok [[0x61, 0x2E], [0x62, 0x2E], [0x31, 0x2E, 0x2E, 0x32]] := by
  intro a b
  let block : List Token := [⟨.opening, 0, [0x7B]⟩, ⟨.literal, 1, [0x61]⟩, ⟨.delimiter, 2, [0x2C]⟩,
    ⟨.literal, 3, [0x62]⟩, ⟨.closing, 4, [0x7D]⟩, ⟨.literal, 5, [0x2E]⟩]
  let dots : List Token := [⟨.literal, 0, [0x31]⟩, ⟨.range, 1, [0x2E, 0x2E]⟩, ⟨.literal, 3, [0x32]⟩]
  let start : List Token := [⟨.literal, 0, [0x2E]⟩, ⟨.opening, 1, [0x7B]⟩]
  have hblock : Scanner.Reads ⟨{}, a, 0, none⟩ block ⟨{}, [], 6, none⟩ :=
    .cons rfl <| .cons rfl <| .cons rfl <| .cons rfl <| .cons rfl <| .cons rfl <| .nil _
  have hdots : Scanner.Reads ⟨{}, b, 0, none⟩ dots ⟨{}, [], 4, none⟩ :=
    .cons rfl <| .cons rfl <| .cons rfl <| .nil _
  have hopen : Scanner.Reads ⟨{}, [0x2E, 0x7B], 0, none⟩ start ⟨{}, [], 2, none⟩ :=
    .cons rfl <| .cons rfl <| .nil _
  have ha : SelfContained {} a block := by
    refine ⟨⟨_, hblock, rfl, rfl⟩, rfl, ?_⟩
    rintro t ⟨⟩ ⟨-, htext, -⟩
    exact absurd htext (by decide)
  have hb : SelfContained {} b dots := by
    refine ⟨⟨_, hdots, rfl, rfl⟩, rfl, ?_⟩
    rintro t ⟨⟩ ⟨-, htext, -⟩
    exact absurd htext (by decide)
  have hends : ∀ n, Scanner.Ends ⟨{}, [], n, none⟩ := fun n t ht => by cases ht
  have hexpandA : expansionsOf {} {} a = .ok [[0x61, 0x2E], [0x62, 0x2E]] := by
    rw [expansionsOf_of_reads hblock (hends 6) rfl (by decide), meaning_of_paired rfl rfl]
    simp [block, nest, Nesting.step, Nesting.add, Item.meaning_block, Item.meaning_token,
      Item.alternatives, Item.isComma, List.splitOnP_cons_eq_if_modifyHead, Token.shown,
      Expansions.cross]
  have hexpandB : expansionsOf {} {} b = .ok [[0x31, 0x2E, 0x2E, 0x32]] := by
    rw [expansionsOf_of_reads hdots (hends 4) rfl (by decide), meaning_of_paired rfl rfl]
    simp [dots, nest, Nesting.step, Nesting.add, Item.meaning_token, Token.shown, Expansions.cross]
  have hexpandOpen : expansionsOf {} {} [0x2E, 0x7B] = .ok [[0x2E, 0x7B]] := by
    rw [expansionsOf_of_reads hopen (hends 2) rfl (by decide)]
    simp [start, meaning, Token.settleQuotes, Token.isQuote, nest, Nesting.step, Nesting.add,
      Nesting.items, Item.meaning_token, Token.shown, Expansions.cross]
  have hbareA : Nesting.Bare (nest block).ground := by
    simp [Nesting.Bare, block, nest, Nesting.step, Nesting.add, Item.kind?]
  have hbareB : Nesting.Bare (nest dots).ground := by
    simp [Nesting.Bare, dots, nest, Nesting.step, Nesting.add, Item.kind?]
  obtain ⟨hfront, hbetween⟩ := expansionsOf_compositional rfl {} ha
  obtain ⟨xs, ys, hxs, hys, hjoined⟩ := hfront [0x2E, 0x7B] (by decide)
  obtain ⟨zs, ws, hzs, hws, halternation⟩ := hbetween b dots hb hbareA hbareB (by decide)
  obtain rfl := Except.ok.inj (hexpandA.symm.trans hxs)
  obtain rfl := Except.ok.inj (hexpandOpen.symm.trans hys)
  obtain rfl := Except.ok.inj (hexpandA.symm.trans hzs)
  obtain rfl := Except.ok.inj (hexpandB.symm.trans hws)
  exact ⟨hjoined, halternation⟩

end BraceExpansion
