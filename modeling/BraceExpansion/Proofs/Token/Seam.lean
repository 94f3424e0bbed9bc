import BraceExpansion.Proofs.Text.WellFormed
import BraceExpansion.Proofs.Token.Grammar

/-!
# Tokens in front of more

Writing more behind a pattern can change the tokens that are there.  A literal goes on, a single dot
meets another, a backslash at the end gets something to escape, and a byte with which no character
starts becomes the first of one.

* **`Lexeme.append`** — what has to be known of a literal or an escape for it to stay; every other token
  stays anyway.
* `Scanner.Longer` — a scanner with more to read.
* **`Scanner.Reads.extend`** — a run stays when more follows that does not run into it: behind a brace, a
  comma or a quote anything may follow (`Scanner.Seals`), and behind a literal or an escape a comma or a
  closing brace.

With nothing more to read this says that tokens do not depend on where in a pattern they stand.
-/

namespace BraceExpansion

variable {options : CompileOptions} {quote : Option UInt8} {kind : TokenKind} {b : UInt8}
  {text rest bytes more : Bytes}

/-! ## Special places -/

namespace Scanner

lemma startsRange_cons :
    startsRange (b :: bytes) = true ↔ b = Ascii.dot ∧ bytes.head? = some Ascii.dot := by
  constructor
  · intro h
    obtain ⟨more, hmore⟩ := startsRange_cases h
    obtain ⟨rfl, rfl⟩ := List.cons.inj hmore
    exact ⟨rfl, rfl⟩
  · rintro ⟨rfl, h⟩
    obtain ⟨more, rfl⟩ := List.head?_eq_some_iff.mp h
    rfl

/-- A byte is special by itself, or the first of two dots outside quotes. -/
lemma special_cons : special options quote (b :: bytes)
    = (special options quote [b] || (quote.isNone && startsRange (b :: bytes))) := by
  cases quote with
  | none => simp [special, isSpecial, startsRange]
  | some q => simp [special, isSpecialWithin]

/-- What is behind a byte matters only if it is a dot. -/
lemma special_congr (h : bytes.head? = some Ascii.dot ↔ rest.head? = some Ascii.dot) :
    special options quote (b :: bytes) = special options quote (b :: rest) := by
  have hrange : startsRange (b :: bytes) = startsRange (b :: rest) := by
    rw [Bool.eq_iff_iff, startsRange_cons, startsRange_cons, h]
  rw [special_cons, hrange, ← special_cons]

end Scanner

/-- A place stays special whatever is written behind it. -/
lemma Interrupted.append (hne : bytes ≠ []) (h : Interrupted options quote bytes) (more : Bytes) :
    Interrupted options quote (bytes ++ more) := by
  obtain ⟨b, bytes, rfl⟩ := List.exists_cons_of_ne_nil hne
  rw [interrupted_iff, or_iff_right hne] at h
  refine interrupted_iff.mpr (Or.inr ?_)
  rw [List.cons_append]
  by_cases hdot : bytes.head? = some Ascii.dot
  · have hmore : (bytes ++ more).head? = some Ascii.dot := by rw [List.head?_append, hdot]; rfl
    rwa [Scanner.special_congr (iff_of_true hmore hdot)]
  · have hrange : Scanner.startsRange (b :: bytes) = false := by
      rw [← Bool.not_eq_true, Scanner.startsRange_cons]
      exact fun hdots => hdot hdots.2
    rw [Scanner.special_cons, hrange, Bool.and_false, Bool.or_false] at h
    rw [Scanner.special_cons, h, Bool.true_or]

/-! ## One token -/

/-- No character starts here, either, if there is an ASCII byte before anything new could belong to
one. -/
lemma not_prefix_append (hbad : ∀ c : Char, ¬ String.utf8EncodeChar c <+: b :: rest)
    (hascii : ∃ a ∈ rest ++ more.take 1, a.toNat ≤ 0x7F) (c : Char) :
    ¬ String.utf8EncodeChar c <+: b :: (rest ++ more) := by
  rintro ⟨behind, hbehind⟩
  obtain ⟨a, ha, hlow⟩ := hascii
  -- the bytes before the ASCII byte are old
  have hsplit : ∃ before old new, rest = before ++ old ∧ rest ++ more = before ++ a :: new := by
    rcases List.mem_append.mp ha with ha | ha
    · obtain ⟨before, old, rfl⟩ := List.append_of_mem ha
      exact ⟨before, a :: old, old ++ more, rfl, by simp⟩
    · cases more with
      | nil => cases ha
      | cons m more =>
          obtain rfl : a = m := List.mem_singleton.mp ha
          exact ⟨rest, [], more, (List.append_nil _).symm, rfl⟩
  obtain ⟨before, old, new, rfl, hnew⟩ := hsplit
  have hdecode : Utf8.decodeChar? ((b :: before) ++ (a :: new)) = some c := by
    rw [List.cons_append, ← hnew, ← hbehind]
    exact Utf8.decodeChar?_encodeChar c behind
  have hfirst := Utf8.decodeChar?_of_append (List.cons_ne_nil b before)
    (by rintro _ ⟨⟩; exact hlow) hdecode
  obtain ⟨tail, htail⟩ := Utf8.decodeChar?_eq_some_iff.mp hfirst
  refine hbad c ⟨tail ++ old, ?_⟩
  rw [← List.append_assoc, ← htail, List.cons_append]

/-- **A token stays when more is written behind it**: an escape, if an ASCII byte follows before
anything new could belong to it; and a literal at the end, if it is no backslash that escapes, and
something else starts there. -/
lemma Lexeme.append (h : Lexeme options quote kind text rest)
    (hescape : kind = .escape → ∃ a ∈ rest ++ more.take 1, a.toNat ≤ 0x7F)
    (hliteral : kind = .literal → rest = [] → ¬ (text = [Ascii.backslash] ∧ options.ignoreEscape = false)
      ∧ more.head? ≠ some Ascii.dot ∧ Interrupted options quote more) :
    Lexeme options quote kind text (rest ++ more) := by
  cases h with
  | stands h =>
      cases h with
      | opening => exact .stands (.opening _)
      | delimiter => exact .stands (.delimiter _)
      | closing => exact .stands (.closing _)
      | range => exact .stands (.range _)
      | opens rest hquote henabled => exact .stands (.opens _ hquote henabled)
      | closes b rest => exact .stands (.closes b _)
      | character quote c rest henabled => exact .stands (.character quote c _ henabled)
      | malformed quote henabled hbad =>
          exact .stands (.malformed quote henabled (not_prefix_append hbad (hescape rfl)))
  | backslash henabled => exact absurd ⟨rfl, henabled⟩ (hliteral rfl rfl).1
  | run hne hrun hstop =>
      refine .run hne ?_ ?_
      · intro before behind htext hbehind hinterrupted
        have hold := hrun before behind htext hbehind
        obtain ⟨b, behind, rfl⟩ := List.exists_cons_of_ne_nil hbehind
        rw [interrupted_iff, or_iff_right (by simp)] at hinterrupted hold
        rw [List.cons_append] at hinterrupted hold
        refine hold ?_
        rw [← hinterrupted]
        refine Scanner.special_congr ?_
        by_cases hnil : behind ++ rest = []
        · obtain ⟨rfl, rfl⟩ := List.append_eq_nil_iff.mp hnil
          exact iff_of_false (by simp) (hliteral rfl rfl).2.1
        · rw [← List.append_assoc, List.head?_append_of_ne_nil _ hnil]
      · by_cases hnil : rest = []
        · rw [hnil, List.nil_append]
          exact (hliteral rfl hnil).2.2
        · exact hstop.append hnil more

/-! ## Many tokens -/

namespace Token

/-- What a token is apart from where it stands. -/
def content (t : Token) : TokenKind × Bytes := (t.kind, t.text)

/-- A backslash that has nothing to escape. -/
def Lone (options : CompileOptions) (t : Token) : Prop :=
  t.kind = .literal ∧ t.text = [Ascii.backslash] ∧ options.ignoreEscape = false

/-- The same kinds, if the contents are the same. -/
lemma kinds_of_content {ts us : List Token} (h : ts.map content = us.map content) :
    ts.map Token.kind = us.map Token.kind := by
  have hfst := congrArg (List.map Prod.fst) h
  simpa [content, Function.comp_def] using hfst

/-- A token that what follows can change. -/
def Loose (t : Token) : Prop := t.kind = .literal ∨ t.kind = .escape

end Token

namespace Scanner

variable {s s' u : Scanner} {t : Token} {ts : List Token}

lemma quoteByte_past (s : Scanner) (t : Token) (rest : Bytes) : (s.past t rest).quoteByte =
    match t.kind, s.quoteByte with
    | .quote, none => t.text.head?
    | .quote, some _ => none
    | _, quote => quote := by
  obtain ⟨options, bytes, offset, openQuote⟩ := s
  obtain ⟨kind, start, text⟩ := t
  cases openQuote <;> cases kind <;> simp [past, quoteByte, Function.comp_def]

/-- A scanner that has `more` to read behind what is left for `s`. -/
structure Longer (s u : Scanner) (more : Bytes) : Prop where
  sound : u.Sound
  options_eq : u.options = s.options
  quoteByte_eq : u.quoteByte = s.quoteByte
  rest_eq : u.rest = s.rest ++ more

lemma Longer.closed (h : s.Longer u more) (hclosed : s.openQuote = none) : u.openQuote = none := by
  have hquote := h.quoteByte_eq
  rw [quoteByte, quoteByte, hclosed] at hquote
  exact Option.map_eq_none_iff.mp hquote

/-- What comes behind the tokens `ts`, which lead to `s'`, does not run into the last of them. -/
def Seals (ts : List Token) (s' : Scanner) (more : Bytes) : Prop :=
  ∀ t ∈ ts.getLast?, t.Loose → s'.rest = [] ∧ s'.openQuote = none ∧ ¬ t.Lone s'.options ∧
    (more.head? = some Ascii.comma ∨ more.head? = some Ascii.closeBrace)

lemma Seals.of_cons (h : Seals (t :: ts) s' more) : Seals ts s' more := by
  intro u hu
  refine h u ?_
  rw [List.getLast?_cons, Option.mem_def.mp hu]
  rfl

/-- The text of a token that nothing can change holds an ASCII byte. -/
lemma ascii_of_not_loose (hspelled : t.Spelled) (hexact : t.Exact) (h : ¬ t.Loose) :
    ∃ a ∈ t.text, a.toNat ≤ 0x7F := by
  obtain ⟨kind, start, text⟩ := t
  cases kind with
  | literal => exact absurd (Or.inl rfl) h
  | escape => exact absurd (Or.inr rfl) h
  | quote =>
      obtain ⟨b, hb, rfl⟩ := hexact.2 rfl
      exact ⟨b, List.mem_singleton_self b, toNat_le_of_isQuote hb⟩
  | opening | delimiter | range | closing =>
      obtain rfl := hspelled
      exact ⟨_, List.mem_cons_self, by decide⟩

lemma ascii_of_head (h : more.head? = some Ascii.comma ∨ more.head? = some Ascii.closeBrace) :
    ∃ a ∈ more.take 1, a.toNat ≤ 0x7F := by
  rcases h with h | h
  · obtain ⟨more, rfl⟩ := List.head?_eq_some_iff.mp h
    exact ⟨_, List.mem_cons_self, by decide⟩
  · obtain ⟨more, rfl⟩ := List.head?_eq_some_iff.mp h
    exact ⟨_, List.mem_cons_self, by decide⟩

/-- Between some tokens and something new there is an ASCII byte. -/
lemma Reads.ascii_of_seals (h : s.Reads ts s') (hsound : s.Sound) (hne : ts ≠ [])
    (hseals : Seals ts s' more) : ∃ a ∈ s.rest ++ more.take 1, a.toNat ≤ 0x7F := by
  obtain ⟨t, ht⟩ := Option.isSome_iff_exists.mp (List.getLast?_isSome.mpr hne)
  by_cases hloose : t.Loose
  · obtain ⟨-, -, -, hhead⟩ := hseals t ht hloose
    obtain ⟨a, ha, hlow⟩ := ascii_of_head hhead
    exact ⟨a, List.mem_append_right _ ha, hlow⟩
  · have hmem : t ∈ ts := List.mem_of_getLast? ht
    obtain ⟨a, ha, hlow⟩ := ascii_of_not_loose (h.spelled t hmem) (h.exact hsound t hmem) hloose
    refine ⟨a, List.mem_append_left _ ?_, hlow⟩
    rw [h.text_eq]
    exact List.mem_append_left _ (List.mem_flatMap.mpr ⟨t, hmem, ha⟩)

/-- A comma and a closing brace stop literals outside quotes. -/
lemma interrupted_of_head (h : more.head? = some Ascii.comma ∨ more.head? = some Ascii.closeBrace) :
    more.head? ≠ some Ascii.dot ∧ Interrupted options none more := by
  rcases h with h | h
  · obtain ⟨more, rfl⟩ := List.head?_eq_some_iff.mp h
    refine ⟨?_, Or.inr (Or.inr ⟨_, [_], more, rfl, .delimiter more⟩)⟩
    rintro ⟨⟩
  · obtain ⟨more, rfl⟩ := List.head?_eq_some_iff.mp h
    refine ⟨?_, Or.inr (Or.inr ⟨_, [_], more, rfl, .closing more⟩)⟩
    rintro ⟨⟩

/-- The first token of a run stays. -/
lemma Reads.lexeme_append (hnext : s.next = (.ok (some t), s')) (h : s'.Reads ts u) (hsound : s.Sound)
    (hpermissive : s.options.strict = false) (hseals : more ≠ [] → Seals (t :: ts) u more) :
    ∃ rest, s.rest = t.text ++ rest ∧ s' = s.past t rest ∧
      Lexeme s.options s.quoteByte t.kind t.text (rest ++ more) := by
  obtain ⟨rest, hrest, hlexeme, -, hs'⟩ := lexeme_of_next hsound hpermissive hnext
  have hrest' : s'.rest = rest := by rw [hs']; rfl
  refine ⟨rest, hrest, hs', ?_⟩
  by_cases hnew : more = []
  · rwa [hnew, List.append_nil]
  have hlast : ts = [] → t.Loose → s'.openQuote = none ∧ ¬ t.Lone s.options ∧
      (more.head? = some Ascii.comma ∨ more.head? = some Ascii.closeBrace) := by
    rintro rfl hloose
    cases h
    obtain ⟨-, hclosed, hlone, hhead⟩ := hseals hnew t (by simp) hloose
    have hoptions : s'.options = s.options := by rw [hs']; rfl
    exact ⟨hclosed, hoptions ▸ hlone, hhead⟩
  refine hlexeme.append ?_ ?_
  · intro hkind
    by_cases hts : ts = []
    · obtain ⟨-, -, hhead⟩ := hlast hts (Or.inr hkind)
      obtain ⟨a, ha, hlow⟩ := ascii_of_head hhead
      exact ⟨a, List.mem_append_right _ ha, hlow⟩
    · rw [← hrest']
      exact h.ascii_of_seals ((takes_of_next hnext).sound hsound) hts (hseals hnew).of_cons
  · intro hkind hnil
    have hts : ts = [] := by
      have hlength := h.length_le
      rw [hrest', hnil, List.length_nil] at hlength
      exact List.length_eq_zero_iff.mp (by omega)
    obtain ⟨hclosed, hlone, hhead⟩ := hlast hts (Or.inl hkind)
    have hquote : s.quoteByte = none := by
      rw [hs', past_of_ne_quote (by simp [hkind])] at hclosed
      exact Option.map_eq_none_iff.mpr hclosed
    rw [hquote]
    exact ⟨fun hback => hlone ⟨hkind, hback⟩, interrupted_of_head hhead⟩

/-- **Tokens stay when more is written behind them**, if it does not run into the last one. -/
theorem Reads.extend (h : s.Reads ts s') (hsound : s.Sound) (hpermissive : s.options.strict = false)
    (hlonger : s.Longer u more) (hseals : more ≠ [] → Seals ts s' more) :
    ∃ us u', u.Reads us u' ∧ us.map Token.content = ts.map Token.content ∧ s'.Longer u' more := by
  induction h generalizing u with
  | nil => exact ⟨[], u, .nil u, rfl, hlonger⟩
  | @cons s s₁ s' t ts hnext hmore ih =>
      obtain ⟨rest, hrest, hs₁, hstays⟩ := hmore.lexeme_append hnext hsound hpermissive hseals
      have hu : u.rest = t.text ++ (rest ++ more) := by
        rw [hlonger.rest_eq, hrest, List.append_assoc]
      rw [← hlonger.options_eq, ← hlonger.quoteByte_eq] at hstays
      have hunext := next_of_lexeme hlonger.sound hu hstays
        (by simp [hlonger.options_eq, hpermissive])
      set v : Token := ⟨t.kind, u.offset, t.text⟩
      have hlonger₁ : s₁.Longer (u.past v (rest ++ more)) more := by
        refine ⟨(takes_of_next hunext).sound hlonger.sound, ?_, ?_, ?_⟩
        · rw [hs₁]
          exact hlonger.options_eq
        · rw [hs₁, quoteByte_past, quoteByte_past, hlonger.quoteByte_eq]
        · rw [hs₁]
          rfl
      have hpermissive₁ : s₁.options.strict = false := by rw [hs₁]; exact hpermissive
      obtain ⟨us, u', hreads, hcontent, hlonger'⟩ := ih ((takes_of_next hnext).sound hsound)
        hpermissive₁ hlonger₁ fun hne => (hseals hne).of_cons
      refine ⟨v :: us, u', .cons hunext hreads, ?_, hlonger'⟩
      rw [List.map_cons, List.map_cons, hcontent]
      rfl

end Scanner

end BraceExpansion
