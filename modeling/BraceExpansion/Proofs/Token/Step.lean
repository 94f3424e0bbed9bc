import BraceExpansion.Proofs.Text.Encoding
import BraceExpansion.Token.Scanner

/-!
# One token

`Scanner.Takes s t s'` lists the ways in which a scanner comes to a token, with the bytes that it
takes: an escape and the element behind it, a backslash at the end, a quote that opens or closes,
punctuation, and a literal that is as long as possible.  There are no other ways
(**`Scanner.takes_of_next`**).

`Scanner.Follows` is what most of the proofs about tokens need of this: how a token is spelled, which
tokens stand inside quotes, and that a literal ends only where something else starts
(`Scanner.follows_of_next`).  `Token.Exact` says more of escapes and quotes, for scanners that are
`Scanner.Sound`.
-/

namespace BraceExpansion

namespace Token

def isQuote (t : Token) : Bool := t.kind = .quote

def isLiteral (t : Token) : Bool := t.kind = .literal

/-- A token stands for itself: punctuation is spelled in one way. -/
def Spelled (t : Token) : Prop :=
  match t.kind with
  | .literal => t.text ≠ []
  | .escape => t.text.head? = some Ascii.backslash
  | .quote => t.text ≠ []
  | .opening => t.text = [Ascii.openBrace]
  | .delimiter => t.text = [Ascii.comma]
  | .range => t.text = [Ascii.dot, Ascii.dot]
  | .closing => t.text = [Ascii.closeBrace]

/-- An escape is a backslash and one element, and a quote is one quote byte. -/
def Exact (t : Token) : Prop :=
  (t.kind = .escape → ∃ element, t.text = Ascii.backslash :: element ∧ Utf8.IsElement element) ∧
  (t.kind = .quote → ∃ b, Ascii.isQuote b = true ∧ t.text = [b])

/-- A token that can stand inside quotes, or closes them. -/
def Inner (t : Token) : Prop := t.kind = .literal ∨ t.kind = .escape ∨ t.kind = .quote

end Token

namespace Scanner

variable {s s' : Scanner} {t : Token} {text rest : Bytes} {b : UInt8}

/-! ## Bytes that start something -/

lemma startsEscape_iff {options : CompileOptions} :
    startsEscape options b = true ↔ b = Ascii.backslash ∧ options.ignoreEscape = false := by
  rw [startsEscape, Bool.and_eq_true, beq_iff_eq, Bool.not_eq_true']

lemma startsQuote_iff {options : CompileOptions} :
    startsQuote options b = true ↔ Ascii.isQuote b = true ∧ options.ignoreQuote = false := by
  rw [startsQuote, Bool.and_eq_true, Bool.not_eq_true']

lemma toNat_le_of_isQuote (h : Ascii.isQuote b = true) : b.toNat ≤ 0x7F := by
  simp only [Ascii.isQuote, Bool.or_eq_true, beq_iff_eq] at h
  rcases h with (rfl | rfl) | rfl <;> decide

lemma toNat_le_of_startsEscape {options : CompileOptions} (h : startsEscape options b = true) :
    b.toNat ≤ 0x7F := by
  simp only [startsEscape, Bool.and_eq_true, beq_iff_eq] at h
  rw [h.1]
  decide

/-! ## Ways to a token -/

/-- A literal cannot start here: something else does, or nothing. -/
def Stopped (s : Scanner) : Prop :=
  s.rest = [] ∨ match s.openQuote with
    | some (quote, _) => isSpecialWithin s.options quote s.rest = true
    | none => isSpecial s.options s.rest = true

/-- Neither a backslash that escapes nor a quote that opens or closes. -/
def Plain (s : Scanner) (b : UInt8) : Prop :=
  startsEscape s.options b = false ∧
    match s.openQuote with
    | none => startsQuote s.options b = false
    | some (opened, _) => b ≠ opened

/-- The scanner behind some bytes. -/
def behind (s : Scanner) (text rest : Bytes) : Scanner :=
  { s with rest := rest, offset := s.offset + text.length }

/-- The ways to the next token. -/
inductive Takes (s : Scanner) : Token → Scanner → Prop
  | escape {element rest : Bytes} (hrest : s.rest = Ascii.backslash :: element ++ rest)
      (henabled : startsEscape s.options Ascii.backslash = true) (helement : Utf8.IsElement element)
      (hstrict : s.options.strict = true → ∃ c, element = String.utf8EncodeChar c) :
      Takes s ⟨.escape, s.offset, Ascii.backslash :: element⟩
        (s.behind (Ascii.backslash :: element) rest)
  | backslash (hrest : s.rest = [Ascii.backslash]) (hpermissive : s.options.strict = false) :
      Takes s ⟨.literal, s.offset, [Ascii.backslash]⟩ (s.behind [Ascii.backslash] [])
  | opens {b : UInt8} {rest : Bytes} (hrest : s.rest = [b] ++ rest) (hopen : s.openQuote = none)
      (hescape : startsEscape s.options b = false) (hquote : startsQuote s.options b = true) :
      Takes s ⟨.quote, s.offset, [b]⟩ { s.behind [b] rest with openQuote := some (b, s.offset) }
  | closes {b : UInt8} {start : Nat} {rest : Bytes} (hrest : s.rest = [b] ++ rest)
      (hopen : s.openQuote = some (b, start)) :
      Takes s ⟨.quote, s.offset, [b]⟩ { s.behind [b] rest with openQuote := none }
  | punctuation {kind : TokenKind} {text rest : Bytes} (hrest : s.rest = text ++ rest)
      (hopen : s.openQuote = none) (hkind : kind ≠ .literal ∧ kind ≠ .escape ∧ kind ≠ .quote)
      (hspelled : Token.Spelled ⟨kind, s.offset, text⟩) (hplain : ∀ b ∈ text, s.Plain b) :
      Takes s ⟨kind, s.offset, text⟩ (s.behind text rest)
  | literal {text rest : Bytes} (hrest : s.rest = text ++ rest) (hne : text ≠ [])
      (hstart : ¬ s.Stopped) (hstop : (s.behind text rest).Stopped)
      (hplain : ∀ b ∈ text, s.Plain b)
      (hstrict : s.options.strict = true → Utf8.malformedAt? text = none) :
      Takes s ⟨.literal, s.offset, text⟩ (s.behind text rest)

/-- A step that gives a token, if it gives one, goes one of the ways. -/
def Leads (s : Scanner) (step : Step) : Prop :=
  ∀ t s', step = (.ok (some t), s') → s.Takes t s'

lemma leads_error (s s' : Scanner) (e : PatternError) : s.Leads (.error e, s') := by
  intro t s'' h
  cases h

/-- What a token is taken from is the text of it. -/
lemma emit_append (hrest : s.rest = text ++ rest) (kind : TokenKind) :
    s.emit kind text.length = (.ok (some ⟨kind, s.offset, text⟩), s.behind text rest) := by
  rw [emit, advance, hrest, List.take_left, List.drop_left, behind]

lemma leads_emit (hrest : s.rest = text ++ rest) {kind : TokenKind}
    (htakes : s.Takes ⟨kind, s.offset, text⟩ (s.behind text rest)) :
    s.Leads (s.emit kind text.length) := by
  intro t s' h
  rw [emit_append hrest] at h
  cases h
  exact htakes

/-! ## Literals -/

lemma runLengthFrom_eq (special : Bytes → Bool) (counted : Nat) (bytes : Bytes) :
    runLengthFrom special counted bytes = counted + runLength special bytes := by
  induction bytes generalizing counted with
  | nil => rfl
  | cons b bytes ih =>
      rw [runLength, runLengthFrom, runLengthFrom]
      split
      · rfl
      · rw [ih, ih (0 + 1)]
        omega

/-- A run ends where something special starts, or with the bytes. -/
lemma runLength_stops (special : Bytes → Bool) (bytes : Bytes) :
    runLength special bytes ≤ bytes.length ∧
      (bytes.drop (runLength special bytes) = [] ∨
        special (bytes.drop (runLength special bytes)) = true) := by
  induction bytes with
  | nil => exact ⟨Nat.le_refl 0, Or.inl rfl⟩
  | cons b bytes ih =>
      rw [runLength, runLengthFrom]
      split
      next hspecial => exact ⟨Nat.zero_le _, Or.inr hspecial⟩
      next =>
        rw [runLengthFrom_eq, Nat.zero_add, Nat.add_comm, List.drop_succ_cons]
        exact ⟨Nat.succ_le_succ ih.1, ih.2⟩

/-- Nothing special starts inside a run. -/
lemma not_special_of_mem_run {special : Bytes → Bool} {bytes : Bytes}
    (h : b ∈ bytes.take (runLength special bytes)) : ∃ more, special (b :: more) = false := by
  induction bytes with
  | nil => simp at h
  | cons a bytes ih =>
      rw [runLength, runLengthFrom] at h
      split at h
      · simp at h
      next hspecial =>
        rw [runLengthFrom_eq, Nat.zero_add, Nat.add_comm, List.take_succ_cons, List.mem_cons] at h
        rcases h with rfl | h
        · exact ⟨bytes, by simpa using hspecial⟩
        · exact ih h

/-- A literal is a run up to where no literal could start. -/
lemma leads_literal {special : Bytes → Bool} (hs : s.rest = b :: rest)
    (hspecial : special (b :: rest) = false)
    (hstopped : ∀ text rest, (s.behind text rest).Stopped ↔ rest = [] ∨ special rest = true)
    (hplain : ∀ a more, special (a :: more) = false → s.Plain a) : s.Leads (s.literal special) := by
  obtain ⟨hle, hstops⟩ := runLength_stops special s.rest
  have hrest := (List.take_append_drop (runLength special s.rest) s.rest).symm
  have hne : s.rest.take (runLength special s.rest) ≠ [] := by
    have hpos := runLength_pos hspecial
    rw [hs, ← List.length_pos_iff, List.length_take, List.length_cons]
    omega
  have hstart : ¬ s.Stopped := by
    have hhere := hstopped [] s.rest
    rw [hs] at hhere
    have hbehind : s.behind [] (b :: rest) = s := by rw [behind, ← hs, List.length_nil, Nat.add_zero]
    rw [hbehind] at hhere
    simp [hhere, hspecial]
  have hrun : ∀ a ∈ s.rest.take (runLength special s.rest), s.Plain a := by
    intro a ha
    obtain ⟨more, hmore⟩ := not_special_of_mem_run ha
    exact hplain a more hmore
  have hemit : (s.options.strict = true →
      Utf8.malformedAt? (s.rest.take (runLength special s.rest)) = none) →
      s.Leads (s.emit .literal (runLength special s.rest)) := by
    intro hstrict
    have hstop := (hstopped (s.rest.take (runLength special s.rest)) _).mpr hstops
    have hleads := leads_emit hrest (.literal hrest hne hstart hstop hrun hstrict)
    rwa [List.length_take_of_le hle] at hleads
  rw [literal]
  split
  · split
    · exact leads_error _ _ _
    next hwell => exact hemit fun _ => hwell
  next hpermissive => exact hemit fun hstrict => absurd hstrict hpermissive

/-! ## The other tokens -/

lemma leads_escape (hs : s.rest = b :: rest) (hb : startsEscape s.options b = true) :
    s.Leads s.escape := by
  obtain rfl : b = Ascii.backslash := by
    simp only [startsEscape, Bool.and_eq_true, beq_iff_eq] at hb
    exact hb.1
  rw [escape, hs, List.drop_one, List.tail_cons]
  cases rest with
  | nil =>
      dsimp only
      split
      · exact leads_error _ _ _
      next hpermissive =>
        have hrest : s.rest = [Ascii.backslash] ++ [] := hs
        exact leads_emit hrest (.backslash hs (by simpa using hpermissive))
  | cons a rest =>
      dsimp only
      split
      · exact leads_error _ _ _
      next hdecode =>
        have hwidth := Utf8.elementWidth_le (List.cons_ne_nil a rest)
        have hrest : s.rest = Ascii.backslash :: (a :: rest).take (Utf8.elementWidth (a :: rest))
            ++ (a :: rest).drop (Utf8.elementWidth (a :: rest)) := by
          rw [hs, List.cons_append, List.take_append_drop]
        have hstrict : s.options.strict = true →
            ∃ c, (a :: rest).take (Utf8.elementWidth (a :: rest)) = String.utf8EncodeChar c := by
          intro hstrict
          cases hchar : Utf8.decodeChar? (a :: rest) with
          | none => simp [hstrict, hchar] at hdecode
          | some c => exact ⟨c, Utf8.take_elementWidth hchar⟩
        have hleads := leads_emit hrest (.escape hrest hb (Utf8.isElement_take a rest) hstrict)
        rwa [List.length_cons, List.length_take_of_le hwidth, Nat.add_comm] at hleads

lemma leads_quoted {opened : UInt8} {start : Nat} (hs : s.rest = b :: rest)
    (hopen : s.openQuote = some (opened, start)) : s.Leads (s.quoted opened b) := by
  rw [quoted]
  split
  next hb =>
    subst hb
    rintro t s' ⟨⟩
    have hrest : s.rest = [b] ++ rest := hs
    have htakes := Takes.closes hrest hopen
    simpa [advance, behind, hs] using htakes
  split
  next hb => exact leads_escape hs hb
  next hquote hescape =>
    refine leads_literal hs ?_ ?_ ?_
    · simp [isSpecialWithin, hquote, hescape]
    · simp [Stopped, behind, hopen]
    · intro a more hnot
      simp only [isSpecialWithin, Bool.or_eq_false_iff, beq_eq_false_iff_ne] at hnot
      refine ⟨hnot.2, ?_⟩
      rw [hopen]
      exact hnot.1

lemma startsRange_cases {bytes : Bytes} (h : startsRange bytes = true) :
    ∃ more, bytes = Ascii.dot :: Ascii.dot :: more := by
  match bytes, h with
  | Ascii.dot :: Ascii.dot :: more, _ => exact ⟨more, rfl⟩

lemma leads_unquoted (hs : s.rest = b :: rest) (hopen : s.openQuote = none) :
    s.Leads (s.unquoted b) := by
  have hplain : ∀ a, startsEscape s.options a = false → startsQuote s.options a = false →
      s.Plain a := by
    intro a hescape hquote
    refine ⟨hescape, ?_⟩
    rw [hopen]
    exact hquote
  rw [unquoted]
  split
  next hb => exact leads_escape hs hb
  next hescape =>
  rw [Bool.not_eq_true] at hescape
  split
  next hb =>
    rintro t s' ⟨⟩
    have hrest : s.rest = [b] ++ rest := hs
    have htakes := Takes.opens hrest hopen hescape hb
    simpa [advance, behind, hs] using htakes
  next hquote =>
  rw [Bool.not_eq_true] at hquote
  have hone : ∀ kind : TokenKind, kind ≠ .literal ∧ kind ≠ .escape ∧ kind ≠ .quote →
      Token.Spelled ⟨kind, s.offset, [b]⟩ → s.Leads (s.emit kind 1) := by
    intro kind hkind hspelled
    have hrest : s.rest = [b] ++ rest := hs
    refine leads_emit hrest (.punctuation hrest hopen hkind hspelled ?_)
    intro a ha
    rw [List.mem_singleton.mp ha]
    exact hplain b hescape hquote
  split
  next hb => exact hone _ (by simp) (by rw [hb]; rfl)
  split
  next hb => exact hone _ (by simp) (by rw [hb]; rfl)
  split
  next hb => exact hone _ (by simp) (by rw [hb]; rfl)
  split
  next hdots =>
    obtain ⟨more, hmore⟩ := startsRange_cases hdots
    have hrest : s.rest = [Ascii.dot, Ascii.dot] ++ more := hmore
    refine leads_emit hrest (.punctuation hrest hopen (by simp) rfl ?_)
    intro a ha
    obtain rfl : a = Ascii.dot := by simpa using ha
    obtain rfl : b = Ascii.dot := by
      rw [hs] at hmore
      exact (List.cons.inj hmore).1
    exact hplain _ hescape hquote
  next hopening hcomma hclosing hdots =>
    refine leads_literal hs ?_ ?_ ?_
    · rw [hs] at hdots
      simp [isSpecial, hescape, hquote, hopening, hcomma, hclosing, hdots]
    · simp [Stopped, behind, hopen]
    · intro a more hnot
      simp only [isSpecial, Bool.or_eq_false_iff] at hnot
      exact hplain a hnot.1.1.1.1.1 hnot.1.1.1.1.2

/-- **There are no other ways to a token.** -/
theorem takes_of_next (h : s.next = (.ok (some t), s')) : s.Takes t s' := by
  revert h
  suffices hleads : s.Leads s.next from fun h => hleads t s' h
  rw [next]
  split
  next hrest =>
    rw [finish]
    split
    · split
      · exact leads_error _ _ _
      · intro t s' h; cases h
    · intro t s' h; cases h
  next hs hopen => exact leads_quoted hs hopen
  next hs hopen => exact leads_unquoted hs hopen

/-! ## What follows -/

/-- What a token says about the scanner before it and the scanner behind it. -/
structure Follows (s : Scanner) (t : Token) (s' : Scanner) : Prop where
  spelled : t.Spelled
  start_eq : t.start = s.offset
  offset_eq : s'.offset = s.offset + t.text.length
  options_eq : s'.options = s.options
  /-- A quote opens or closes, and nothing else does. -/
  quoting : s'.openQuote.isSome = (s.openQuote.isSome != t.isQuote)
  within : s.openQuote.isSome → t.Inner
  /-- A literal is as long as possible. -/
  stops : t.isLiteral → s'.Stopped
  /-- Where no literal can start, the only literal is a backslash at the end. -/
  resumes : s.Stopped → t.isLiteral → s'.rest = []

/-- What is not a literal follows, if it opens or closes the quote that it should. -/
lemma follows_of_ne_literal (hspelled : t.Spelled) (hkind : t.kind ≠ .literal)
    (hstart : t.start = s.offset) (hoffset : s'.offset = s.offset + t.text.length)
    (hoptions : s'.options = s.options)
    (hquoting : s'.openQuote.isSome = (s.openQuote.isSome != t.isQuote))
    (hwithin : s.openQuote.isSome → t.Inner) : s.Follows t s' where
  spelled := hspelled
  start_eq := hstart
  offset_eq := hoffset
  options_eq := hoptions
  quoting := hquoting
  within := hwithin
  stops hliteral := absurd (of_decide_eq_true hliteral) hkind
  resumes _ hliteral := absurd (of_decide_eq_true hliteral) hkind

lemma Takes.follows (h : s.Takes t s') : s.Follows t s' := by
  have hquoting : s.openQuote.isSome = (s.openQuote.isSome != false) := by simp
  cases h with
  | escape hrest henabled helement hstrict =>
      exact follows_of_ne_literal rfl (by simp) rfl rfl rfl hquoting fun _ => Or.inr (Or.inl rfl)
  | backslash hrest hpermissive =>
      exact ⟨List.cons_ne_nil _ _, rfl, rfl, rfl, hquoting, fun _ => Or.inl rfl,
        fun _ => Or.inl rfl, fun _ _ => rfl⟩
  | opens hrest hopen hescape hquote =>
      refine follows_of_ne_literal (List.cons_ne_nil _ _) (by simp) rfl rfl rfl ?_ ?_
      · rw [hopen]
        rfl
      · intro _
        exact Or.inr (Or.inr rfl)
  | closes hrest hopen =>
      refine follows_of_ne_literal (List.cons_ne_nil _ _) (by simp) rfl rfl rfl ?_ ?_
      · rw [hopen]
        rfl
      · intro _
        exact Or.inr (Or.inr rfl)
  | punctuation hrest hopen hkind hspelled hplain =>
      refine follows_of_ne_literal hspelled hkind.1 rfl rfl rfl ?_ ?_
      · simp [behind, Token.isQuote, hkind.2.2]
      · simp [hopen]
  | literal hrest hne hstart hstop hplain hstrict =>
      exact ⟨hne, rfl, rfl, rfl, hquoting, fun _ => Or.inl rfl, fun _ => hstop,
        fun hstopped => absurd hstopped hstart⟩

/-- **What one step can do.** -/
theorem follows_of_next (h : s.next = (.ok (some t), s')) : s.Follows t s' :=
  (takes_of_next h).follows

/-! ## Escapes and quotes -/

/-- Only what starts a quote can be open. -/
def Sound (s : Scanner) : Prop :=
  ∀ b start, s.openQuote = some (b, start) → startsQuote s.options b = true

lemma isQuote_of_startsQuote {options : CompileOptions} (h : startsQuote options b = true) :
    Ascii.isQuote b = true := by
  rw [startsQuote, Bool.and_eq_true] at h
  exact h.1

lemma Takes.sound (h : s.Takes t s') (hsound : s.Sound) : s'.Sound := by
  cases h with
  | opens hrest hopen hescape hquote =>
      rintro b start ⟨⟩
      exact hquote
  | closes hrest hopen => rintro b start ⟨⟩
  | escape | backslash | punctuation | literal => exact hsound

lemma Takes.exact (h : s.Takes t s') (hsound : s.Sound) : t.Exact := by
  cases h with
  | escape hrest henabled helement hstrict => exact ⟨fun _ => ⟨_, rfl, helement⟩, by simp⟩
  | @opens b rest hrest hopen hescape hquote =>
      exact ⟨by simp, fun _ => ⟨b, isQuote_of_startsQuote hquote, rfl⟩⟩
  | @closes b start rest hrest hopen =>
      exact ⟨by simp, fun _ => ⟨b, isQuote_of_startsQuote (hsound b start hopen), rfl⟩⟩
  | punctuation hrest hopen hkind hspelled hplain =>
      exact ⟨fun h => absurd h hkind.2.1, fun h => absurd h hkind.2.2⟩
  | backslash | literal => exact ⟨by simp, by simp⟩

end Scanner

end BraceExpansion
