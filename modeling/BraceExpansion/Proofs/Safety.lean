import BraceExpansion.Proofs.Compiler.Checked

/-!
# Nothing goes wrong

`Compiler.At c pattern s` is where a compiler can be behind some of the tokens of a pattern: it shows
a reading, its scanner stands where it says, and no block has counted more commas than there have
been bytes.

* A token keeps this up (`At.step`), so a run does (`At.reads`).
* Where it holds, blocks and stack agree (`At.framed`), and neither the next token (`At.step_checked`)
  nor the end of the pattern (`finish_checked`) can fail.

**`Compiler.compile_safe`** is what follows for a whole pattern.
-/

namespace BraceExpansion

namespace Compiler

variable {c : Compiler} {pattern : Bytes} {s s' : Scanner} {t : Token} {ts : List Token}

/-- Behind some of the tokens of a pattern. -/
structure At (c : Compiler) (pattern : Bytes) (s : Scanner) : Prop where
  shows : ∃ r, c.Shows r ∧ r.quote.isSome = s.openQuote.isSome
  place : ∃ before, pattern = before ++ s.rest ∧ before.length = s.offset
  counted : ∀ b ∈ c.blocks, b.delimiters ≤ s.offset

lemma at_start (c : Compiler) (pattern : Bytes) :
    c.start.At pattern ⟨c.options, pattern, 0, none⟩ :=
  ⟨⟨{}, c.shows_start, rfl⟩, ⟨[], rfl, rfl⟩, by simp [start]⟩

/-! ## One token -/

/-- A token adds at most one comma to a block. -/
lemma delimiters_step {n : Nat} (h : ∀ b ∈ c.blocks, b.delimiters ≤ n) (t : Token) :
    ∀ b ∈ (c.step t).blocks, b.delimiters ≤ n + 1 := by
  obtain ⟨options, work, blocks, openQuote⟩ := c
  obtain ⟨kind, start, text⟩ := t
  have hsame : ∀ b ∈ blocks, b.delimiters ≤ n + 1 := fun b hb => Nat.le_succ_of_le (h b hb)
  have hhead : ∀ {block block' : Block} {outer : List Block}, blocks = block :: outer →
      block'.delimiters ≤ block.delimiters + 1 →
        ∀ b ∈ block' :: outer, b.delimiters ≤ n + 1 := by
    rintro block block' outer rfl hle b hb
    rcases List.mem_cons.mp hb with rfl | hb
    · exact Nat.le_trans hle (Nat.succ_le_succ (h block List.mem_cons_self))
    · exact hsame b (List.mem_cons_of_mem _ hb)
  cases kind with
  | literal => exact hsame
  | escape => exact hsame
  | quote => exact hsame
  | opening =>
      intro b hb
      rcases List.mem_cons.mp hb with rfl | hb
      · exact Nat.zero_le _
      · exact hsame b hb
  | delimiter =>
      cases blocks with
      | nil => exact hsame
      | cons block outer => exact hhead rfl (Nat.le_refl _)
  | range =>
      cases blocks with
      | nil => exact hsame
      | cons block outer =>
          simp only [step, rangeSeparator]
          split
          · exact hsame
          · split
            · exact hhead rfl (Nat.le_succ _)
            · exact hhead rfl (Nat.le_succ _)
  | closing =>
      cases blocks with
      | nil => exact hsame
      | cons block outer => exact fun b hb => hsame b (List.mem_cons_of_mem _ hb)

namespace At

lemma step (h : c.At pattern s) (hnext : s.next = (.ok (some t), s')) :
    (c.step t).At pattern s' := by
  obtain ⟨⟨r, hshows, hquote⟩, ⟨before, hpattern, hlength⟩, hcounted⟩ := h
  have hfollows := Scanner.follows_of_next hnext
  obtain ⟨htext, hrest⟩ := Scanner.splits_next s t s' hnext
  refine ⟨⟨r.step c.options t, hshows.step ?_, ?_⟩, ⟨before ++ t.text, ?_, ?_⟩, ?_⟩
  · rw [hquote]
    exact hfollows.within
  · rw [Reading.quote_step, hquote, hfollows.quoting]
  · rw [hpattern, hrest, List.append_assoc]
  · rw [List.length_append, hlength, hfollows.offset_eq]
  · intro b hb
    have hle := delimiters_step hcounted t b hb
    have hpos := List.length_pos_iff.mpr htext
    rw [hfollows.offset_eq]
    omega

/-- The text of the next token is where the token says. -/
lemma source_eq (h : c.At pattern s) (hnext : s.next = (.ok (some t), s')) :
    t.start + t.text.length ≤ pattern.length ∧ Checked.source pattern t = some t.text := by
  obtain ⟨-, ⟨before, hpattern, hlength⟩, -⟩ := h
  obtain ⟨-, hrest⟩ := Scanner.splits_next s t s' hnext
  have hstart : t.start = before.length := by
    rw [hlength, (Scanner.follows_of_next hnext).start_eq]
  have hle : t.start + t.text.length ≤ pattern.length := by
    rw [hpattern, hrest, hstart, List.length_append, List.length_append]
    omega
  refine ⟨hle, ?_⟩
  rw [Checked.source, if_pos hle, hpattern, hrest, hstart, List.drop_left, List.take_left]

/-- **The next token does not fail.** -/
theorem step_checked (h : c.At pattern s) (hlength : pattern.length ≤ maxPatternLength)
    (hnext : s.next = (.ok (some t), s')) : Checked.step pattern c t = some (c.step t) := by
  obtain ⟨hle, hsource⟩ := h.source_eq hnext
  obtain ⟨⟨r, hshows, -⟩, -, hcounted⟩ := h
  refine Compiler.step_checked hshows ?_ hsource
  intro b hb
  -- every comma has taken a byte, and the token takes one more
  have hcount := hcounted b hb
  have hpos := List.length_pos_iff.mpr (Scanner.splits_next s t s' hnext).1
  rw [(Scanner.follows_of_next hnext).start_eq] at hle
  rw [maxPatternLength] at hlength
  rw [Checked.maxUnsigned]
  omega

/-! ## A run -/

lemma reads (h : c.At pattern s) (hlength : pattern.length ≤ maxPatternLength)
    (hreads : s.Reads ts s') : (ts.foldl Compiler.step c).At pattern s' ∧
      ts.foldl (fun c t => c.bind (Checked.step pattern · t)) (some c)
        = some (ts.foldl Compiler.step c) := by
  induction hreads generalizing c with
  | nil => exact ⟨h, rfl⟩
  | cons hnext hrest ih =>
      have hstep := h.step_checked hlength hnext
      rw [List.foldl_cons, List.foldl_cons, Option.bind_some, hstep]
      exact ih (h.step hnext)

/-- **Blocks and stack agree**, and a quote is open where the scanner says so. -/
theorem framed (h : c.At pattern s) :
    c.Framed ∧ c.openQuote.isSome = s.openQuote.isSome := by
  obtain ⟨⟨r, hshows, hquote⟩, -, -⟩ := h
  refine ⟨hshows.framed, ?_⟩
  rw [hshows.quote, ← hquote, Reading.quotePosition, Option.isSome_map]

/-- At the end one draft is left, and a tree can be made of it. -/
lemma joined_single (h : c.At pattern s) : ∃ id, (c.settled.join 0).items = #[id] ∧
    (Pool.Checked.plant (c.settled.join 0).pool .empty id).isSome := by
  obtain ⟨⟨r, hshows, -⟩, -, -⟩ := h
  rcases hshows.joined_single with ⟨id, used, hitems, hholds, howns⟩
  exact ⟨id, hitems, by rw [hholds.plant_checked howns]; rfl⟩

end At

/-! ## Whole patterns -/

/-- The checked compiler does not fail, whatever the compiler has been used for. -/
lemma compile_checked (c : Compiler) (pattern : Bytes) :
    Checked.compile c pattern = some (c.compile pattern) := by
  rw [Checked.compile, compile]
  cases hs : Scanner.ofPattern c.options pattern with
  | error e => rfl
  | ok s =>
      have hlength : pattern.length ≤ maxPatternLength := by
        by_contra hlong
        rw [Scanner.ofPattern, if_pos (Nat.lt_of_not_le hlong)] at hs
        cases hs
      obtain ⟨ts, s', hreads, hends⟩ := s.exists_reads
      have hstart := c.at_start pattern
      rw [← ofPattern_eq hs] at hstart
      obtain ⟨hat, hfold⟩ := hstart.reads hlength hreads
      simp only [hreads.foldTokens_eq, hends.foldTokens_eq, hfold]
      cases s'.failure? with
      | some e => rfl
      | none =>
          obtain ⟨⟨r, hshows, -⟩, -, -⟩ := hat
          simp only [Option.bind_eq_bind, Option.bind_some, finish_checked hshows]

/-- **Compiling is safe**, with every way of reading and whatever the compiler has been used for.
Behind every token of a pattern the blocks, the open quote and the stack agree, and if the pattern
ended there, one draft would be left, with no punctuation in it.  So nothing that `Checked.compile`
checks can fail: every slot, position and difference exists, no counter overflows, and the tree is
made.  Only strict reading fails. -/
theorem compile_safe (c : Compiler) {pattern : Bytes}
    (hlength : pattern.length ≤ maxPatternLength) :
    (∀ s ts s', Scanner.ofPattern c.options pattern = .ok s → s.Reads ts s' →
      (ts.foldl step c.start).Framed ∧
        (ts.foldl step c.start).openQuote.isSome = s'.openQuote.isSome ∧
        ∃ id, ((ts.foldl step c.start).settled.join 0).items = #[id] ∧
          (Pool.Checked.plant ((ts.foldl step c.start).settled.join 0).pool .empty id).isSome) ∧
    Checked.compile c pattern = some (c.compile pattern) ∧
    (c.options.strict = false → ∃ tree, (c.compile pattern).1 = .ok tree) := by
  refine ⟨?_, compile_checked c pattern, fun hstrict => compile_total hstrict hlength⟩
  intro s ts s' hs hreads
  have hstart := c.at_start pattern
  rw [← ofPattern_eq hs] at hstart
  obtain ⟨hat, -⟩ := hstart.reads hlength hreads
  obtain ⟨hframed, hquote⟩ := hat.framed
  exact ⟨hframed, hquote, hat.joined_single⟩

/-- `{a,{1..'x`: two blocks and a quote are open at the end, and the inner block has a separator. -/
theorem compile_safe_unclosed :
    let c := Compiler.new {}
    let pattern : Bytes := [0x7B, 0x61, 0x2C, 0x7B, 0x31, 0x2E, 0x2E, 0x27, 0x78]
    pattern.length ≤ maxPatternLength ∧
      (∃ after : Compiler, after.Framed ∧ after.openQuote = some 6 ∧
        after.blocks = [⟨3, 1, true, 0⟩, ⟨0, 0, true, 1⟩] ∧
        after.work.kinds = [.braceOpen, .literal, .braceDelimiter, .braceOpen, .literal, .braceRange,
          .quote, .literal]) ∧
      Checked.compile c pattern = some (c.compile pattern) ∧
      ∃ tree, (c.compile pattern).1 = .ok tree := by
  intro c pattern
  have hlength : pattern.length ≤ maxPatternLength := by decide
  rcases compile_safe c hlength with ⟨hruns, hchecked, htotal⟩
  refine ⟨hlength, ?_, hchecked, htotal rfl⟩
  have hs : Scanner.ofPattern c.options pattern = .ok ⟨c.options, pattern, 0, none⟩ := by
    rw [Scanner.ofPattern, if_neg (Nat.not_lt.mpr hlength)]
  have hreads : Scanner.Reads ⟨c.options, pattern, 0, none⟩ [⟨.opening, 0, [0x7B]⟩,
      ⟨.literal, 1, [0x61]⟩, ⟨.delimiter, 2, [0x2C]⟩, ⟨.opening, 3, [0x7B]⟩, ⟨.literal, 4, [0x31]⟩,
      ⟨.range, 5, [0x2E, 0x2E]⟩, ⟨.quote, 7, [0x27]⟩, ⟨.literal, 8, [0x78]⟩]
      ⟨c.options, [], 9, some (0x27, 7)⟩ :=
    .cons rfl <| .cons rfl <| .cons rfl <| .cons rfl <| .cons rfl <| .cons rfl <| .cons rfl <|
    .cons rfl <| .nil _
  rcases hruns _ _ _ hs hreads with ⟨hframed, -, -⟩
  exact ⟨_, hframed, by decide +kernel, by decide +kernel, by decide +kernel⟩

end Compiler

end BraceExpansion
