import BraceExpansion.Proofs.Reuse
import BraceExpansion.Proofs.Token.Strict

/-!
# What strict reading is strict about

A pattern that is well-formed has a string.  `strictError?` reads off this string, from left to right
and without tokens, what strict reading has against it: a backslash with nothing behind it, or else a
quote that is not closed.  A pattern that is not well-formed has no string, and that is the error.

* **`Scanner.Reads.failure?_eq`** — a strict scanner ends with this error.
* `Compiler.compile_strict_of_reads` — where it ends without one, the tree is that of permissive
  reading: a token comes to the same in both (`Reading.step_strict`).
* **`Compiler.compile_strict`** — both, for a whole pattern.
-/

namespace BraceExpansion

/-- What strict reading rejects in a string. -/
def strictError? (options : CompileOptions) (text : String) : Option PatternError :=
  if options.ignoreEscape = false ∧ Odd (Scan.trailingBackslashes text.toList) then
    some (.trailingEscape ((Utf8.encode text).length - 1))
  else (Scan.run options text).quote.map fun (offset, quote) => .unterminatedQuote offset quote

namespace Scan

variable {options : CompileOptions}

lemma offset_foldl (s : Scan) (cs : List Char) :
    (cs.foldl (step options) s).offset = s.offset + (Utf8.encodeAll cs).length := by
  induction cs generalizing s with
  | nil => rfl
  | cons c cs ih =>
      have hstep : (s.step options c).offset = s.offset + c.utf8Size := by
        rw [step]
        split_ifs
        · rfl
        · rfl
        · split <;> rfl
        · rfl
      rw [List.foldl_cons, ih, hstep, Utf8.encodeAll_cons, List.length_append,
        String.length_utf8EncodeChar, Nat.add_assoc]

end Scan

/-- What a scan says about the error. -/
lemma strictError?_eq {options : CompileOptions} {text : String} {s : Scan}
    (h : Scan.run options text = s) :
    (s.escaped = true → strictError? options text
      = some (.trailingEscape ((Utf8.encode text).length - 1))) ∧
    (s.escaped = false → strictError? options text
      = s.quote.map fun (offset, quote) => .unterminatedQuote offset quote) := by
  have hescaped : s.escaped = true ↔
      options.ignoreEscape = false ∧ Odd (Scan.trailingBackslashes text.toList) := by
    rw [← h, Scan.run]
    exact Scan.escaped_foldl _
  refine ⟨?_, ?_⟩
  · intro hyes
    rw [strictError?, if_pos (hescaped.mp hyes)]
  · intro hno
    rw [strictError?, if_neg (by rw [← hescaped, hno]; exact Bool.false_ne_true), h]

namespace Scanner

variable {s s' : Scanner} {ts : List Token} {pattern : Bytes}

/-- **A strict scanner ends with what is wrong with the pattern.** -/
theorem Reads.failure?_eq {options : CompileOptions}
    (h : Reads ⟨{ options with strict := true }, pattern, 0, none⟩ ts s') (hends : s'.Ends) :
    (¬ Utf8.WellFormed pattern → ∃ n, IsGreatest
        {n | n ≤ pattern.length ∧ Utf8.WellFormed (pattern.take n)} n ∧
      s'.failure? = some (.invalidEncoding n)) ∧
    ∀ text, Utf8.encode text = pattern → s'.failure? = strictError? options text := by
  obtain ⟨hsound, cs, hpattern, hscan⟩ := h.scans rfl nofun
  have hstrict : s'.options.strict = true := by rw [h.options_eq]
  have hoptions : s'.options.ignoreEscape = options.ignoreEscape := by rw [h.options_eq]
  replace hpattern : pattern = Utf8.encodeAll cs ++ s'.rest := hpattern
  replace hscan : cs.foldl (Scan.step options) {} = s'.scan := hscan
  have hoffset : s'.offset = (Utf8.encodeAll cs).length := by
    have hmoved : s'.scan.offset = ({} : Scan).offset + (Utf8.encodeAll cs).length := by
      rw [← hscan, Scan.offset_foldl]
    exact hmoved.trans (Nat.zero_add _)
  -- a string for the pattern is a string of the characters that have been read
  have hchars : ∀ {text : String} {ds : List Char}, Utf8.encode text = pattern →
      Utf8.encodeAll ds = pattern → text.toList = ds := by
    intro text ds htext hds
    rw [← hds, Utf8.encode_eq] at htext
    exact Utf8.encodeAll_injective htext
  match hnext : s'.next with
  | (.ok (some t), s₁) => exact absurd (by rw [hnext]) (hends t)
  | (.ok none, s₁) =>
    have hfailure : s'.failure? = none := by rw [failure?, hnext]
    have hrest := hends.rest_eq_nil hfailure
    rw [hrest, List.append_nil] at hpattern
    have hopen : s'.openQuote = none := by
      simp only [next, hrest, finish, hstrict, if_true] at hnext
      split at hnext
      · cases hnext
      next hnone => exact hnone
    refine ⟨fun hbad => absurd (Utf8.wellFormed_iff.mpr ⟨cs, hpattern.symm⟩) hbad, ?_⟩
    intro text htext
    have hrun : Scan.run options text = s'.scan := by
      rw [Scan.run, hchars htext hpattern.symm, hscan]
    rw [hfailure, (strictError?_eq hrun).2 rfl, scan, hopen]
    rfl
  | (.error e, s₁) =>
    have hfailure : s'.failure? = some e := by rw [failure?, hnext]
    rw [hfailure]
    cases refuses_of_next hsound hnext with
    | @malformed ds bad hrest hne hbad =>
        rw [hrest, ← List.append_assoc, ← Utf8.encodeAll_append] at hpattern
        obtain ⟨hnot, hgreatest⟩ := @Utf8.isGreatest_wellFormed (cs ++ ds) bad hne hbad
        rw [← hpattern] at hnot hgreatest
        refine ⟨fun _ => ⟨_, hgreatest, ?_⟩, fun text htext => absurd ⟨text, htext⟩ hnot⟩
        rw [hoffset, Utf8.encodeAll_append, List.length_append]
    | backslash hrest henabled =>
        have hslash : Utf8.encodeAll (cs ++ ['\x5C']) = pattern := by
          rw [Utf8.encodeAll_append, hpattern, hrest]
          rfl
        refine ⟨fun hbad => absurd (Utf8.wellFormed_iff.mpr ⟨_, hslash⟩) hbad, ?_⟩
        intro text htext
        have hrun : Scan.run options text = Scan.step options s'.scan '\x5C' := by
          rw [Scan.run, hchars htext hslash, List.foldl_append, hscan]
          rfl
        have hescaped : (Scan.step options s'.scan '\x5C').escaped = true := by
          rw [Scan.escaped_step, ← hoptions, henabled]
          rfl
        rw [(strictError?_eq hrun).1 hescaped, htext, hpattern, hrest, List.length_append, hoffset]
        rfl
    | @unclosed b start hrest hopen =>
        rw [hrest, List.append_nil] at hpattern
        refine ⟨fun hbad => absurd (Utf8.wellFormed_iff.mpr ⟨cs, hpattern.symm⟩) hbad, ?_⟩
        intro text htext
        have hrun : Scan.run options text = s'.scan := by
          rw [Scan.run, hchars htext hpattern.symm, hscan]
        rw [(strictError?_eq hrun).2 rfl, scan, hopen]
        rfl

/-- A strict scanner that ends with the pattern and without an error ends in permissive reading. -/
lemma Ends.permissive (hends : s.Ends) (hfailure : s.failure? = none) : s.permissive.Ends := by
  intro t
  match hnext : s.next with
  | (.ok (some t'), s₁) => exact absurd (by rw [hnext]) (hends t')
  | (.error e, s₁) =>
      rw [failure?, hnext] at hfailure
      cases hfailure
  | (.ok none, s₁) =>
      rw [next_permissive hnext]
      exact fun h => by cases h

end Scanner

/-! ## Whole patterns -/

/-- Whether reading is strict has no influence on what a token comes to. -/
lemma Reading.step_strict (options : CompileOptions) (strict : Bool) :
    Reading.step { options with strict := strict } = Reading.step options := rfl

namespace Compiler

variable {options : CompileOptions} {pattern : Bytes}

/-- **Strict reading ends with an error, or it makes the tree of permissive reading.** -/
lemma compile_strict_of_reads (hpermissive : options.strict = false)
    (hlength : pattern.length ≤ maxPatternLength) {ts : List Token} {s' : Scanner}
    (hreads : Scanner.Reads ⟨{ options with strict := true }, pattern, 0, none⟩ ts s')
    (hends : s'.Ends) :
    BraceExpansion.compile { options with strict := true } pattern = match s'.failure? with
      | some e => .error e
      | none => BraceExpansion.compile options pattern := by
  have hscanner : ∀ options : CompileOptions,
      Scanner.ofPattern options pattern = .ok ⟨options, pattern, 0, none⟩ := by
    intro options
    rw [Scanner.ofPattern, if_neg (Nat.not_lt.mpr hlength)]
  have hstrict := compile_of_reads
    (c := new { options with strict := true }) (hscanner _) hreads hends
  rw [BraceExpansion.compile, hstrict]
  cases hfailure : s'.failure? with
  | some e => rfl
  | none =>
      have hreads' : Scanner.Reads ⟨options, pattern, 0, none⟩ ts s'.permissive := by
        have hoptions : { options with strict := false } = options := by
          rw [← hpermissive]
        have hrun := hreads.permissive
        rwa [Scanner.permissive, hoptions] at hrun
      have hends' := hends.permissive hfailure
      have hfailure' : s'.permissive.failure? = none := Scanner.failure?_eq_none rfl
      have hshows := (Shows.reads hreads (new { options with strict := true }).shows_start rfl).1
      have hshows' := (Shows.reads hreads' (new options).shows_start rfl).1
      rw [options_start, new, Reading.step_strict] at hshows
      have hfinish := hshows.finish_congr hshows'
      rw [BraceExpansion.compile, compile_of_reads (c := new options) (hscanner _) hreads' hends',
        hfailure']
      exact congrArg Except.ok hfinish

/-- **Strict reading fails where it should, and otherwise is permissive reading.**  A pattern that is
not well-formed is rejected behind its longest well-formed part, a well-formed pattern with what its
string has against it, and any other pattern has the tree of permissive reading, which has one. -/
theorem compile_strict (hpermissive : options.strict = false)
    (hlength : pattern.length ≤ maxPatternLength) :
    (¬ Utf8.WellFormed pattern → ∃ n, IsGreatest
        {n | n ≤ pattern.length ∧ Utf8.WellFormed (pattern.take n)} n ∧
      BraceExpansion.compile { options with strict := true } pattern
        = .error (.invalidEncoding n)) ∧
    (∀ text, Utf8.encode text = pattern →
      BraceExpansion.compile { options with strict := true } pattern
        = match strictError? options text with
          | some e => .error e
          | none => BraceExpansion.compile options pattern) ∧
    ∃ tree, BraceExpansion.compile options pattern = .ok tree := by
  rcases Scanner.exists_reads ⟨{ options with strict := true }, pattern, 0, none⟩ with
    ⟨ts, s', hreads, hends⟩
  have hcompile := compile_strict_of_reads hpermissive hlength hreads hends
  obtain ⟨hmalformed, hstring⟩ := hreads.failure?_eq hends
  refine ⟨?_, ?_, compile_total hpermissive hlength⟩
  · intro hbad
    obtain ⟨n, hgreatest, hfailure⟩ := hmalformed hbad
    exact ⟨n, hgreatest, by rw [hcompile, hfailure]⟩
  · intro text htext
    rw [hcompile, hstring text htext]

/-- The first byte of a character without its second, a backslash at the end within a quote, and a
quote that stays open because a backslash protects the quote behind it. -/
theorem compile_strict_rejected :
    BraceExpansion.compile { strict := true } [0x61, 0xC3, 0x7B] = .error (.invalidEncoding 1) ∧
    BraceExpansion.compile { strict := true } [0x27, 0x61, 0x5C] = .error (.trailingEscape 2) ∧
    BraceExpansion.compile { strict := true } [0x61, 0x27, 0x5C, 0x27]
      = .error (.unterminatedQuote 1 '\x27') := by
  have hpermissive : ({} : CompileOptions).strict = false := rfl
  refine ⟨?_, ?_, ?_⟩
  · have hlength : ([0x61, 0xC3, 0x7B] : Bytes).length ≤ maxPatternLength := by decide
    have hsecond : Utf8.decodeChar? [0xC3, 0x7B] = none := by decide
    obtain ⟨hbad, hone⟩ := @Utf8.isGreatest_wellFormed ['a'] _ (List.cons_ne_nil _ _) hsecond
    obtain ⟨n, hgreatest, hcompile⟩ := (compile_strict hpermissive hlength).1 hbad
    obtain rfl : n = 1 := hgreatest.unique hone
    exact hcompile
  · have hlength : ([0x27, 0x61, 0x5C] : Bytes).length ≤ maxPatternLength := by decide
    have hcompile := (compile_strict hpermissive hlength).2.1 "'a\\" rfl
    exact hcompile
  · have hlength : ([0x61, 0x27, 0x5C, 0x27] : Bytes).length ≤ maxPatternLength := by decide
    have hcompile := (compile_strict hpermissive hlength).2.1 "a'\\'" rfl
    exact hcompile

end Compiler

end BraceExpansion
