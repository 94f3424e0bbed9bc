import BraceExpansion.Pattern
import BraceExpansion.Proofs.Meaning
import BraceExpansion.Proofs.Token.Seam

/-!
# What a pattern expands to

`expansionsOf` is the whole way from a pattern to the list of its expansions.  Without strict reading it
is a function of the bytes that never fails, `patternMeaning`: what the tokens of the bytes stand for
(**`expansionsOf_eq`**).

Tokens stand for the same wherever they stand, so every run over the bytes gives their meaning
(`Scanner.Reads.patternMeaning_eq`).  Where tokens leave no quote and no brace open, their meaning is put
before the meaning of the rest (**`Scanner.Reads.patternMeaning_append`**).
-/

namespace BraceExpansion

variable {options : CompileOptions} {expand : ExpandOptions}

/-- The expansions of a pattern, in order. -/
def expansionsOf (options : CompileOptions) (expand : ExpandOptions) (pattern : Bytes) :
    Except PatternError Expansions :=
  (compile options pattern).map fun tree => (tree.expansions expand).toList

/-- Patterns between braces, with commas between them. -/
def alternation (patterns : List Bytes) : Bytes :=
  Ascii.openBrace :: [Ascii.comma].intercalate patterns ++ [Ascii.closeBrace]

/-- What the tokens of some bytes stand for. -/
def patternMeaning (options : CompileOptions) (expand : ExpandOptions) (bytes : Bytes) : Expansions :=
  meaning options expand
    (Scanner.foldTokens (fun ts t => ts ++ [t]) [] ⟨options, bytes, 0, none⟩).1

/-! ## Readings -/

namespace Reading

variable {r : Reading} {ts us : List Token}

/-- The reading with something before everything else. -/
def behind (r : Reading) (ground : List Shape) : Reading := { r with ground := ground ++ r.ground }

lemma add_behind (r : Reading) (ground row : List Shape) :
    (r.behind ground).add row = (r.add row).behind ground := by
  match r with
  | ⟨_, _, some _⟩ => rfl
  | ⟨_, _ :: _, none⟩ => rfl
  | ⟨_, [], none⟩ => simp [behind, add]

/-- What stands before does not matter to a token. -/
lemma step_behind (r : Reading) (ground : List Shape) (t : Token) :
    (r.behind ground).step options t = (r.step options t).behind ground := by
  obtain ⟨kind, start, text⟩ := t
  obtain ⟨inside, levels, quote⟩ := r
  cases kind with
  | literal | escape => exact add_behind _ _ _
  | opening => rfl
  | quote =>
      cases quote with
      | none => rfl
      | some quote => exact add_behind ⟨inside, levels, none⟩ ground _
  | delimiter | range =>
      cases levels with
      | nil => exact add_behind _ _ _
      | cons level outer => rfl
  | closing =>
      cases levels with
      | nil => exact add_behind _ _ _
      | cons level outer => exact add_behind ⟨inside, outer, quote⟩ ground _

lemma foldl_step_behind (r : Reading) (ground : List Shape) (ts : List Token) :
    ts.foldl (step options) (r.behind ground) = (ts.foldl (step options) r).behind ground := by
  induction ts generalizing r with
  | nil => rfl
  | cons t ts ih => rw [List.foldl_cons, List.foldl_cons, step_behind, ih]

lemma row_behind (r : Reading) (ground : List Shape) : (r.behind ground).row = ground ++ r.row := by
  simp [row, behind]

/-- Where a token stands does not matter. -/
lemma foldl_step_content (h : ts.map Token.content = us.map Token.content) (r : Reading) :
    ts.foldl (step options) r = us.foldl (step options) r := by
  have hcontent : ∀ ts : List Token, ts.foldl (step options) r
      = (ts.map Token.content).foldl (fun r c => r.step options ⟨c.1, 0, c.2⟩) r := by
    intro ts
    rw [List.foldl_map]
    rfl
  rw [hcontent, hcontent, h]

end Reading

/-! ## Runs -/

namespace Scanner

variable {s s' u u' : Scanner} {ts us : List Token}

/-- What tokens stand for, by way of their reading. -/
lemma Reads.meaning_eq (h : s.Reads ts s') (hclosed : s.openQuote = none) :
    meaning options expand ts = total Expansions.cross [[]] (Shape.expansions expand)
      (ts.foldl (Reading.step options) {}).row := by
  rw [← Shape.sequential_expansions.joined_fuse, h.measure_eq (measures_meaning options expand) hclosed]
  rfl

lemma Reads.meaning_congr (h : s.Reads ts s') (hclosed : s.openQuote = none) (h' : u.Reads us u')
    (hclosed' : u.openQuote = none) (hcontent : ts.map Token.content = us.map Token.content) :
    meaning options expand ts = meaning options expand us := by
  rw [h.meaning_eq hclosed, h'.meaning_eq hclosed', Reading.foldl_step_content hcontent]

lemma sound_of_closed (hclosed : s.openQuote = none) : s.Sound := by
  simp [Sound, hclosed]

/-- **Every run over the rest of a pattern gives its meaning.** -/
theorem Reads.patternMeaning_eq (h : s.Reads ts s') (hrest : s'.rest = [])
    (hclosed : s.openQuote = none) (hpermissive : s.options.strict = false) (expand : ExpandOptions) :
    patternMeaning s.options expand s.rest = meaning s.options expand ts := by
  set u : Scanner := ⟨s.options, s.rest, 0, none⟩
  have hlonger : s.Longer u [] :=
    ⟨sound_of_closed rfl, rfl, by rw [quoteByte, quoteByte, hclosed], (List.append_nil _).symm⟩
  obtain ⟨us, u', hreads, hcontent, hlonger'⟩ := h.extend (sound_of_closed hclosed) hpermissive hlonger
    fun hne => absurd rfl hne
  have hend : u'.Ends := by
    have hnil : u'.rest = [] := by rw [hlonger'.rest_eq, hrest, List.append_nil]
    intro t ht
    rw [next_end (hreads.options_eq ▸ hpermissive) hnil] at ht
    cases ht
  rw [patternMeaning, hreads.foldTokens_eq, hend.foldTokens_eq, List.foldl_append_eq_append,
    ← List.flatMap_def, List.flatMap_singleton', List.nil_append]
  exact hreads.meaning_congr rfl h hclosed hcontent

/-- Without strict reading everything is read. -/
lemma exists_reads_all (hpermissive : s.options.strict = false) :
    ∃ ts s', s.Reads ts s' ∧ s'.rest = [] := by
  obtain ⟨ts, s', hreads, hends⟩ := exists_reads s
  exact ⟨ts, s', hreads,
    hends.rest_eq_nil (failure?_eq_none (hreads.options_eq ▸ hpermissive))⟩

/-- **Tokens that leave nothing open stand before the rest.** -/
theorem Reads.patternMeaning_append (h : s.Reads ts s') (hclosed : s.openQuote = none)
    (hclosed' : s'.openQuote = none) (hpaired : (nest ts).levels = [])
    (hpermissive : s.options.strict = false) (expand : ExpandOptions) :
    patternMeaning s.options expand s.rest
      = Expansions.cross (meaning s.options expand ts) (patternMeaning s.options expand s'.rest) := by
  have hoptions := h.options_eq
  obtain ⟨us, s'', hmore, hrest⟩ := exists_reads_all (hoptions ▸ hpermissive)
  have hreading : ts.foldl (Reading.step s.options) {}
      = Reading.behind {} (ts.foldl (Reading.step s.options) {}).row := by
    obtain ⟨hshut, hquote, -⟩ := h.reading_eq s.options hclosed
    have hnone : (ts.foldl (Reading.step s.options) {}).quote = none :=
      Option.not_isSome_iff_eq_none.mp (by simp [hquote, hclosed'])
    rw [Reading.shut_of_none hnone] at hshut
    rw [hshut]
    simp [Nesting.reading, hpaired, Reading.behind, Reading.row]
  have hsecond := hmore.patternMeaning_eq hrest hclosed' (hoptions ▸ hpermissive) expand
  rw [hoptions] at hsecond
  rw [(h.append hmore).patternMeaning_eq hrest hclosed hpermissive expand, hsecond,
    (h.append hmore).meaning_eq hclosed, h.meaning_eq hclosed, hmore.meaning_eq hclosed',
    ← Shape.sequential_expansions.total_append, List.foldl_append, hreading,
    Reading.foldl_step_behind, Reading.row_behind]
  simp [Reading.behind, Reading.row]

end Scanner

/-! ## Patterns -/

/-- A pattern that is read to its end expands to what its tokens stand for. -/
theorem expansionsOf_of_reads {pattern : Bytes} {ts : List Token} {s' : Scanner}
    (hreads : Scanner.Reads ⟨options, pattern, 0, none⟩ ts s') (hends : s'.Ends)
    (hnone : s'.failure? = none) (hlength : pattern.length ≤ maxPatternLength)
    (expand : ExpandOptions) :
    expansionsOf options expand pattern = .ok (meaning options expand ts) := by
  have hs : Scanner.ofPattern (Compiler.new options).options pattern = .ok ⟨options, pattern, 0, none⟩ :=
    if_neg (Nat.not_lt.mpr hlength)
  have hcompile := Compiler.compile_of_reads hs hreads hends
  rw [hnone] at hcompile
  have htree := congrArg Prod.fst hcompile
  obtain ⟨s, us, -, hs', hreads', -, htokens, -, hshape, hwalk⟩ := Compiler.compile_ok htree
  obtain rfl := Compiler.ofPattern_eq hs'
  -- there is only one run
  obtain rfl : ts = us := by
    have hsame := htokens.symm.trans (hreads.tokens_eq hends)
    rw [hnone] at hsame
    exact (congrArg Array.toList (Except.ok.inj hsame)).symm
  have hmeaning : ∀ tree : Tree, tree.forest.shape tree.root
      = Shape.joined (fuse (ts.foldl (Reading.step options) {}).row) →
      (tree.forest.shape tree.root).expansions expand = meaning options expand ts := by
    intro tree hshape
    rw [hshape, hreads.measure_eq (measures_meaning options expand) rfl]
    rfl
  rw [expansionsOf, compile, htree, Except.map, Tree.expansions, hwalk, hmeaning _ hshape,
    List.foldl_push_eq_append]
  simp

/-- **Without strict reading every pattern expands to what its tokens stand for.** -/
theorem expansionsOf_eq (hpermissive : options.strict = false) (expand : ExpandOptions)
    {pattern : Bytes} (hlength : pattern.length ≤ maxPatternLength) :
    expansionsOf options expand pattern = .ok (patternMeaning options expand pattern) := by
  obtain ⟨ts, s', hreads, hends⟩ := Scanner.exists_reads ⟨options, pattern, 0, none⟩
  have hnone : s'.failure? = none := Scanner.failure?_eq_none (hreads.options_eq ▸ hpermissive)
  rw [expansionsOf_of_reads hreads hends hnone hlength]
  exact congrArg _ (hreads.patternMeaning_eq (hends.rest_eq_nil hnone) rfl hpermissive expand).symm

end BraceExpansion
