import BraceExpansion.Proofs.Draft.Demotion
import BraceExpansion.Proofs.Draft.Planting
import BraceExpansion.Proofs.Reading.State
import BraceExpansion.Proofs.Token.Stream

/-!
# The compiler does what a reading does

`Compiler.Shows c r` says that the stack of `c` holds the pieces of `r`, and that its blocks and its
open quote are where `r` has them.  **`Compiler.Shows.step`** says that one token keeps this up, and
`Compiler.Shows.reads` that a run does.

The positions and counters of the compiler are lengths in the reading.  Of the reading only two
things matter: that no level has alternatives and bounds at once (`Level.Divided`), and that what
comes below a row is firm, so that text does not run over into another block.
-/

namespace BraceExpansion

namespace Compiler

variable {c : Compiler} {r : Reading} {t : Token}

/-- The compiler has read `r`. -/
structure Shows (c : Compiler) (r : Reading) : Prop where
  work : c.work.Shows r.pieces
  blocks : c.blocks = Reading.blocks r.ground r.levels
  quote : c.openQuote = r.quotePosition
  divided : ∀ l ∈ r.levels, l.Divided

/-- A compiler at the start of a pattern has read nothing, whatever it has been used for. -/
lemma shows_start (c : Compiler) : c.start.Shows {} :=
  ⟨WorkStack.shows_clear c.work, rfl, rfl, by simp⟩

/-! ## Text and structures -/

lemma divided_add (h : ∀ l ∈ r.levels, l.Divided) (row : List Shape) :
    ∀ l ∈ (r.add row).levels, l.Divided := by
  match r, h with
  | ⟨_, _, some _⟩, h => exact h
  | ⟨_, [], none⟩, h => exact h
  | ⟨_, l :: outer, none⟩, h =>
    rintro k hk
    rcases List.mem_cons.mp hk with rfl | hk
    · exact Level.divided_add (h l List.mem_cons_self) row
    · exact h k (List.mem_cons_of_mem _ hk)

/-- A stack with more shapes on it, and nothing else changed. -/
lemma Shows.add (h : c.Shows r) {w : WorkStack} (row : List Shape)
    (hw : w.Shows ((fuse (r.top ++ row)).map .shape ++ r.under)) :
    Shows { c with work := w } (r.add row) := by
  refine ⟨?_, ?_, ?_, divided_add h.divided row⟩
  · rw [Reading.pieces_add]; exact hw
  · rw [Reading.blocks_add]; exact h.blocks
  · rw [Reading.quotePosition_add]; exact h.quote

lemma Shows.literal (h : c.Shows r) (text : Bytes) :
    (c.literal text).Shows (r.add [.text text]) := by
  refine h.add _ ?_
  rw [← appendText_fuse r.firm_under, ← Reading.pieces_eq]
  exact WorkStack.shows_appendLiteral h.work text

lemma Shows.push (h : c.Shows r) {s : Shape} {d : Draft} (hs : s.isLiteral = false)
    (hd : (Piece.shape s).draft? = some d) : (c.push d).Shows (r.add [s]) := by
  refine h.add _ ?_
  rw [← cons_fuse hs, ← Reading.pieces_eq]
  exact WorkStack.shows_push hd h.work

/-! ## Quotes -/

lemma pieces_closeQuote (ground inside : List Shape) (levels : List Level) (opening text : Bytes) :
    ((⟨ground, levels, none⟩ : Reading).add
        (.leaf .quote opening :: (inside ++ [.leaf .quote text]))).pieces
      = .shape (.leaf .quote text) :: ((fuse inside).map .shape ++
          .shape (.leaf .quote opening) :: Reading.levelPieces ground levels) := by
  have hbelow : Reading.levelPieces ground levels
      = (⟨ground, levels, none⟩ : Reading).pieces := rfl
  rw [Reading.pieces_add, fuse_firm rfl, fuse_append, hbelow, Reading.pieces_eq]
  simp [Shape.put_of_not_literal (s := .leaf .quote text) rfl]

lemma Shows.toggle (h : c.Shows r) (text : Bytes) : (c.quote text).Shows (r.toggle text) := by
  obtain ⟨ground, levels, quote⟩ := r
  have hsize := h.work.size_eq
  cases quote with
  | none =>
      have hopen : c.openQuote = none := h.quote
      refine ⟨?_, h.blocks, ?_, h.divided⟩
      · exact WorkStack.shows_push rfl h.work
      · simp only [Compiler.quote, hopen, Reading.toggle, Reading.quotePosition, Option.map_some]
        rw [hsize]
        rfl
  | some quote =>
      obtain ⟨opening, inside⟩ := quote
      have hopen : c.openQuote = some (Reading.levelPieces ground levels).length := h.quote
      refine ⟨?_, ?_, ?_, divided_add (r := ⟨ground, levels, none⟩) h.divided _⟩
      · simp only [Reading.toggle]
        rw [pieces_closeQuote]
        exact WorkStack.shows_push rfl h.work
      · simp only [Reading.toggle]
        rw [Reading.blocks_add]
        exact h.blocks
      · simp only [Reading.toggle]
        rw [Reading.quotePosition_add]
        simp [Compiler.quote, hopen, Reading.quotePosition]

/-! ## Blocks -/

section

variable {ground : List Shape} {l : Level} {outer : List Level}

/-- What the compiler keeps about an innermost block, outside quotes. -/
lemma Shows.block (h : c.Shows ⟨ground, l :: outer, none⟩) :
    c.work.Shows (l.pieces ++ Reading.levelPieces ground outer) ∧
      c.blocks = { base := (Reading.levelPieces ground outer).length
                   separators := l.bounds.length
                   ranging := l.ranging
                   delimiters := l.alternatives.length } :: Reading.blocks ground outer ∧
      c.openQuote = none ∧ l.Divided := by
  refine ⟨?_, h.blocks, h.quote, h.divided l List.mem_cons_self⟩
  rw [← Reading.levelPieces_cons]
  exact h.work

lemma Shows.openBlock (h : c.Shows ⟨ground, outer, none⟩) (text : Bytes) :
    (c.openBlock text).Shows ⟨ground, { opening := text } :: outer, none⟩ := by
  have hpieces : (⟨ground, { opening := text } :: outer, none⟩ : Reading).pieces
      = .mark .opening text :: Reading.levelPieces ground outer := rfl
  refine ⟨?_, ?_, h.quote, ?_⟩
  · rw [hpieces]
    exact WorkStack.shows_push rfl h.work
  · simp only [Compiler.openBlock, Compiler.push, Reading.blocks]
    rw [h.work.size_eq, h.blocks]
    rfl
  · rintro k hk
    rcases List.mem_cons.mp hk with rfl | hk
    · exact Level.divided_opening text
    · exact h.divided k hk

lemma Shows.delimiter (h : c.Shows ⟨ground, l :: outer, none⟩) (text : Bytes) :
    (c.delimiter text).Shows ⟨ground, l.comma text :: outer, none⟩ := by
  obtain ⟨hwork, hblocks, hquote, hdivided⟩ := h.block
  have hrest : ∀ k ∈ outer, k.Divided := fun k hk => h.divided k (List.mem_cons_of_mem _ hk)
  obtain ⟨options, work, blocks, openQuote⟩ := c
  have hjoin : ∀ {w : WorkStack} {rest : List Piece},
      (∀ piece ∈ rest.head?, piece.isMark = true) →
      w.Shows ((fuse l.segment).map .shape ++ rest) →
      (w.joinSegment.push (.mark .delimiter text.toArray)).Shows
        (.mark .delimiter text :: .shape (Shape.joined (fuse l.segment)) :: rest) := by
    intro w rest hrest hw
    rw [← joined_map]
    refine WorkStack.shows_push rfl (WorkStack.shows_joinSegment ?_ hrest hw)
    simp [Piece.isMark]
  have hcomma : ∀ {w : WorkStack} {ranging : Bool}, ranging = (l.comma text).ranging →
      w.Shows (.mark .delimiter text :: .shape (Shape.joined (fuse l.segment)) ::
        (l.alternativePieces ++ [.mark .opening l.opening] ++ Reading.levelPieces ground outer)) →
      Shows ⟨options, w, { base := (Reading.levelPieces ground outer).length
                           separators := 0
                           ranging := ranging
                           delimiters := l.alternatives.length + 1 } ::
        Reading.blocks ground outer, openQuote⟩ ⟨ground, l.comma text :: outer, none⟩ := by
    rintro w ranging rfl hw
    refine ⟨?_, rfl, hquote, ?_⟩
    · show w.Shows (Reading.levelPieces ground (l.comma text :: outer))
      rw [Reading.levelPieces_cons]
      exact hw
    · exact List.forall_mem_cons.mpr ⟨Level.divided_comma l text, hrest⟩
  simp only at hblocks hwork
  subst hblocks
  simp only [Compiler.delimiter]
  by_cases hbounds : l.bounds = []
  · have hsegment : l.segment = l.current := by simp [Level.segment, hbounds]
    have hpast : l.past = l.alternativePieces ++ [.mark .opening l.opening] := by
      simp [Level.past, Level.boundPieces, hbounds]
    refine hcomma (by simp [Level.comma, hbounds]) ?_
    simp only [hbounds, List.length_nil, Nat.lt_irrefl, decide_false, Bool.false_eq_true, if_false]
    refine hjoin ?_ ?_
    · rw [← hpast]
      exact l.past_head_isMark _
    · rw [hsegment, ← hpast, ← List.append_assoc]
      exact hwork
  · have halternatives : l.alternatives = [] := hdivided.either.resolve_right hbounds
    have hpositive : 0 < l.bounds.length := List.length_pos_iff.mpr hbounds
    refine hcomma (by simp [Level.comma, hbounds, hpositive]) ?_
    simp only [hpositive, decide_true, if_true]
    refine hjoin ?_ ?_
    · simp [Level.alternativePieces, halternatives, Piece.isMark]
    · have hlower : (Reading.levelPieces ground outer).length + 1
          = (Piece.mark .opening l.opening :: Reading.levelPieces ground outer).length := rfl
      have hpieces : l.pieces ++ Reading.levelPieces ground outer
          = ((fuse l.current).map .shape ++ l.boundPieces) ++
            Piece.mark .opening l.opening :: Reading.levelPieces ground outer := by
        simp [Level.pieces, Level.past, Level.alternativePieces, halternatives]
      rw [hpieces] at hwork
      have hdemote := WorkStack.shows_demote_above hwork
      rw [← List.map_nil (f := Piece.shape), Level.foldr_settle_segment] at hdemote
      rw [hlower]
      simpa [Level.alternativePieces, halternatives, fuse] using hdemote

lemma Shows.rangeSeparator (h : c.Shows ⟨ground, l :: outer, none⟩) (text : Bytes) :
    (c.rangeSeparator text).Shows ⟨ground, l.separate text :: outer, none⟩ := by
  obtain ⟨hwork, hblocks, hquote, hdivided⟩ := h.block
  have hliteral := h.literal text
  obtain ⟨options, work, blocks, openQuote⟩ := c
  have hcount : work.size - (Reading.levelPieces ground outer).length = l.pieces.length := by
    have hsize := hwork.size_eq
    rw [List.length_append] at hsize
    simp only at hsize
    omega
  have hcond : (decide (0 < l.alternatives.length) || !l.ranging ||
      decide (2 ≤ l.bounds.length)) = (!l.alternatives.isEmpty || !l.ranging ||
        decide (2 ≤ l.bounds.length)) := by
    cases l.alternatives <;> simp
  have hrest : ∀ k ∈ outer, k.Divided := fun k hk => h.divided k (List.mem_cons_of_mem _ hk)
  simp only at hblocks
  subst hblocks
  simp only [Compiler.rangeSeparator, Level.separate, hcond, hcount]
  by_cases htext : (!l.alternatives.isEmpty || !l.ranging || decide (2 ≤ l.bounds.length)) = true
  · simp only [htext, if_true]
    exact hliteral
  · have hboundary := Level.divided_separate hdivided text
    rw [Level.separate, if_neg htext] at hboundary
    simp only [htext, Bool.false_eq_true, if_false]
    by_cases hseparates : separates l.pieces.length = true
    · simp only [hseparates, if_true] at hboundary ⊢
      refine ⟨?_, rfl, hquote, ?_⟩
      · have hpieces : Reading.levelPieces ground
            ({ l with bounds := (l.current, text) :: l.bounds, current := [] } :: outer)
            = .mark .range text :: (l.pieces ++ Reading.levelPieces ground outer) := by
          rw [Reading.levelPieces_cons]
          simp [Level.pieces, Level.past, Level.boundPieces, Level.alternativePieces]
        show WorkStack.Shows _ (Reading.levelPieces ground (_ :: outer))
        rw [hpieces]
        exact WorkStack.shows_push rfl hwork
      · exact List.forall_mem_cons.mpr ⟨hboundary, hrest⟩
    · simp only [hseparates, Bool.false_eq_true, if_false] at hboundary ⊢
      refine ⟨hliteral.work, ?_, hliteral.quote, ?_⟩
      · simp only [Compiler.literal, Reading.blocks, Level.add]
      · exact List.forall_mem_cons.mpr ⟨hboundary, hrest⟩

/-- The marks of an alternation are dropped. -/
lemma gathered_alternatives (l : Level) (hbounds : l.bounds = []) :
    Piece.gathered .alternate (.shape (Shape.joined (fuse l.current)) :: l.past) = l.choice := by
  have hcontribution : ∀ alternatives : List (List Shape × Bytes),
      (alternatives.flatMap fun a =>
          [Piece.mark .delimiter a.2, .shape (Shape.joined (fuse a.1))]).reverse.flatMap
        (Piece.contribution .alternate)
      = (alternatives.map fun a => Shape.joined (fuse a.1)).reverse.flatMap
        (Shape.splice .alternate) := by
    intro alternatives
    induction alternatives with
    | nil => rfl
    | cons a alternatives ih =>
        rw [List.flatMap_cons, List.reverse_append, List.flatMap_append, ih, List.map_cons,
          List.reverse_cons, List.flatMap_append]
        simp [Piece.contribution]
  rw [Piece.gathered, Level.choice, Shape.gathered, Level.past, Level.boundPieces, hbounds,
    Level.alternativePieces]
  simp only [List.flatMap_nil, List.nil_append, List.reverse_cons, List.reverse_append,
    List.flatMap_append, List.flatMap_cons, hcontribution]
  simp [Piece.contribution]

/-- What a closing brace makes of the pieces of a block. -/
lemma shows_closed (options : CompileOptions) {work : WorkStack} {row : List Shape}
    {rest : List Piece} (hfirm : Firm rest) (hdivided : l.Divided) (text : Bytes)
    (hwork : work.Shows (l.pieces ++ ((fuse row).map .shape ++ rest))) :
    (closed options work
        { base := ((fuse row).map Piece.shape ++ rest).length
          separators := l.bounds.length
          ranging := l.ranging
          delimiters := l.alternatives.length } text).Shows
      ((fuse (row ++ l.close options text)).map .shape ++ rest) := by
  rw [closed, Level.close]
  simp only
  cases halternatives : l.alternatives with
  | cons a alternatives =>
      have hbounds : l.bounds = [] := by simpa [halternatives] using hdivided.either
      have hsegment : work.joinSegment.Shows ((.shape (Shape.joined (fuse l.current)) :: l.past) ++
          ((fuse row).map .shape ++ rest)) := by
        rw [← joined_map]
        refine WorkStack.shows_joinSegment ?_ (l.past_head_isMark _) ?_
        · simp [Piece.isMark]
        · simpa [Level.pieces] using hwork
      have hgather := WorkStack.shows_gather .alternate hsegment
      rw [gathered_alternatives l hbounds, cons_fuse rfl] at hgather
      simpa using hgather
  | nil =>
      have hpast : l.past = l.boundPieces ++ [.mark .opening l.opening] := by
        simp [Level.past, Level.alternativePieces, halternatives]
      have htext : ((work.demote ((fuse row).map Piece.shape ++ rest).length true).appendLiteral
          text).Shows ((fuse (row ++ (l.row ++ [.text text]))).map .shape ++ rest) := by
        rw [← List.append_assoc, ← appendText_fuse hfirm]
        refine WorkStack.shows_appendLiteral ?_ text
        have hdemote := WorkStack.shows_demote hwork
        rwa [foldr_settle_firm hfirm, Level.foldr_settle_pieces, ← fuse_append] at hdemote
      have hblock : work.Shows (((fuse l.current).map .shape ++ l.boundPieces) ++
          .mark .opening l.opening :: ((fuse row).map .shape ++ rest)) := by
        simpa [Level.pieces, hpast] using hwork
      have hclose := WorkStack.shows_closeRange? options (by simp [Piece.draft?])
        hblock
      have hcond : (l.ranging && decide (0 < l.bounds.length))
          = (l.ranging && !l.bounds.isEmpty) := by
        cases l.bounds <;> simp
      simp only [List.length_nil, Nat.lt_irrefl, if_false, List.isEmpty_nil, if_true, hcond,
        Level.range?]
      cases hranging : l.ranging && !l.bounds.isEmpty with
      | false => simpa using htext
      | true =>
          simp only [if_true]
          cases hread : Piece.readRange? options
              ((fuse l.current).map Piece.shape ++ l.boundPieces).reverse with
          | none =>
              rw [hread] at hclose
              simp only [hclose]
              exact htext
          | some range =>
              obtain ⟨kind, p⟩ := range
              rw [hread] at hclose
              obtain ⟨w, hw, hshows⟩ := hclose
              simp only [hw]
              rwa [cons_fuse rfl] at hshows

lemma Shows.closeBlock (h : c.Shows ⟨ground, l :: outer, none⟩) (text : Bytes) :
    (c.closeBlock text).Shows
      ((⟨ground, outer, none⟩ : Reading).add (l.close c.options text)) := by
  obtain ⟨hwork, hblocks, hquote, hdivided⟩ := h.block
  obtain ⟨options, work, blocks, openQuote⟩ := c
  have hbelow : Reading.levelPieces ground outer
      = (⟨ground, outer, none⟩ : Reading).pieces := rfl
  have houter : ∀ k ∈ outer, k.Divided := fun k hk => h.divided k (List.mem_cons_of_mem _ hk)
  simp only at hblocks
  subst hblocks
  rw [hbelow, Reading.pieces_eq] at hwork
  have hclosed := shows_closed options (Reading.firm_under _) hdivided text hwork
  refine ⟨?_, ?_, ?_, divided_add (r := ⟨ground, outer, none⟩) houter _⟩
  · rw [Reading.pieces_add]
    simp only [Compiler.closeBlock]
    rw [hbelow, Reading.pieces_eq]
    exact hclosed
  · rw [Reading.blocks_add]
    rfl
  · rw [Reading.quotePosition_add]
    exact hquote

end

/-! ## Tokens -/

/-- **One token.**  Inside quotes there is no punctuation. -/
theorem Shows.step (h : c.Shows r) (hwithin : r.quote.isSome → t.Inner) :
    (c.step t).Shows (r.step c.options t) := by
  obtain ⟨kind, start, text⟩ := t
  -- tokens that mean the same everywhere
  have hsame : kind = .literal ∨ kind = .escape ∨ kind = .quote →
      (c.step ⟨kind, start, text⟩).Shows (r.step c.options ⟨kind, start, text⟩) := by
    rintro (rfl | rfl | rfl)
    · exact h.literal text
    · exact h.push rfl (by simp [Piece.draft?])
    · exact h.toggle text
  obtain ⟨ground, levels, quote⟩ := r
  cases quote with
  | some quote => exact hsame (hwithin rfl)
  | none =>
      -- outside all blocks, punctuation but for opening braces is text
      have hground : levels = [] → kind = .delimiter ∨ kind = .range ∨ kind = .closing →
          (c.step ⟨kind, start, text⟩).Shows
            (Reading.step c.options ⟨ground, levels, none⟩ ⟨kind, start, text⟩) := by
        rintro rfl hkind
        have hblocks : c.blocks = [] := h.blocks
        have hliteral := h.literal text
        obtain ⟨options, work, blocks, openQuote⟩ := c
        subst hblocks
        rcases hkind with rfl | rfl | rfl
        · exact hliteral
        · exact hliteral
        · exact hliteral
      cases kind with
      | literal => exact hsame (Or.inl rfl)
      | escape => exact hsame (Or.inr (Or.inl rfl))
      | quote => exact hsame (Or.inr (Or.inr rfl))
      | opening => exact h.openBlock text
      | delimiter =>
          cases levels with
          | nil => exact hground rfl (Or.inl rfl)
          | cons l outer => exact h.delimiter text
      | range =>
          cases levels with
          | nil => exact hground rfl (Or.inr (Or.inl rfl))
          | cons l outer => exact h.rangeSeparator text
      | closing =>
          cases levels with
          | nil => exact hground rfl (Or.inr (Or.inr rfl))
          | cons l outer => exact h.closeBlock text

lemma options_step (c : Compiler) (t : Token) : (c.step t).options = c.options := by
  obtain ⟨options, work, blocks, openQuote⟩ := c
  obtain ⟨kind, start, text⟩ := t
  cases kind with
  | literal => rfl
  | escape => rfl
  | quote => rfl
  | opening => rfl
  | delimiter => cases blocks <;> rfl
  | closing => cases blocks <;> rfl
  | range =>
      cases blocks with
      | nil => rfl
      | cons block outer =>
          simp only [Compiler.step, Compiler.rangeSeparator]
          split
          · rfl
          · split
            · rfl
            · rfl

/-- **A run.**  The compiler and the reading take the same tokens to the same place. -/
theorem Shows.reads {s s' : Scanner} {ts : List Token} (hreads : s.Reads ts s')
    (h : c.Shows r) (hquote : r.quote.isSome = s.openQuote.isSome) :
    (ts.foldl Compiler.step c).Shows (ts.foldl (Reading.step c.options) r) ∧
      (ts.foldl (Reading.step c.options) r).quote.isSome = s'.openQuote.isSome := by
  induction hreads generalizing c r with
  | nil => exact ⟨h, hquote⟩
  | cons hnext hrest ih =>
      have hfollows := Scanner.follows_of_next hnext
      have hstep := h.step (by rw [hquote]; exact hfollows.within)
      have hquote' := Reading.quote_step c.options r _ |>.trans (by rw [hquote, ← hfollows.quoting])
      have hih := ih hstep hquote'
      rw [options_step] at hih
      exact hih

end Compiler

end BraceExpansion
