import BraceExpansion.Proofs.Compiler.Simulation
import BraceExpansion.Proofs.Draft.Transport
import BraceExpansion.Proofs.Reading.Proper
import BraceExpansion.Proofs.Tree.Denotation

/-!
# The tree of a pattern

At the end of a pattern everything that is still open is text: the compiler turns the open quote
into a literal, demotes the stack from the first open thing on, and joins what there is.  The result
is the row of the reading, fused (`Compiler.Shows.settled`), and the tree is planted from it
(**`Compiler.Shows.finish`**).
-/

namespace BraceExpansion

namespace Reading

/-- The pieces of open blocks as text. -/
lemma foldr_settle_levels (levels : List Level) (below : List Shape) :
    (levels.flatMap Level.pieces).foldr Piece.settle (below.map .shape)
      = ((levels.reverse.flatMap Level.row).foldl Shape.put below).map .shape := by
  induction levels with
  | nil => rfl
  | cons l outer ih =>
      rw [List.flatMap_cons, List.foldr_append, ih, Level.foldr_settle_pieces, List.reverse_cons,
        List.flatMap_append, List.foldl_append, List.flatMap_singleton]

/-- The outermost block starts where the ground ends. -/
lemma getLast?_blocks (ground : List Shape) {levels : List Level} (h : levels ≠ []) :
    ∃ block, (blocks ground levels).getLast? = some block ∧
      block.base = (fuse ground).length := by
  induction levels with
  | nil => exact absurd rfl h
  | cons l outer ih =>
      cases outer with
      | nil => exact ⟨_, rfl, by simp [levelPieces, blocks]⟩
      | cons k outer =>
          obtain ⟨block, hlast, hbase⟩ := ih (List.cons_ne_nil _ _)
          refine ⟨block, ?_, hbase⟩
          rw [blocks, List.getLast?_cons, hlast]
          rfl

lemma le_length_levelPieces (ground : List Shape) (levels : List Level) :
    (fuse ground).length ≤ (levelPieces ground levels).length := by
  simp [levelPieces]

end Reading

namespace Compiler

variable {c : Compiler} {r : Reading}

/-- **What is open at the end is text.** -/
theorem Shows.settled (h : c.Shows r) : c.settled.Shows ((fuse r.row).map .shape) := by
  obtain ⟨ground, levels, quote⟩ := r
  have hrow : ∀ inside : List Shape,
      (fuse (ground ++ levels.reverse.flatMap Level.row ++ inside)).map Piece.shape
        = (inside.foldl Shape.put
            ((levels.reverse.flatMap Level.row).foldl Shape.put (fuse ground))).map .shape := by
    intro inside
    rw [fuse_append, fuse_append]
  have hbase : levels ≠ [] → ∃ block, c.blocks.getLast? = some block ∧
      block.base = (fuse ground).length := by
    intro hne
    rw [h.blocks]
    exact Reading.getLast?_blocks ground hne
  have hlower : (fuse ground).length = ((fuse ground).map Piece.shape).length := by simp
  cases quote with
  | none =>
      have hopen : c.openQuote = none := h.quote
      have hwork : c.work.Shows (levels.flatMap Level.pieces ++ (fuse ground).map .shape) := h.work
      rw [Reading.row, hrow]
      by_cases hlevels : levels = []
      · have hblocks : c.blocks = [] := by rw [h.blocks]; simp [hlevels, Reading.blocks]
        simpa [Compiler.settled, firstOpen?, hopen, hblocks, hlevels] using hwork
      · obtain ⟨block, hlast, hblock⟩ := hbase hlevels
        simp only [Compiler.settled, firstOpen?, hopen, hlast, hblock]
        rw [hlower]
        have hdemote := WorkStack.shows_demote hwork
        rwa [Reading.foldr_settle_levels] at hdemote
  | some quote =>
      obtain ⟨text, inside⟩ := quote
      have hopen : c.openQuote = some (Reading.levelPieces ground levels).length := h.quote
      have hstart : c.firstOpen? = some (fuse ground).length := by
        by_cases hlevels : levels = []
        · have hblocks : c.blocks = [] := by rw [h.blocks]; simp [hlevels, Reading.blocks]
          simp [firstOpen?, hopen, hblocks, hlevels, Reading.levelPieces]
        · obtain ⟨block, hlast, hblock⟩ := hbase hlevels
          have hle := Reading.le_length_levelPieces ground levels
          simp only [firstOpen?, hopen, hlast, hblock]
          rw [Nat.min_eq_right hle]
      have hwork : c.work.Shows ((fuse inside).map .shape ++
          .shape (.leaf .quote text) :: Reading.levelPieces ground levels) := h.work
      have hliteral := WorkStack.shows_modify (.shape (.leaf .literal text)) Draft.toLiteral rfl rfl
        hwork
      have hsplit : (fuse inside).map Piece.shape ++
          .shape (.leaf .literal text) :: Reading.levelPieces ground levels
          = ((fuse inside).map .shape ++ .shape (.text text) :: levels.flatMap Level.pieces) ++
            (fuse ground).map .shape := by
        simp [Reading.levelPieces]
      rw [hsplit] at hliteral
      have hdemote := WorkStack.shows_demote hliteral
      rw [List.foldr_append, List.foldr_cons, Reading.foldr_settle_levels, ← map_put,
        foldr_settle_fuse] at hdemote
      rw [Reading.row, hrow]
      simp only [Compiler.settled, hopen, hstart]
      rw [hlower]
      exact hdemote

lemma Shows.joined (h : c.Shows r) :
    (c.settled.join 0).Shows [.shape (Shape.joined (fuse r.row))] := by
  have hsettled : c.settled.Shows ((fuse r.row).map .shape ++ []) := by simpa using h.settled
  have hjoin := WorkStack.shows_join hsettled
  rwa [joined_map] at hjoin

/-- **At the end there is one draft on the stack.** -/
theorem Shows.joined_single (h : c.Shows r) : ∃ id used, (c.settled.join 0).items = #[id] ∧
    (c.settled.join 0).pool.Holds [id] [.shape (Shape.joined (fuse r.row))] used ∧
      (c.settled.join 0).pool.Owns used := by
  rcases h.joined with ⟨used, hholds, howns⟩
  have hlength := hholds.length_eq
  rw [List.length_reverse, List.length_singleton] at hlength
  rcases List.length_eq_one_iff.mp hlength with ⟨id, hitems⟩
  rw [hitems, List.reverse_singleton] at hholds
  exact ⟨id, used, Array.toList_inj.1 hitems, hholds, howns⟩

/-- The tree is planted from the one draft that is left. -/
lemma finish_tree (c : Compiler) : c.finish.1 =
    (((c.settled.join 0).pool.plant .empty ((c.settled.join 0).items.getD 0 0)).2).toTree
      (((c.settled.join 0).pool.plant .empty ((c.settled.join 0).items.getD 0 0)).1) := rfl

/-- **The tree of a pattern** stands for the row of what has been read, in nodes of which none is
shared. -/
theorem Shows.finish (h : c.Shows r) : ∃ forest root, c.finish.1 = Forest.toTree forest root ∧
    Forest.empty.Grafts forest [root] [Shape.joined (fuse r.row)] := by
  rcases h.joined_single with ⟨id, used, hitems, hholds, howns⟩
  have hid : (c.settled.join 0).items.getD 0 0 = id := by simp [hitems]
  refine ⟨_, _, rfl, ?_⟩
  rw [hid]
  exact hholds.plant howns .empty

/-- Every node of the tree is below the root, and there once. -/
lemma Shows.perm_below (h : c.Shows r) :
    (c.finish.1.forest.below c.finish.1.root).Perm (List.range c.finish.1.size) := by
  rcases h.joined_single with ⟨id, used, hitems, hholds, howns⟩
  have hid : (c.settled.join 0).items.getD 0 0 = id := by simp [hitems]
  rw [finish_tree, hid]
  exact hholds.perm_below howns

/-! ## Whole patterns -/

lemma options_start (c : Compiler) : c.start.options = c.options := rfl

/-- A run to the end of a pattern, or to the first error, is all there is to compiling it. -/
lemma compile_of_reads {pattern : Bytes} {s s' : Scanner} {ts : List Token}
    (hs : Scanner.ofPattern c.options pattern = .ok s) (hreads : s.Reads ts s') (hends : s'.Ends) :
    c.compile pattern = match s'.failure? with
      | some e => (.error e, ts.foldl step c.start)
      | none => (.ok (ts.foldl step c.start).finish.1, (ts.foldl step c.start).finish.2) := by
  rw [compile, hs]
  simp only [hreads.foldTokens_eq, hends.foldTokens_eq]
  cases s'.failure? <;> rfl

/-- The tokens of a pattern are folded up to its end, or to the first error. -/
lemma compile_eq (c : Compiler) {pattern : Bytes} {s : Scanner}
    (hs : Scanner.ofPattern c.options pattern = .ok s) :
    ∃ ts s', s.Reads ts s' ∧ s'.Ends ∧ (c.compile pattern).1 = match s'.failure? with
      | some e => .error e
      | none => .ok (ts.foldl step c.start).finish.1 := by
  rcases s.exists_reads with ⟨ts, s', hreads, hends⟩
  refine ⟨ts, s', hreads, hends, ?_⟩
  rw [compile_of_reads hs hreads hends]
  cases s'.failure? <;> rfl

lemma ofPattern_eq {options : CompileOptions} {pattern : Bytes} {s : Scanner}
    (hs : Scanner.ofPattern options pattern = .ok s) :
    s = ⟨options, pattern, 0, none⟩ := by
  rw [Scanner.ofPattern] at hs
  split at hs
  · cases hs
  · cases hs
    rfl

/-- A tree that comes back is made from what all tokens come to. -/
lemma finish_of_compile {pattern : Bytes} {tree : Tree} (h : (c.compile pattern).1 = .ok tree) :
    ∃ s ts s', Scanner.ofPattern c.options pattern = .ok s ∧ s.Reads ts s' ∧ s'.rest = [] ∧
      s.tokens = .ok ts.toArray ∧ tree = (ts.foldl step c.start).finish.1 ∧
      (ts.foldl step c.start).Shows (ts.foldl (Reading.step c.options) {}) := by
  cases hs : Scanner.ofPattern c.options pattern with
  | error e =>
      rw [compile, hs] at h
      cases h
  | ok s =>
      rcases c.compile_eq hs with ⟨ts, s', hreads, hends, hcompile⟩
      cases hfailure : s'.failure? with
      | some e =>
          rw [hcompile, hfailure] at h
          cases h
      | none =>
          rw [hcompile, hfailure] at h
          cases h
          have hquote : (({} : Reading).quote.isSome) = s.openQuote.isSome := by
            rw [ofPattern_eq hs]
            rfl
          refine ⟨s, ts, s', rfl, hreads, hends.rest_eq_nil hfailure, ?_, rfl,
            (Shows.reads hreads c.shows_start hquote).1⟩
          rw [hreads.tokens_eq hends, hfailure]

/-- **A tree that comes back** stands for the row of the reading of all tokens, and a walk hands out
what this shape stands for, however the compiler has been used before. -/
theorem compile_ok {c : Compiler} {pattern : Bytes} {tree : Tree}
    (h : (c.compile pattern).1 = .ok tree) :
    ∃ s ts s', Scanner.ofPattern c.options pattern = .ok s ∧ s.Reads ts s' ∧ s'.rest = [] ∧
      s.tokens = .ok ts.toArray ∧ (tree.forest.below tree.root).Nodup ∧
      tree.forest.shape tree.root
        = Shape.joined (fuse (ts.foldl (Reading.step c.options) {}).row) ∧
      ∀ (options : ExpandOptions) {σ : Type} (emit : σ → Buffer → σ) (acc : σ) (buffer : Buffer),
        (tree.walk options emit acc buffer).1
          = ((tree.forest.shape tree.root).expansions options).foldl
            (fun acc x => emit acc x.toArray) acc := by
  rcases finish_of_compile h with ⟨s, ts, s', hs, hreads, hrest, htokens, rfl, hshows⟩
  rcases hshows.finish with ⟨forest, root, hfinish, hgrafts⟩
  have hnodup : (forest.below root).Nodup := by simpa using hgrafts.nodup
  have hshape : forest.shape root
      = Shape.joined (fuse (ts.foldl (Reading.step c.options) {}).row) := by
    simpa using hgrafts.shapes_eq
  have hproper : (forest.shape root).Proper := by
    rw [hshape]
    exact Reading.proper_foldl c.options ts
  rw [hfinish]
  refine ⟨s, ts, s', hs, hreads, hrest, htokens, hnodup, hshape, ?_⟩
  intro options σ emit acc buffer
  have hwritten := Tree.written_walk False options emit
    (hgrafts.lt_size root List.mem_cons_self) hnodup hproper False.elim acc buffer
  rw [hwritten.1, emitAll]
  simp [Forest.toTree]

/-- **Only strict reading fails**, and a pattern that is too long. -/
theorem compile_total {c : Compiler} (hstrict : c.options.strict = false) {pattern : Bytes}
    (hlength : pattern.length ≤ maxPatternLength) : ∃ tree, (c.compile pattern).1 = .ok tree := by
  have hs : Scanner.ofPattern c.options pattern = .ok ⟨c.options, pattern, 0, none⟩ := by
    rw [Scanner.ofPattern, if_neg (Nat.not_lt.mpr hlength)]
  rcases c.compile_eq hs with ⟨ts, s', hreads, -, hcompile⟩
  have hfailure : s'.failure? = none := by
    refine Scanner.failure?_eq_none ?_
    rw [hreads.options_eq]
    exact hstrict
  exact ⟨_, by rw [hcompile, hfailure]⟩

/-- A pattern whose tokens are known comes to a tree with the shape of their reading. -/
lemma exists_tree_of_reads {c : Compiler} {pattern : Bytes} {ts : List Token} {s' : Scanner}
    (hlength : pattern.length ≤ maxPatternLength)
    (hreads : Scanner.Reads ⟨c.options, pattern, 0, none⟩ ts s') (hends : s'.Ends)
    (hnone : s'.failure? = none) :
    ∃ tree, (c.compile pattern).1 = .ok tree ∧ tree.forest.shape tree.root
      = Shape.joined (fuse (ts.foldl (Reading.step c.options) {}).row) := by
  have hs : Scanner.ofPattern c.options pattern = .ok ⟨c.options, pattern, 0, none⟩ :=
    if_neg (Nat.not_lt.mpr hlength)
  have hcompile := compile_of_reads hs hreads hends
  rw [hnone] at hcompile
  have htree := congrArg Prod.fst hcompile
  rcases compile_ok htree with ⟨_, us, _, hs', -, -, htokens, -, hshape, -⟩
  obtain rfl := Except.ok.inj (hs.symm.trans hs')
  rw [hreads.tokens_eq hends, hnone] at htokens
  obtain rfl : ts = us := congrArg Array.toList (Except.ok.inj htokens)
  exact ⟨_, htree, hshape⟩

end Compiler

end BraceExpansion
