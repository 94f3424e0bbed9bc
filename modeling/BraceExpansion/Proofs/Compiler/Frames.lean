import BraceExpansion.Kind.Set
import BraceExpansion.Proofs.Compiler.Simulation
import Mathlib.Data.List.Chain

/-!
# Blocks and the marks on the stack

The compiler keeps the open blocks apart from the stack, in positions and counters.
`Compiler.Framed` says that the two agree: there is an opening mark where a block starts and nowhere
else, and what a block has counted are the marks that stand between it and the next one.

**Lists.**  `Frames blocks kinds` says the same along the stack, one block on top of the other, so
that it can be shown by induction.  Its positions are `Frames.nested`, `Frames.opening_iff`,
`Frames.covered` and `Frames.counted`.

**Readings.**  The stack of a reading is framed by its blocks (`Reading.frames_blocks`), and no two
literals stand side by side in it (`Reading.isChain_pieces`).  So a compiler that shows a reading is
framed: **`Compiler.Shows.framed`**.
-/

namespace BraceExpansion

/-- The separators of a block as one number: how many there are, complemented once the block can no
longer be a range. -/
def Block.ranges (b : Block) : Int := if b.ranging then b.separators else -(b.separators + 1)

/-- The kinds of the drafts, from the bottom up. -/
def WorkStack.kinds (w : WorkStack) : List Kind :=
  w.items.toList.map fun id => (w.pool.get id).kind

/-- How many drafts of a kind there are from one position to another. -/
def WorkStack.countFrom (w : WorkStack) (lower upper : Nat) (k : Kind) : Nat :=
  ((w.kinds.take upper).drop lower).count k

lemma WorkStack.length_kinds (w : WorkStack) : w.kinds.length = w.size := by
  simp [WorkStack.kinds, WorkStack.size]

namespace Compiler

/-- The open blocks, each with the position where its part of the stack ends: at the next block, or
at the top. -/
def extents (c : Compiler) : List (Block × Nat) :=
  c.blocks.zip (c.work.size :: c.blocks.map Block.base)

/-- The blocks, the open quote and the stack agree. -/
structure Framed (c : Compiler) : Prop where
  /-- Inner blocks start above outer ones. -/
  nested : c.blocks.Pairwise fun inner outer => outer.base < inner.base
  /-- Opening marks stand where blocks start, and nowhere else. -/
  openings : ∀ i, c.work.kinds[i]? = some .braceOpen ↔ ∃ b ∈ c.blocks, b.base = i
  /-- Other marks stand in blocks. -/
  covered : ∀ i k, c.work.kinds[i]? = some k → k.isMark = true → k ≠ .braceOpen →
    ∃ b ∈ c.blocks, b.base < i
  delimiters : ∀ e ∈ c.extents, c.work.countFrom e.1.base e.2 .braceDelimiter = e.1.delimiters
  /-- The separators are what the counter says, or its complement. -/
  separators : ∀ e ∈ c.extents, (c.work.countFrom e.1.base e.2 .braceRange : Int)
    = if 0 ≤ e.1.ranges then e.1.ranges else -(e.1.ranges + 1)
  either : ∀ e ∈ c.extents, c.work.countFrom e.1.base e.2 .braceDelimiter = 0 ∨
    c.work.countFrom e.1.base e.2 .braceRange = 0
  bounded : ∀ b ∈ c.blocks, -2 ≤ b.ranges ∧ b.ranges ≤ 2
  /-- Text has run together. -/
  apart : ∀ i, c.work.kinds[i]? = some .literal → c.work.kinds[i + 1]? ≠ some .literal
  /-- The open quote is where it is said to be, and inside all blocks. -/
  quoted : ∀ i, c.openQuote = some i →
    c.work.kinds[i]? = some .quote ∧ ∀ b ∈ c.blocks, b.base < i

end Compiler

/-! ## Lists of kinds -/

/-- Blocks, the innermost first, and the kinds of the drafts on the stack they are open on. -/
inductive Frames : List Block → List Kind → Prop
  | ground {ground : List Kind} (hground : ∀ k ∈ ground, k.isMark = false) : Frames [] ground
  | block {block : Block} {outer : List Block} {lower segment : List Kind}
      (hlower : Frames outer lower) (hbase : block.base = lower.length)
      (hsegment : .braceOpen ∉ segment)
      (hdelimiters : segment.count .braceDelimiter = block.delimiters)
      (hseparators : segment.count .braceRange = block.separators) :
      Frames (block :: outer) (lower ++ .braceOpen :: segment)

namespace Frames

variable {blocks : List Block} {ks : List Kind} {b : Block} {i : Nat} {k : Kind}

lemma base_lt (h : Frames blocks ks) (hb : b ∈ blocks) : b.base < ks.length := by
  induction h with
  | ground => cases hb
  | block _ hbase _ _ _ ih =>
      rw [List.length_append, List.length_cons]
      rcases List.mem_cons.mp hb with rfl | hb
      · omega
      · have := ih hb
        omega

lemma nested (h : Frames blocks ks) :
    blocks.Pairwise fun inner outer => outer.base < inner.base := by
  induction h with
  | ground => exact .nil
  | block hlower hbase _ _ _ ih =>
      refine .cons ?_ ih
      intro outer houter
      rw [hbase]
      exact hlower.base_lt houter

/-- Opening marks stand where blocks start. -/
lemma opening_iff (h : Frames blocks ks) :
    ks[i]? = some .braceOpen ↔ ∃ b ∈ blocks, b.base = i := by
  induction h with
  | @ground ground hground =>
      simp only [List.not_mem_nil, false_and, exists_false, iff_false]
      intro hi
      have hmark := hground _ (List.mem_of_getElem? hi)
      cases hmark
  | @block block outer lower segment hlower hbase hsegment _ _ ih =>
      simp only [List.mem_cons, exists_eq_or_imp]
      rcases Nat.lt_trichotomy i lower.length with hi | rfl | hi
      · rw [List.getElem?_append_left hi, ih]
        simp only [show ¬ block.base = i by omega, false_or]
      · simp [hbase]
      · have hnot : segment[i - lower.length - 1]? ≠ some .braceOpen := by
          intro hmem
          exact hsegment (List.mem_of_getElem? hmem)
        have houter : ¬ ∃ b ∈ outer, b.base = i := by
          rintro ⟨b, hb, rfl⟩
          have := hlower.base_lt hb
          omega
        rw [List.getElem?_append_right (by omega), List.getElem?_cons, if_neg (by omega)]
        simp only [hnot, houter, show ¬ block.base = i by omega, or_self]

/-- Other marks stand above the start of a block. -/
lemma covered (h : Frames blocks ks) (hi : ks[i]? = some k) (hmark : k.isMark = true)
    (hother : k ≠ .braceOpen) : ∃ b ∈ blocks, b.base < i := by
  induction h with
  | ground hground =>
      rw [hground _ (List.mem_of_getElem? hi)] at hmark
      cases hmark
  | @block block outer lower segment hlower hbase _ _ _ ih =>
      rcases Nat.lt_trichotomy i lower.length with hlt | rfl | hgt
      · rw [List.getElem?_append_left hlt] at hi
        obtain ⟨b, hb, hbi⟩ := ih hi
        exact ⟨b, List.mem_cons_of_mem _ hb, hbi⟩
      · simp only [List.getElem?_append_right (Nat.le_refl _), Nat.sub_self,
          List.getElem?_cons_zero, Option.some.injEq] at hi
        exact absurd hi.symm hother
      · exact ⟨block, List.mem_cons_self, by omega⟩

/-- The marks of a block are the ones between its start and the next block's. -/
lemma counted (h : Frames blocks ks) :
    ∀ e ∈ blocks.zip (ks.length :: blocks.map Block.base),
      ((ks.take e.2).drop e.1.base).count .braceDelimiter = e.1.delimiters ∧
        ((ks.take e.2).drop e.1.base).count .braceRange = e.1.separators := by
  induction h with
  | ground => simp
  | @block block outer lower segment hlower hbase _ hdelimiters hseparators ih =>
      rintro e he
      rw [List.map_cons, List.zip_cons_cons] at he
      rcases List.mem_cons.mp he with rfl | he
      · rw [List.take_length, hbase, List.drop_left, List.count_cons, List.count_cons, hdelimiters,
          hseparators]
        simp
      · rw [hbase] at he
        have hle : e.2 ≤ lower.length := by
          rcases List.mem_cons.mp (List.of_mem_zip he).2 with heq | hmem
          · omega
          · obtain ⟨b, hb, hbase⟩ := List.mem_map.mp hmem
            have := hlower.base_lt hb
            omega
        rw [List.take_append_of_le_length hle]
        exact ih e he

/-- Drafts that are no marks change nothing. -/
lemma append (h : Frames blocks ks) {more : List Kind} (hmore : ∀ k ∈ more, k.isMark = false) :
    Frames blocks (ks ++ more) := by
  have hnone : ∀ k, k.isMark = true → k ∉ more := by
    intro k hk hmem
    rw [hmore k hmem] at hk
    cases hk
  cases h with
  | ground hground =>
      refine .ground ?_
      intro k hk
      rcases List.mem_append.mp hk with hk | hk
      · exact hground k hk
      · exact hmore k hk
  | block hlower hbase hsegment hdelimiters hseparators =>
      rw [List.append_assoc, List.cons_append]
      refine .block hlower hbase ?_ ?_ ?_
      · simp [hsegment, hnone .braceOpen rfl]
      · rw [List.count_append, hdelimiters, List.count_eq_zero.mpr (hnone .braceDelimiter rfl),
          Nat.add_zero]
      · rw [List.count_append, hseparators, List.count_eq_zero.mpr (hnone .braceRange rfl),
          Nat.add_zero]

end Frames

/-! ## Kinds of pieces -/

lemma LeafKind.isMark_kind (k : LeafKind) : k.kind.isMark = false := by cases k <;> rfl

lemma RangeKind.isMark_kind (k : RangeKind) : k.kind.isMark = false := by cases k <;> rfl

lemma ListKind.isMark_kind (k : ListKind) : k.kind.isMark = false := by cases k <;> rfl

namespace Piece

def kind : Piece → Kind
  | .shape (.leaf k _) => k.kind
  | .shape (.range k _) => k.kind
  | .shape (.list k _) => k.kind
  | .mark m _ => m.kind

lemma isMark_kind_shape (s : Shape) : (Piece.shape s).kind.isMark = false := by
  match s with
  | .leaf k _ => exact k.isMark_kind
  | .range k _ => exact k.isMark_kind
  | .list k _ => exact k.isMark_kind

lemma isLiteral_of_kind {piece : Piece} (h : piece.kind = .literal) : piece.isLiteral = true := by
  match piece with
  | .shape (.leaf .literal _) => rfl
  | .shape (.leaf .empty _) => cases h
  | .shape (.leaf .escape _) => cases h
  | .shape (.leaf .quote _) => cases h
  | .shape (.range k _) => cases k <;> cases h
  | .shape (.list k _) => cases k <;> cases h
  | .mark m _ => cases m <;> cases h

/-- Structures count for no mark. -/
lemma count_kind_shapes {k : Kind} (hk : k.isMark = true) (shapes : List Shape) :
    ((shapes.map Piece.shape).map kind).count k = 0 := by
  rw [List.count_eq_zero, List.map_map]
  rintro hmem
  obtain ⟨s, -, rfl⟩ := List.mem_map.mp hmem
  rw [Function.comp_apply, isMark_kind_shape] at hk
  cases hk

lemma isLiteral_shape (s : Shape) : (shape s).isLiteral = s.isLiteral := by
  match s with
  | .range _ _ => rfl
  | .list _ _ => rfl
  | .leaf kind _ => cases kind <;> rfl

/-- Not both of them are literals. -/
def Apart (p q : Piece) : Prop := ¬ (p.isLiteral = true ∧ q.isLiteral = true)

/-- What is firm keeps apart from what comes above it. -/
lemma isChain_firm {upper lower : List Piece} (hupper : upper.IsChain Apart)
    (hlower : lower.IsChain Apart) (hfirm : Firm lower) : (upper ++ lower).IsChain Apart := by
  refine hupper.append hlower ?_
  rintro p - q hq ⟨-, hliteral⟩
  rw [hfirm q hq] at hliteral
  cases hliteral

lemma isChain_mark {lower : List Piece} (hlower : lower.IsChain Apart) (m : Mark) (t : Bytes) :
    (mark m t :: lower).IsChain Apart := by
  refine List.isChain_cons.mpr ⟨?_, hlower⟩
  rintro q - ⟨hliteral, -⟩
  cases hliteral

end Piece

lemma Draft.Tops.kind_eq {d : Draft} {piece : Piece} (h : d.Tops piece) : d.kind = piece.kind := by
  cases h <;> rfl

/-- The stack has the kinds of its pieces. -/
lemma WorkStack.Shows.kinds_eq {w : WorkStack} {pieces : List Piece} (h : w.Shows pieces) :
    w.kinds = (pieces.map Piece.kind).reverse := by
  obtain ⟨used, hholds, -⟩ := h
  have hkinds : ∀ {ds : List Draft} {ps : List Piece}, List.Forall₂ Draft.Tops ds ps →
      ds.map Draft.kind = ps.map Piece.kind := by
    intro ds ps htops
    induction htops with
    | nil => rfl
    | cons htop _ ih => rw [List.map_cons, List.map_cons, htop.kind_eq, ih]
  have htops := hkinds hholds.tops_all
  rw [← htops, List.map_map, List.map_reverse, List.reverse_reverse]
  rfl

/-! ## Readings -/

namespace Level

variable {l : Level}

lemma count_boundPieces {k : Kind} (hk : k.isMark = true) (l : Level) :
    (l.boundPieces.map Piece.kind).count k = if k = .braceRange then l.bounds.length else 0 := by
  rw [boundPieces]
  induction l.bounds with
  | nil => simp
  | cons b bounds ih =>
      rw [List.flatMap_cons, List.map_append, List.count_append, ih, List.map_cons,
        List.count_cons, Piece.count_kind_shapes hk]
      by_cases hrange : k = .braceRange
      · simp [hrange, Piece.kind, Mark.kind, Nat.add_comm]
      · simp [hrange, Piece.kind, Mark.kind, Ne.symm hrange]

lemma count_alternativePieces {k : Kind} (hk : k.isMark = true) (l : Level) :
    (l.alternativePieces.map Piece.kind).count k
      = if k = .braceDelimiter then l.alternatives.length else 0 := by
  rw [alternativePieces]
  induction l.alternatives with
  | nil => simp
  | cons a alternatives ih =>
      have hshape := Piece.count_kind_shapes hk [Shape.joined (fuse a.1)]
      rw [List.map_singleton] at hshape
      rw [List.flatMap_cons, List.map_append, List.count_append, ih, List.map_cons,
        List.count_cons, hshape]
      by_cases hdelimiter : k = .braceDelimiter
      · simp [hdelimiter, Piece.kind, Mark.kind, Nat.add_comm]
      · simp [hdelimiter, Piece.kind, Mark.kind, Ne.symm hdelimiter]

/-- The marks of a level are its commas and its range separators, above its brace. -/
lemma kinds_pieces (l : Level) : ∃ segment : List Kind,
    (l.pieces.map Piece.kind).reverse = .braceOpen :: segment ∧ .braceOpen ∉ segment ∧
      segment.count .braceDelimiter = l.alternatives.length ∧
      segment.count .braceRange = l.bounds.length := by
  have hcount : ∀ k : Kind, k.isMark = true →
      ((((fuse l.current).map Piece.shape ++ (l.boundPieces ++ l.alternativePieces)).map
        Piece.kind).reverse).count k
      = (if k = .braceRange then l.bounds.length else 0) +
        (if k = .braceDelimiter then l.alternatives.length else 0) := by
    intro k hk
    rw [List.count_reverse, List.map_append, List.count_append, Piece.count_kind_shapes hk,
      List.map_append, List.count_append, count_boundPieces hk, count_alternativePieces hk,
      Nat.zero_add]
  refine ⟨(((fuse l.current).map Piece.shape ++ (l.boundPieces ++ l.alternativePieces)).map
    Piece.kind).reverse, ?_, ?_, ?_, ?_⟩
  · rw [pieces, past, ← List.append_assoc, ← List.append_assoc, List.map_append,
      List.reverse_append, List.append_assoc]
    rfl
  · rw [← List.count_eq_zero, hcount _ rfl]
    rfl
  · rw [hcount _ rfl]
    simp
  · rw [hcount _ rfl]
    simp

end Level

namespace Reading

lemma isChain_map_fuse (row : List Shape) :
    ((fuse row).map Piece.shape).IsChain Piece.Apart := by
  rw [List.isChain_map]
  refine (isChain_fuse row).imp ?_
  rintro s t hapart ⟨hs, ht⟩
  exact hapart ⟨by rwa [Piece.isLiteral_shape] at hs, by rwa [Piece.isLiteral_shape] at ht⟩

lemma isChain_boundPieces (l : Level) {rest : List Piece} (hrest : rest.IsChain Piece.Apart)
    (hfirm : Firm rest) :
    (l.boundPieces ++ rest).IsChain Piece.Apart ∧ Firm (l.boundPieces ++ rest) := by
  rw [Level.boundPieces]
  induction l.bounds with
  | nil => exact ⟨hrest, hfirm⟩
  | cons b bounds ih =>
      rw [List.flatMap_cons, List.append_assoc, List.cons_append]
      exact ⟨Piece.isChain_mark (Piece.isChain_firm (isChain_map_fuse b.1) ih.1 ih.2) _ _, firm_mark _ _⟩

lemma isChain_alternativePieces (l : Level) {rest : List Piece}
    (hrest : rest.IsChain Piece.Apart) (hfirm : Firm rest) :
    (l.alternativePieces ++ rest).IsChain Piece.Apart ∧ Firm (l.alternativePieces ++ rest) := by
  rw [Level.alternativePieces]
  induction l.alternatives with
  | nil => exact ⟨hrest, hfirm⟩
  | cons a alternatives ih =>
      rw [List.flatMap_cons, List.append_assoc, List.cons_append]
      have hjoined := Piece.isChain_firm (.singleton (.shape (Shape.joined (fuse a.1)))) ih.1 ih.2
      exact ⟨Piece.isChain_mark hjoined _ _, firm_mark _ _⟩

lemma isChain_levelPieces (ground : List Shape) (levels : List Level) :
    (levelPieces ground levels).IsChain Piece.Apart := by
  induction levels with
  | nil => simpa [levelPieces] using isChain_map_fuse ground
  | cons l outer ih =>
      have hopening := Piece.isChain_mark ih .opening l.opening
      have halternatives := isChain_alternativePieces l hopening (firm_mark _ _)
      have hbounds := isChain_boundPieces l halternatives.1 halternatives.2
      have hpieces := Piece.isChain_firm (isChain_map_fuse l.current) hbounds.1 hbounds.2
      rw [levelPieces_cons, Level.pieces, Level.past]
      simpa using hpieces

/-- No two literals stand side by side. -/
lemma isChain_pieces (r : Reading) : r.pieces.IsChain Piece.Apart := by
  obtain ⟨ground, levels, quote⟩ := r
  have hlevels := isChain_levelPieces ground levels
  cases quote with
  | none => exact hlevels
  | some quote =>
      obtain ⟨text, inside⟩ := quote
      have hquote : (Piece.shape (.leaf .quote text) :: levelPieces ground levels).IsChain
          Piece.Apart := by
        refine List.isChain_cons.mpr ⟨?_, hlevels⟩
        rintro q - ⟨hliteral, -⟩
        cases hliteral
      exact Piece.isChain_firm (isChain_map_fuse inside) hquote (firm_quote text)

/-- The stack of some levels is framed by their blocks. -/
lemma frames_blocks (ground : List Shape) (levels : List Level) :
    Frames (blocks ground levels) ((levelPieces ground levels).map Piece.kind).reverse := by
  induction levels with
  | nil =>
      refine .ground ?_
      intro k hk
      simp only [levelPieces, List.flatMap_nil, List.nil_append, List.mem_reverse, List.mem_map]
        at hk
      obtain ⟨piece, ⟨s, -, rfl⟩, rfl⟩ := hk
      exact Piece.isMark_kind_shape s
  | cons l outer ih =>
      obtain ⟨segment, hsegment, hopening, hdelimiters, hseparators⟩ := l.kinds_pieces
      rw [levelPieces_cons, List.map_append, List.reverse_append, hsegment]
      exact .block ih (by simp) hopening hdelimiters hseparators

lemma mem_blocks {ground : List Shape} {levels : List Level} {b : Block}
    (hb : b ∈ blocks ground levels) : ∃ l ∈ levels, b.separators = l.bounds.length ∧
      b.ranging = l.ranging ∧ b.delimiters = l.alternatives.length := by
  induction levels with
  | nil => cases hb
  | cons l outer ih =>
      rcases List.mem_cons.mp hb with rfl | hb
      · exact ⟨l, List.mem_cons_self, rfl, rfl, rfl⟩
      · obtain ⟨k, hk, hcounters⟩ := ih hb
        exact ⟨k, List.mem_cons_of_mem _ hk, hcounters⟩

end Reading

namespace Compiler

variable {c : Compiler} {r : Reading}

/-- The stack of a compiler is framed by its blocks, in a quote and outside. -/
lemma Shows.frames (h : c.Shows r) : Frames c.blocks c.work.kinds := by
  obtain ⟨ground, levels, quote⟩ := r
  have hframes := Reading.frames_blocks ground levels
  rw [h.work.kinds_eq, h.blocks]
  cases quote with
  | none => exact hframes
  | some quote =>
      obtain ⟨text, inside⟩ := quote
      have hpieces : (Reading.pieces ⟨ground, levels, some (text, inside)⟩)
          = ((fuse inside).map .shape ++ [.shape (.leaf .quote text)]) ++
            Reading.levelPieces ground levels := by simp [Reading.pieces]
      rw [hpieces, List.map_append, List.reverse_append]
      refine hframes.append ?_
      intro k hk
      simp only [List.mem_reverse, List.mem_map, List.mem_append, List.mem_singleton] at hk
      obtain ⟨piece, hpiece, rfl⟩ := hk
      rcases hpiece with ⟨s, -, rfl⟩ | rfl
      · exact Piece.isMark_kind_shape s
      · exact Piece.isMark_kind_shape _

/-- No two literals stand side by side on the stack. -/
lemma Shows.isChain_kinds (h : c.Shows r) :
    c.work.kinds.IsChain fun j k => ¬ (j = .literal ∧ k = .literal) := by
  rw [h.work.kinds_eq, List.isChain_reverse, List.isChain_map]
  refine r.isChain_pieces.imp ?_
  rintro p q hapart ⟨hq, hp⟩
  exact hapart ⟨Piece.isLiteral_of_kind hp, Piece.isLiteral_of_kind hq⟩

/-- The open quote stands above all blocks. -/
lemma Shows.quote_framed (h : c.Shows r) {i : Nat} (hi : c.openQuote = some i) :
    c.work.kinds[i]? = some .quote ∧ ∀ b ∈ c.blocks, b.base < i := by
  obtain ⟨ground, levels, quote⟩ := r
  have hquote := h.quote
  cases quote with
  | none =>
      rw [hi] at hquote
      cases hquote
  | some quote =>
      obtain ⟨text, inside⟩ := quote
      obtain rfl : i = (Reading.levelPieces ground levels).length := by
        rw [hi] at hquote
        simpa [Reading.quotePosition] using hquote
      refine ⟨?_, ?_⟩
      · rw [h.work.kinds_eq]
        simp [Reading.pieces, Piece.kind, LeafKind.kind]
      · rw [h.blocks]
        intro b hb
        simpa using (Reading.frames_blocks ground levels).base_lt hb

/-- **A compiler that shows a reading is framed.** -/
theorem Shows.framed (h : c.Shows r) : c.Framed := by
  have hframes := h.frames
  have hcounters : ∀ b ∈ c.blocks, (b.delimiters = 0 ∨ b.separators = 0) ∧ b.separators ≤ 2 ∧
      (b.ranging = false → b.separators ≤ 1) := by
    intro b hb
    rw [h.blocks] at hb
    obtain ⟨l, hl, hseparators, hranging, hdelimiters⟩ := Reading.mem_blocks hb
    obtain ⟨heither, hfew, hbarred⟩ := h.divided l hl
    rw [hseparators, hranging, hdelimiters]
    refine ⟨?_, hfew, hbarred⟩
    rcases heither with heither | heither
    · exact Or.inl (by simp [heither])
    · exact Or.inr (by simp [heither])
  have hcounted : ∀ e ∈ c.extents,
      c.work.countFrom e.1.base e.2 .braceDelimiter = e.1.delimiters ∧
        c.work.countFrom e.1.base e.2 .braceRange = e.1.separators := by
    intro e he
    refine hframes.counted e ?_
    rw [c.work.length_kinds]
    exact he
  refine ⟨hframes.nested, fun i => hframes.opening_iff, fun i k => hframes.covered, ?_, ?_, ?_, ?_,
    ?_, fun i => h.quote_framed⟩
  · intro e he
    exact (hcounted e he).1
  · intro e he
    rw [(hcounted e he).2, Block.ranges]
    cases e.1.ranging with
    | true => simp
    | false =>
        simp only [Bool.false_eq_true, if_false]
        omega
  · intro e he
    rw [(hcounted e he).1, (hcounted e he).2]
    exact (hcounters e.1 (List.of_mem_zip he).1).1
  · intro b hb
    obtain ⟨-, hfew, hbarred⟩ := hcounters b hb
    rw [Block.ranges]
    cases hranging : b.ranging with
    | true =>
        simp only [if_true]
        omega
    | false =>
        have := hbarred hranging
        simp only [Bool.false_eq_true, if_false]
        omega
  · intro i hi hnext
    obtain ⟨hlt, hliteral⟩ := List.getElem?_eq_some_iff.mp hi
    obtain ⟨hlt', hliteral'⟩ := List.getElem?_eq_some_iff.mp hnext
    exact List.isChain_iff_getElem.mp h.isChain_kinds i hlt' ⟨hliteral, hliteral'⟩

end Compiler

end BraceExpansion
