import BraceExpansion.Proofs.Nesting.Item
import BraceExpansion.Proofs.Reading.Normal
import BraceExpansion.Proofs.Safety

/-!
# Trees are in normal form

Nobody looks whether a tree is in normal form; it comes out of when the compiler joins, gathers and
demotes.

**Nodes.**  `Forest.NormalAt` says of one node what its text, its values or its children look like, and
`Forest.CrispAt` says of a sequence that it has no empty leaf and no two literals side by side.  Below a
node of a normal or crisp shape all nodes are so (`normalAt_below`, `crispAt_below`).

**Blocks.**  As many blocks are open in a reading as braces are unpaired in the tokens
(`Reading.length_levels_foldl`).  Where there is none, the shape of a pattern is crisp.

**`Compiler.compile_normal`** is about all nodes of all trees.
-/

namespace BraceExpansion

/-- The kinds that occur in finished trees. -/
def Kind.inTrees : List Kind :=
  [empty, literal, escape, quote, integerRange, charRange, concat, alternate]

lemma Node.kind_mem_inTrees (n : Node) : n.kind ∈ Kind.inTrees := by
  match n with
  | .leaf k _ => cases k <;> simp [Node.kind, LeafKind.kind, Kind.inTrees]
  | .range k _ => cases k <;> simp [Node.kind, RangeKind.kind, Kind.inTrees]
  | .list k _ => cases k <;> simp [Node.kind, ListKind.kind, Kind.inTrees]

/-! ## Nodes -/

namespace Shape

variable {s : Shape}

lemma isList_of_kind {kind : ListKind} (h : (Piece.shape s).kind = kind.kind) :
    s.isList kind = true := by
  match s with
  | .leaf k _ => cases k <;> cases kind <;> cases h
  | .range k _ => cases k <;> cases kind <;> cases h
  | .list k _ => cases k <;> cases kind <;> first | rfl | cases h

lemma isEmpty_of_kind (h : (Piece.shape s).kind = .empty) : s.isEmpty = true := by
  match s with
  | .leaf k _ => cases k <;> first | rfl | cases h
  | .range k _ => cases k <;> cases h
  | .list k _ => cases k <;> cases h

end Shape

namespace Forest

variable {f : Forest} {id : Nat}

/-- What a node of a finished tree looks like: leaves and ranges as they are spelled, and lists with
two children or more, none of which is a list of the same kind. -/
def NormalAt (f : Forest) (id : Nat) : Prop :=
  match f.node id with
  | .leaf kind value => kind.Spells value
  | .range kind p => kind.Admits p
  | .list kind children => 2 ≤ children.length ∧ ∀ c ∈ children, (f.node c).kind ≠ kind.kind

/-- A sequence has no empty leaf among its children, and no two literals side by side. -/
def CrispAt (f : Forest) (id : Nat) : Prop :=
  ∀ children, f.node id = .list .concat children →
    (∀ c ∈ children, (f.node c).kind ≠ .empty) ∧
      children.IsChain fun a b => ¬ ((f.node a).kind = .literal ∧ (f.node b).kind = .literal)

/-- A node and its shape are of one kind. -/
lemma kind_shape (f : Forest) (id : Nat) : (Piece.shape (f.shape id)).kind = (f.node id).kind := by
  cases hnode : f.node id with
  | leaf kind value => rw [shape_leaf hnode]; rfl
  | range kind p => rw [shape_range hnode]; rfl
  | list kind children => rw [shape_list hnode]; rfl

lemma normalAt_of_shape (h : (f.shape id).Normal) : f.NormalAt id := by
  rw [NormalAt]
  cases hnode : f.node id with
  | leaf kind value => simpa [shape_leaf hnode, Shape.Normal] using h
  | range kind p => simpa [shape_range hnode, Shape.Normal] using h
  | list kind children =>
      rw [shape_list hnode, Shape.Normal, List.length_map] at h
      refine ⟨h.1, ?_⟩
      intro c hc hkind
      have hnot := (h.2 _ (List.mem_map_of_mem hc)).1
      rw [Shape.isList_of_kind ((f.kind_shape c).trans hkind)] at hnot
      cases hnot

lemma crispAt_of_shape (h : (f.shape id).Crisp) : f.CrispAt id := by
  intro children hnode
  rw [shape_list hnode, Shape.Crisp] at h
  obtain ⟨hempty, hapart⟩ := h.1 rfl
  refine ⟨?_, ?_⟩
  · intro c hc hkind
    have hnot := hempty _ (List.mem_map_of_mem hc)
    rw [Shape.isEmpty_of_kind ((f.kind_shape c).trans hkind)] at hnot
    cases hnot
  · rw [List.isChain_map] at hapart
    have hliteral : ∀ c, (f.node c).kind = .literal → (f.shape c).isLiteral = true := by
      intro c hkind
      rw [← Piece.isLiteral_shape]
      exact Piece.isLiteral_of_kind ((f.kind_shape c).trans hkind)
    refine hapart.imp ?_
    rintro a b hapart ⟨ha, hb⟩
    exact hapart ⟨hliteral a ha, hliteral b hb⟩

end Forest

/-! ## Blocks -/

lemma Nesting.levels_add (n : Nesting) (i : Item) :
    (n.add i).levels.length = n.levels.length := by
  obtain ⟨ground, levels⟩ := n
  cases levels <;> rfl

lemma Reading.levels_add (r : Reading) (row : List Shape) :
    (r.add row).levels.length = r.levels.length := by
  obtain ⟨ground, levels, quote⟩ := r
  cases quote <;> cases levels <;> rfl

/-- As many blocks are open as braces are unpaired. -/
lemma Reading.length_levels_foldl (options : CompileOptions) (ts : List Token) :
    (ts.foldl (step options) {}).levels.length = (nest ts).levels.length := by
  have hstep : ∀ {r : Reading} {n : Nesting} (t : Token), r.levels.length = n.levels.length →
      (r.step options t).levels.length = (n.step t).levels.length := by
    rintro ⟨ground, levels, quote⟩ ⟨outer, opened⟩ ⟨kind, start, text⟩ h
    have hadd : ∀ row i, (Reading.add ⟨ground, levels, quote⟩ row).levels.length
        = (Nesting.add ⟨outer, opened⟩ i).levels.length := by
      intro row i
      rw [levels_add, Nesting.levels_add]
      exact h
    cases kind with
    | literal => exact hadd _ _
    | escape => exact hadd _ _
    | quote =>
        rw [Nesting.step, Nesting.levels_add]
        cases quote with
        | none => exact h
        | some quote => exact (levels_add _ _).trans h
    | opening => exact congrArg (· + 1) h
    | delimiter =>
        cases levels with
        | nil => exact hadd _ _
        | cons l levels => exact h.trans (Nesting.levels_add _ _).symm
    | range =>
        cases levels with
        | nil => exact hadd _ _
        | cons l levels => exact h.trans (Nesting.levels_add _ _).symm
    | closing =>
        cases levels with
        | nil =>
            cases opened with
            | nil => exact hadd _ _
            | cons level opened => cases h
        | cons l levels =>
            cases opened with
            | nil => cases h
            | cons level opened =>
                rw [Nesting.step, Reading.step, Nesting.levels_add, levels_add]
                exact Nat.succ.inj h
  have hrun : ∀ {r : Reading} {n : Nesting}, r.levels.length = n.levels.length →
      (ts.foldl (step options) r).levels.length = (ts.foldl Nesting.step n).levels.length := by
    induction ts with
    | nil => exact id
    | cons t ts ih => exact fun h => ih (hstep t h)
  exact hrun rfl

/-! ## Whole patterns -/

lemma Token.yields_inline (t : Token) : t.Yields Shape.Inline where
  text := Shape.inline_leaf _ (by simp)
  escape _ := Shape.inline_leaf _ (by simp)
  quote _ := Shape.inline_leaf _ (by simp)

/-- What tokens add to rows is normal. -/
lemma Token.yields_normal {t : Token} (htext : t.text ≠ []) (hexact : t.Exact) :
    t.Yields Shape.Normal where
  text := Shape.normal_text.mpr htext
  escape hkind := Shape.normal_leaf (hexact.1 hkind)
  quote hkind := Shape.normal_leaf (hexact.2 hkind)

/-- What holds of the shape of a pattern holds of all shapes in its tree. -/
lemma Compiler.Shows.forall_shape {c : Compiler} {r : Reading} {P : Shape → Prop} (h : c.Shows r)
    (hlist : ∀ kind shapes, P (.list kind shapes) → ∀ s ∈ shapes, P s)
    (hjoined : P (Shape.joined (fuse r.row))) :
    ∀ id < c.finish.1.size, P (c.finish.1.forest.shape id) := by
  rcases h.finish with ⟨forest, root, hfinish, hgrafts⟩
  have hroot : forest.shape root = Shape.joined (fuse r.row) := by simpa using hgrafts.shapes_eq
  intro id hid
  have hmem := h.perm_below.mem_iff.mpr (List.mem_range.mpr hid)
  rw [hfinish] at hmem ⊢
  exact Forest.shape_below hlist (hroot ▸ hjoined) id hmem

/-- **A finished tree is in normal form**, however the compiler has been used before.  No punctuation
is left over when the tree is made.  Leaves and ranges are spelled as they should be, and lists have
two children or more and none of their own kind.  If moreover every opening brace of the pattern is
closed, no sequence has an empty leaf in it or two literals side by side. -/
theorem Compiler.compile_normal {c : Compiler} {pattern : Bytes} {tree : Tree}
    (h : (c.compile pattern).1 = .ok tree) :
    Checked.compile c pattern = some (c.compile pattern) ∧
      (∀ id < tree.size, (tree.node id).kind ∈ Kind.inTrees ∧ tree.forest.NormalAt id) ∧
      ∃ s ts, Scanner.ofPattern c.options pattern = .ok s ∧ s.tokens = .ok ts ∧
        ((nest ts.toList).levels = [] → ∀ id < tree.size, tree.forest.CrispAt id) := by
  rcases finish_of_compile h with ⟨s, ts, s', hs, hreads, -, htokens, rfl, hshows⟩
  have hsound : s.Sound := by
    rw [ofPattern_eq hs]
    nofun
  refine ⟨compile_checked c pattern, ?_, s, ts.toArray, hs, htokens, ?_⟩
  · have hyields : ∀ t ∈ ts, t.Yields Shape.Normal := fun t ht =>
      Token.yields_normal (hreads.text_ne_nil t ht) (hreads.exact hsound t ht)
    have hjoined := Reading.every_joined Shape.kept_normal c.options hyields
      (Or.inl fun _ hu => hu)
    intro id hid
    refine ⟨Node.kind_mem_inTrees _, Forest.normalAt_of_shape ?_⟩
    refine hshows.forall_shape ?_ hjoined id hid
    intro kind shapes hlist u hu
    rw [Shape.Normal] at hlist
    exact (hlist.2 u hu).2
  · intro hclosed id hid
    have hlevels : (ts.foldl (Reading.step c.options) {}).levels = [] := by
      rw [← List.length_eq_zero_iff, Reading.length_levels_foldl, hclosed]
      rfl
    have hjoined := Reading.every_joined Shape.kept_crisp c.options
      (fun t _ => Token.yields_inline t) (Or.inr hlevels)
    refine Forest.crispAt_of_shape (hshows.forall_shape ?_ hjoined id hid)
    intro kind shapes hlist u hu
    rw [Shape.Crisp] at hlist
    exact hlist.2 u hu

/-- `{{a,b},{c}}\,"`: alternations one inside the other, a block that is text, an escape and a
quote that is never closed. -/
theorem Compiler.compile_normal_nested :
    let c := Compiler.new {}
    let pattern : Bytes := [0x7B, 0x7B, 0x61, 0x2C, 0x62, 0x7D, 0x2C, 0x7B, 0x63, 0x7D, 0x7D, 0x5C,
      0x2C, 0x22]
    ∃ tree, (c.compile pattern).1 = .ok tree ∧
      ∀ id < tree.size, tree.forest.NormalAt id ∧ tree.forest.CrispAt id := by
  intro c pattern
  have hlength : pattern.length ≤ maxPatternLength := by decide
  rcases compile_total (c := c) rfl hlength with ⟨tree, htree⟩
  rcases compile_normal htree with ⟨-, hnormal, s, ts, hs, hts, hcrisp⟩
  have htokens : s.tokens = .ok #[⟨.opening, 0, [0x7B]⟩, ⟨.opening, 1, [0x7B]⟩,
      ⟨.literal, 2, [0x61]⟩, ⟨.delimiter, 3, [0x2C]⟩, ⟨.literal, 4, [0x62]⟩, ⟨.closing, 5, [0x7D]⟩,
      ⟨.delimiter, 6, [0x2C]⟩, ⟨.opening, 7, [0x7B]⟩, ⟨.literal, 8, [0x63]⟩,
      ⟨.closing, 9, [0x7D]⟩, ⟨.closing, 10, [0x7D]⟩, ⟨.escape, 11, [0x5C, 0x2C]⟩,
      ⟨.quote, 13, [0x22]⟩] := by
    have hreads := Scanner.Reads.cons (s := s) (by rw [ofPattern_eq hs]; rfl) <|
      .cons rfl <| .cons rfl <| .cons rfl <| .cons rfl <| .cons rfl <| .cons rfl <| .cons rfl <|
      .cons rfl <| .cons rfl <| .cons rfl <| .cons rfl <| .cons rfl <| .nil _
    rw [hreads.tokens_eq fun t ht => by cases ht]
    rfl
  rw [htokens] at hts
  cases hts
  exact ⟨tree, htree, fun id hid => ⟨(hnormal id hid).2, hcrisp rfl id hid⟩⟩

end BraceExpansion
