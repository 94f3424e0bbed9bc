import BraceExpansion.Proofs.Compiler.Finish
import BraceExpansion.Proofs.Forest.Outline
import Mathlib.Data.List.Forall2

/-!
# Equality of trees

Trees are compared in one descent through two forests at once, by kinds, texts, ranges and children.
Numbers and links are not looked at.

**Shapes.**  Two nodes are found to be the same exactly if they have the same shape
(`Forest.sameShape_iff`), so equality of trees is equality of the shapes of their roots
(`Tree.beq_iff`).

**Patterns.**  In the tree of a pattern all nodes stand below the root, and a walk hands out what the
shape stands for.  So a shape says how many nodes there are, what the dump is and what the expansions
are: **`Compiler.congruent_trees`**.
-/

namespace BraceExpansion

namespace Forest

variable {f g : Forest} {a b : Nat}

lemma map_eq_map_iff_zip {α β γ : Type} {u : α → γ} {v : β → γ} {as : List α} {bs : List β} :
    as.map u = bs.map v ↔ as.length = bs.length ∧ ∀ e ∈ as.zip bs, u e.1 = v e.2 := by
  rw [← List.forall₂_eq_eq_eq, List.forall₂_map_left_iff, List.forall₂_map_right_iff,
    List.forall₂_iff_zip]
  simp only [Prod.forall]

/-- The comparison of two nodes, without the proofs that it ends. -/
lemma sameShape_eq (f g : Forest) (a b : Nat) : f.sameShape g a b =
    match f.node a, g.node b with
    | .leaf kind value, .leaf kind' value' => kind = kind' && value = value'
    | .range kind p, .range kind' p' => kind = kind' && p = p'
    | .list kind children, .list kind' children' =>
      kind = kind' && children.length = children'.length &&
        (children.zip children').all fun e => f.sameShape g e.1 e.2
    | _, _ => false := by
  rw [sameShape]
  split
  next ha hb => rw [ha, hb]
  next ha hb => rw [ha, hb]
  next kind children kind' children' ha hb =>
    have hzip : (children.zip children').all (fun e => f.sameShape g e.1 e.2)
        = (children.attach.zip children').all fun e => f.sameShape g e.1.1 e.2 := by
      rw [zip_eq_map_attach children, List.all_map]
      rfl
    simp only [ha, hb, hzip]
  next hleaf hrange hlist =>
    split
    next ha hb => exact absurd hb (hleaf _ _ _ _ ha)
    next ha hb => exact absurd hb (hrange _ _ _ _ ha)
    next ha hb => exact absurd hb (hlist _ _ _ _ ha)
    next => rfl

/-- **Nodes are found to be the same exactly if they have the same shape.** -/
theorem sameShape_iff : f.sameShape g a b = true ↔ f.shape a = g.shape b := by
  induction a using Nat.strongRecOn generalizing b with
  | ind a ih =>
      rw [sameShape_eq]
      cases ha : f.node a with
      | leaf kind value =>
          rw [shape_leaf ha]
          cases hb : g.node b with
          | leaf kind' value' => simp [shape_leaf hb]
          | range kind' p' => simp [shape_range hb]
          | list kind' children' => simp [shape_list hb]
      | range kind p =>
          rw [shape_range ha]
          cases hb : g.node b with
          | leaf kind' value' => simp [shape_leaf hb]
          | range kind' p' => simp [shape_range hb]
          | list kind' children' => simp [shape_list hb]
      | list kind children =>
          rw [shape_list ha]
          cases hb : g.node b with
          | leaf kind' value' => simp [shape_leaf hb]
          | range kind' p' => simp [shape_range hb]
          | list kind' children' =>
              have hchildren : ∀ e ∈ children.zip children',
                  (f.sameShape g e.1 e.2 = true ↔ f.shape e.1 = g.shape e.2) := fun e he =>
                ih e.1 (f.child_lt (by rw [ha]; exact (List.of_mem_zip he).1))
              simp only [shape_list hb, Bool.and_eq_true, decide_eq_true_eq, List.all_eq_true,
                Shape.list.injEq, map_eq_map_iff_zip, and_assoc]
              exact and_congr_right fun _ => and_congr_right fun _ => forall₂_congr hchildren

end Forest

/-- Two trees are equal exactly if their roots have the same shape. -/
lemma Tree.beq_iff {s t : Tree} :
    (s == t) = true ↔ s.forest.shape s.root = t.forest.shape t.root := Forest.sameShape_iff

namespace Compiler

/-- The shape of a tree has all its nodes. -/
lemma size_of_compile {c : Compiler} {pattern : Bytes} {tree : Tree}
    (h : (c.compile pattern).1 = .ok tree) :
    tree.size = (tree.forest.shape tree.root).count := by
  rcases finish_of_compile h with ⟨_, _, _, -, -, -, -, rfl, hshows⟩
  rw [← Forest.length_below, hshows.perm_below.length_eq, List.length_range]

/-- What a walk hands out depends on the shape. -/
lemma walk_of_compile {c : Compiler} {pattern : Bytes} {tree : Tree}
    (h : (c.compile pattern).1 = .ok tree) (expand : ExpandOptions) {σ : Type}
    (emit : σ → Buffer → σ) (acc : σ) (buffer : Buffer) :
    (tree.walk expand emit acc buffer).1
      = ((tree.forest.shape tree.root).expansions expand).foldl
        (fun acc x => emit acc x.toArray) acc := by
  rcases compile_ok h with ⟨_, _, _, -, -, -, -, -, -, hwalk⟩
  exact hwalk expand emit acc buffer

/-- **Equality of trees is a congruence.**  It is an equivalence relation, and if the trees of two patterns
are equal, each read in any way and by a compiler that may have been used before, they have as many
nodes, the same dump, and the same expansions in the same order, whatever is done with these and
whatever has been in the buffer. -/
theorem congruent_trees :
    Equivalence (fun s t : Tree => (s == t) = true) ∧
    ∀ {c d : Compiler} {p q : Bytes} {s t : Tree},
      (c.compile p).1 = .ok s → (d.compile q).1 = .ok t → (s == t) = true →
        s.size = t.size ∧ s.dump = t.dump ∧
        ∀ (expand : ExpandOptions) {σ : Type} (emit : σ → Buffer → σ) (acc : σ)
          (buffer buffer' : Buffer),
          (s.walk expand emit acc buffer).1 = (t.walk expand emit acc buffer').1 := by
  simp only [Tree.beq_iff]
  refine ⟨⟨fun _ => rfl, Eq.symm, Eq.trans⟩, ?_⟩
  intro c d p q s t hs ht hshape
  refine ⟨?_, ?_, ?_⟩
  · rw [size_of_compile hs, size_of_compile ht, hshape]
  · rw [← String.toList_inj, Tree.dump, Tree.dump, Forest.toList_dump, Forest.toList_dump, hshape]
  · intro expand σ emit acc buffer buffer'
    rw [walk_of_compile hs, walk_of_compile ht, hshape]

/-- `{a,{b,c}}` and `{{a,b},c}` have equal trees, whichever characters may bound a range. -/
theorem congruent_trees_nested :
    let c := new {}
    let d := new { anyCharRange := true }
    ∃ s t, (c.compile [0x7B, 0x61, 0x2C, 0x7B, 0x62, 0x2C, 0x63, 0x7D, 0x7D]).1 = .ok s ∧
      (d.compile [0x7B, 0x7B, 0x61, 0x2C, 0x62, 0x7D, 0x2C, 0x63, 0x7D]).1 = .ok t ∧
      (s == t) = true ∧ (t == s) = true ∧ s.size = t.size ∧ s.dump = t.dump ∧
      ∀ buffer, (s.walk {} (fun found x => found ++ [x.toList]) [] buffer).1
        = (t.walk {} (fun found x => found ++ [x.toList]) [] #[]).1 := by
  intro c d
  have hreads : Scanner.Reads ⟨{}, [0x7B, 0x61, 0x2C, 0x7B, 0x62, 0x2C, 0x63, 0x7D, 0x7D], 0, none⟩
      [⟨.opening, 0, [0x7B]⟩, ⟨.literal, 1, [0x61]⟩, ⟨.delimiter, 2, [0x2C]⟩, ⟨.opening, 3, [0x7B]⟩,
        ⟨.literal, 4, [0x62]⟩, ⟨.delimiter, 5, [0x2C]⟩, ⟨.literal, 6, [0x63]⟩,
        ⟨.closing, 7, [0x7D]⟩, ⟨.closing, 8, [0x7D]⟩] ⟨{}, [], 9, none⟩ :=
    .cons rfl <| .cons rfl <| .cons rfl <| .cons rfl <| .cons rfl <| .cons rfl <| .cons rfl <|
      .cons rfl <| .cons rfl <| .nil _
  have hreads' : Scanner.Reads ⟨{ anyCharRange := true },
      [0x7B, 0x7B, 0x61, 0x2C, 0x62, 0x7D, 0x2C, 0x63, 0x7D], 0, none⟩
      [⟨.opening, 0, [0x7B]⟩, ⟨.opening, 1, [0x7B]⟩, ⟨.literal, 2, [0x61]⟩, ⟨.delimiter, 3, [0x2C]⟩,
        ⟨.literal, 4, [0x62]⟩, ⟨.closing, 5, [0x7D]⟩, ⟨.delimiter, 6, [0x2C]⟩,
        ⟨.literal, 7, [0x63]⟩, ⟨.closing, 8, [0x7D]⟩] ⟨{ anyCharRange := true }, [], 9, none⟩ :=
    .cons rfl <| .cons rfl <| .cons rfl <| .cons rfl <| .cons rfl <| .cons rfl <| .cons rfl <|
      .cons rfl <| .cons rfl <| .nil _
  obtain ⟨s, hs, hshape⟩ := exists_tree_of_reads (c := c) (by decide) hreads (fun _ h => by cases h) rfl
  obtain ⟨t, ht, hshape'⟩ := exists_tree_of_reads (c := d) (by decide) hreads' (fun _ h => by cases h) rfl
  have hequal : (s == t) = true := by
    rw [Tree.beq_iff, hshape, hshape']
    rfl
  obtain ⟨hequivalence, hcongruent⟩ := congruent_trees
  obtain ⟨hsize, hdump, hwalk⟩ := hcongruent hs ht hequal
  exact ⟨s, t, hs, ht, hequal, hequivalence.symm hequal, hsize, hdump, fun _ => hwalk {} _ _ _ _⟩

end Compiler

end BraceExpansion
