import BraceExpansion.Proofs.Content
import BraceExpansion.Proofs.Tree.Equality

/-!
# Patterns in which nothing resolves

Where a pattern has no escape, no closed quote, and no closed block that is an alternation or a range,
everything in it should turn into text again, and its tree should be one literal.

**Rows.**  A row comes to one literal exactly if it is made of texts (`joined_fuse_eq_text_iff`).  The
tokens and the closed blocks of such a pattern are texts (`Item.Inert.isLiteral_row`).

**Open blocks.**  What stands before a comma is joined when the comma comes, and stays joined when the
block turns out to be open.  So an alternative without items leaves an empty leaf behind, which is
not text (`Level.isLiteral_row_read`).

**`Compiler.compile_unresolved`** says which of these patterns do come to one literal, and that all
of them have different trees.  **`Compiler.compile_open_comma`** is about one that does not.
-/

namespace BraceExpansion

variable {options : CompileOptions} {row : List Shape} {ts : List Token}

/-! ## Rows -/

lemma Shape.isLiteral_iff {s : Shape} : s.isLiteral = true ↔ ∃ t, s = .text t := by
  rcases s.text_or with ⟨t, rfl⟩ | hnot
  · exact ⟨fun _ => ⟨t, rfl⟩, fun _ => rfl⟩
  · rw [hnot]
    refine ⟨nofun, ?_⟩
    rintro ⟨t, rfl⟩
    cases hnot

lemma exists_texts_iff :
    (∀ s ∈ row, s.isLiteral = true) ↔ ∃ texts : List Bytes, row = texts.map .text := by
  constructor
  · intro h
    induction row with
    | nil => exact ⟨[], rfl⟩
    | cons s row ih =>
        obtain ⟨hs, hrow⟩ := List.forall_mem_cons.mp h
        obtain ⟨t, rfl⟩ := Shape.isLiteral_iff.mp hs
        obtain ⟨texts, rfl⟩ := ih hrow
        exact ⟨t :: texts, rfl⟩
  · rintro ⟨texts, rfl⟩ s hs
    obtain ⟨t, -, rfl⟩ := List.mem_map.mp hs
    rfl

/-- Texts run together. -/
lemma fuse_texts {texts : List Bytes} (h : texts ≠ []) :
    fuse (texts.map .text) = [.text texts.flatten] := by
  induction texts using List.reverseRecOn with
  | nil => exact absurd rfl h
  | append_singleton texts t ih =>
      rw [List.map_append, List.map_singleton, fuse_concat, Shape.put_text]
      cases texts with
      | nil => simp [Shape.appendText]
      | cons u texts => rw [ih (List.cons_ne_nil _ _)]; simp

/-- **A row comes to one literal exactly if it is made of texts.** -/
lemma joined_fuse_eq_text_iff {t : Bytes} : Shape.joined (fuse row) = .text t ↔
    ∃ texts : List Bytes, texts ≠ [] ∧ row = texts.map .text ∧ texts.flatten = t := by
  constructor
  · intro h
    have hfuse : fuse row = [.text t] := by
      match hrow : fuse row, h with
      | [s], h => rw [Shape.joined] at h; rw [h]
    obtain ⟨texts, rfl, hflatten⟩ := eq_map_of_fuse_eq hfuse
    refine ⟨texts, ?_, rfl, hflatten⟩
    rintro rfl
    cases hfuse
  · rintro ⟨texts, hne, rfl, rfl⟩
    rw [fuse_texts hne, Shape.joined]

lemma isLiteral_joined_fuse (h : ∀ s ∈ row, s.isLiteral = true) :
    (Shape.joined (fuse row)).isLiteral = true ↔ row ≠ [] := by
  obtain ⟨texts, rfl⟩ := exists_texts_iff.mp h
  rw [Shape.isLiteral_iff]
  constructor
  · rintro ⟨t, ht⟩ hnil
    rw [hnil] at ht
    cases ht
  · intro hne
    exact ⟨_, joined_fuse_eq_text_iff.mpr ⟨texts, by simpa using hne, rfl, rfl⟩⟩

/-! ## Items -/

namespace Item

/-- A token, or a closed block that is neither an alternation nor a range and has none inside it. -/
def Inert (options : CompileOptions) : Item → Prop
  | .token _ => True
  | .block _ body _ =>
    body.any isComma = false ∧ range? options body = none ∧ ∀ i ∈ body, Inert options i

/-- All tokens of an item have a property. -/
def All (P : Token → Prop) : Item → Prop
  | .token t => P t
  | .block opening body closing => P opening ∧ P closing ∧ ∀ i ∈ body, All P i

end Item

lemma Nesting.all_items {P : Token → Prop} (h : ∀ t ∈ ts, P t) :
    ∀ i ∈ (nest ts).items, i.All P := by
  induction ts using List.reverseRecOn with
  | nil => simp [nest, items]
  | append_singleton ts t ih =>
      have ht : P t := h t (by simp)
      have hitems := ih fun u hu => h u (List.mem_append_left _ hu)
      have hadd : ∀ {n : Nesting} {i : Item}, (∀ j ∈ n.items, j.All P) → i.All P →
          ∀ j ∈ (n.add i).items, j.All P := by
        intro n i hn hi
        rw [items_add, List.forall_mem_append, List.forall_mem_singleton]
        exact ⟨hn, hi⟩
      rw [nest_concat, step]
      split
      · have happend : Nesting.items ⟨(nest ts).ground, (t, []) :: (nest ts).levels⟩
            = (nest ts).items ++ [.token t] := by
          simp [items]
        rw [happend, List.forall_mem_append, List.forall_mem_singleton, Item.All]
        exact ⟨hitems, ht⟩
      next opening body outer hkind hlevels =>
        have hsplit : (nest ts).items
            = Nesting.items ⟨(nest ts).ground, outer⟩ ++ .token opening :: body := by
          simp [items, hlevels]
        rw [hsplit, List.forall_mem_append, List.forall_mem_cons, Item.All] at hitems
        obtain ⟨houter, hopening, hbody⟩ := hitems
        refine hadd houter ?_
        rw [Item.All]
        exact ⟨hopening, ht, hbody⟩
      · exact hadd hitems (by rwa [Item.All])

/-- Neither an escape nor a quote. -/
def Token.Bland (t : Token) : Prop := t.kind ≠ .escape ∧ t.kind ≠ .quote

lemma Token.Bland.shape_eq {t : Token} (h : t.Bland) : t.shape = .text t.text := by
  obtain ⟨hescape, hquote⟩ := h
  rw [shape]
  split <;> simp_all

/-- **Inert items are texts.** -/
lemma Item.Inert.isLiteral_row {i : Item} (h : i.Inert options) (hall : i.All Token.Bland) :
    ∀ s ∈ i.row options, s.isLiteral = true := by
  induction i with
  | token t =>
      rw [All] at hall
      rw [row_token, hall.shape_eq]
      simp [Shape.isLiteral]
  | block opening body closing ih =>
      rw [Inert] at h
      rw [All] at hall
      rw [row_block, if_neg (by simp [h.1]), h.2.1]
      intro s hs
      simp only [List.mem_cons, List.mem_append, List.mem_flatMap, List.not_mem_nil, or_false] at hs
      rcases hs with rfl | ⟨i, hi, hs⟩ | rfl
      · rfl
      · exact ih i hi (h.2.2 i hi) (hall.2.2 i hi) s hs
      · rfl

/-! ## Open blocks -/

/-- **An open block is made of texts exactly if something stands before each of its commas.** -/
lemma Level.isLiteral_row_read {items : List Item} (opening : Bytes)
    (h : ∀ i ∈ items, ∀ s ∈ i.row options, s.isLiteral = true) :
    (∀ s ∈ (read options opening items).row, s.isLiteral = true) ↔
      ∀ piece ∈ (Item.alternatives items).dropLast, piece ≠ [] := by
  have hsegments := segments_read options opening items
  have hpieces : ∀ piece ∈ Item.alternatives items,
      ∀ s ∈ piece.flatMap (Item.row options), s.isLiteral = true := by
    intro piece hpiece s hs
    obtain ⟨i, hi, hs⟩ := List.mem_flatMap.mp hs
    exact h i (Item.mem_of_mem_alternatives hpiece hi) s hs
  have hsegment : ∀ s ∈ (read options opening items).segment, s.isLiteral = true := by
    have hmem : (read options opening items).segment
        ∈ (Item.alternatives items).map fun piece => piece.flatMap (Item.row options) := by
      rw [← hsegments]
      simp
    obtain ⟨piece, hpiece, heq⟩ := List.mem_map.mp hmem
    exact heq ▸ hpieces piece hpiece
  have hfinished : (read options opening items).alternatives.reverse.map Prod.fst
      = (Item.alternatives items).dropLast.map fun piece => piece.flatMap (Item.row options) := by
    rw [List.map_dropLast, ← hsegments, List.dropLast_concat]
  have hjoined : ∀ piece ∈ (Item.alternatives items).dropLast,
      ((Shape.joined (fuse (piece.flatMap (Item.row options)))).isLiteral = true ↔ piece ≠ []) := by
    intro piece hpiece
    rw [isLiteral_joined_fuse (hpieces piece (List.dropLast_subset _ hpiece)), not_iff_not]
    constructor
    · intro hnil
      by_contra hne
      obtain ⟨i, rest, rfl⟩ := List.exists_cons_of_ne_nil hne
      exact Item.row_ne_nil options i (List.append_eq_nil_iff.mp hnil).1
    · rintro rfl
      rfl
  calc (∀ s ∈ (read options opening items).row, s.isLiteral = true)
      ↔ ∀ a ∈ (read options opening items).alternatives.reverse,
          (Shape.joined (fuse a.1)).isLiteral = true := by
        simp only [row, List.cons_append, List.forall_mem_cons, List.forall_mem_append,
          List.forall_mem_flatMap]
        exact ⟨fun hall a ha => (hall.2.1 a ha).1,
          fun hall => ⟨rfl, fun a ha => ⟨hall a ha, rfl, by simp⟩, hsegment⟩⟩
    _ ↔ ∀ row ∈ (read options opening items).alternatives.reverse.map Prod.fst,
          (Shape.joined (fuse row)).isLiteral = true := by rw [List.forall_mem_map]
    _ ↔ ∀ piece ∈ (Item.alternatives items).dropLast, piece ≠ [] := by
        rw [hfinished, List.forall_mem_map]
        exact forall₂_congr hjoined

/-! ## Whole patterns -/

/-- No escape, no closed quote, and no closed block that is an alternation or a range. -/
structure Unresolved (options : CompileOptions) (ts : List Token) : Prop where
  escape : ∀ t ∈ ts, t.kind ≠ .escape
  /-- The first of two quotes would be closed by the second. -/
  quote : ts.countP Token.isQuote ≤ 1
  inert : ∀ i ∈ (nest ts).items, i.Inert options

/-- In blocks that are never closed, something stands before every comma. -/
def Filled (ts : List Token) : Prop :=
  ∀ level ∈ (nest (Token.settleQuotes false ts)).levels,
    ∀ piece ∈ (Item.alternatives level.2).dropLast, piece ≠ []

/-- A lone quote is open. -/
lemma Unresolved.bland (h : Unresolved options ts) :
    ∀ t ∈ Token.settleQuotes false ts, t.Bland := by
  obtain ⟨hescape, hquote, -⟩ := h
  induction ts with
  | nil => simp [Token.settleQuotes]
  | cons t ts ih =>
      obtain ⟨ht, hts⟩ := List.forall_mem_cons.mp hescape
      rw [Token.settleQuotes]
      cases hq : t.isQuote with
      | true =>
          rw [List.countP_cons_of_pos hq] at hquote
          have hnone : ∀ u ∈ ts, ¬ u.isQuote = true := List.countP_eq_zero.mp (by omega)
          have hany : ts.any Token.isQuote = false := by simpa using hnone
          simp only [hany, Bool.not_false, Bool.and_self, if_true]
          refine List.forall_mem_cons.mpr ⟨⟨by simp [Token.toLiteral], by simp [Token.toLiteral]⟩, ?_⟩
          intro u hu
          exact ⟨hts u hu, fun hkind => hnone u hu (decide_eq_true hkind)⟩
      | false =>
          rw [List.countP_cons_of_neg (by simp [hq])] at hquote
          refine List.forall_mem_cons.mpr ⟨⟨ht, of_decide_eq_false hq⟩, ih hts hquote⟩

/-- An inert item holds all of its text. -/
lemma Item.Inert.plain {i : Item} (h : i.Inert options) : (i.content options).Plain := by
  induction i with
  | token t =>
      rw [content_token]
      exact ⟨rfl, rfl⟩
  | block opening body closing ih =>
      rw [Inert] at h
      rw [content_block, if_neg (by simp [h.1]), h.2.1]
      simp only [Content.plain_append, Content.plain_all, List.forall_mem_map]
      exact ⟨⟨rfl, rfl⟩, fun i hi => ih i hi (h.2.2 i hi), ⟨rfl, rfl⟩⟩

namespace Scanner

variable {s s' : Scanner}

/-- The row of such a pattern is made of texts exactly if its open blocks are filled. -/
lemma Reads.isLiteral_row (h : s.Reads ts s') (hclosed : s.openQuote = none)
    (hunresolved : Unresolved options ts) :
    (∀ u ∈ (ts.foldl (Reading.step options) {}).row, u.isLiteral = true) ↔ Filled ts := by
  have hinert : ∀ i ∈ (nest (Token.settleQuotes false ts)).items, i.Inert options := by
    have hsame := h.items_settleQuotes (g := Item.Inert options) hclosed fun t => by
      rw [Item.Inert, Item.Inert]
    intro i hi
    have hmem := List.mem_map_of_mem (f := Item.Inert options) hi
    rw [hsame] at hmem
    obtain ⟨j, hj, heq⟩ := List.mem_map.mp hmem
    exact heq ▸ hunresolved.inert j hj
  have hliteral : ∀ i ∈ (nest (Token.settleQuotes false ts)).items,
      ∀ u ∈ i.row options, u.isLiteral = true := fun i hi =>
    (hinert i hi).isLiteral_row (Nesting.all_items hunresolved.bland i hi)
  rw [h.row_eq options hclosed, Filled]
  rw [Nesting.items] at hliteral
  simp only [List.forall_mem_append, List.forall_mem_flatMap, List.mem_reverse,
    List.forall_mem_cons] at hliteral
  obtain ⟨hground, hlevels⟩ := hliteral
  simp only [Reading.row, Nesting.reading, List.append_nil, List.forall_mem_append,
    List.forall_mem_flatMap, ← List.map_reverse, List.forall_mem_map, List.mem_reverse]
  rw [and_iff_right hground]
  exact forall₂_congr fun level hlevel =>
    Level.isLiteral_row_read level.1.text (hlevels level hlevel).2

/-- Nothing of such a pattern is lost. -/
lemma Reads.content_text (h : s.Reads ts s') (hclosed : s.openQuote = none)
    (hunresolved : Unresolved options ts) :
    (Shape.joined (fuse (ts.foldl (Reading.step options) {}).row)).content.text
      = ts.flatMap Token.text := by
  have hcontent := h.measure_eq (measures_content options) hclosed
  rw [h.items_settleQuotes hclosed fun t => by rw [Item.content_token, Item.content_token]; rfl]
    at hcontent
  rw [hcontent]
  change (Content.all _).text = _
  rw [Content.text_all, List.flatMap_map, ← Nesting.text_items]
  exact List.flatMap_congr fun i hi => Item.content_of_plain (hunresolved.inert i hi).plain

end Scanner

/-- The tree of a text is one leaf. -/
lemma Forest.shape_eq_text_iff {f : Forest} {id : Nat} {t : Bytes} :
    f.shape id = .text t ↔ f.node id = .leaf .literal t := by
  cases hnode : f.node id with
  | leaf kind value => simp [shape_leaf hnode]
  | range kind p => simp [shape_range hnode]
  | list kind children => simp [shape_list hnode]

/-- **What comes to nothing is text again, unless something is missing before the comma of an open
block.**  A pattern with no escape, no closed quote, and no closed block that is an alternation or a
range comes to a tree, and this is one literal with the whole pattern in it exactly if in all blocks that
are never closed something stands before every comma.  In either case no other such pattern has
an equal tree. -/
theorem Compiler.compile_unresolved {c : Compiler} (hstrict : c.options.strict = false)
    {pattern : Bytes} (hne : pattern ≠ []) (hlength : pattern.length ≤ maxPatternLength) :
    ∃ s ts tree, Scanner.ofPattern c.options pattern = .ok s ∧ s.tokens = .ok ts ∧
      (c.compile pattern).1 = .ok tree ∧
      (Unresolved c.options ts.toList →
        ((tree.size = 1 ∧ tree.node tree.root = .leaf .literal pattern) ↔ Filled ts.toList) ∧
        ∀ {d : Compiler} {other : Bytes} {s' : Scanner} {us : Array Token} {tree' : Tree},
          Scanner.ofPattern d.options other = .ok s' → s'.tokens = .ok us →
            Unresolved d.options us.toList → (d.compile other).1 = .ok tree' →
              (tree == tree') = true → pattern = other) := by
  have hcontent : ∀ {c : Compiler} {pattern : Bytes} {s : Scanner} {ts : Array Token} {tree : Tree},
      Scanner.ofPattern c.options pattern = .ok s → s.tokens = .ok ts →
        Unresolved c.options ts.toList → (c.compile pattern).1 = .ok tree →
          (tree.forest.shape tree.root).content.text = pattern := by
    intro c pattern s ts tree hs hts hunresolved htree
    rcases Compiler.compile_ok htree with ⟨s', us, s'', hs', hreads, hrest, hus, -, hshape, -⟩
    obtain rfl := Except.ok.inj (hs'.symm.trans hs)
    obtain rfl := Except.ok.inj (hus.symm.trans hts)
    have hclosed : s'.openQuote = none := by rw [ofPattern_eq hs]
    have htext := hreads.text_eq
    rw [ofPattern_eq hs, hrest, List.append_nil] at htext
    rw [hshape, hreads.content_text hclosed hunresolved, ← htext]
  rcases Compiler.compile_total hstrict hlength with ⟨tree, htree⟩
  rcases Compiler.compile_ok htree with ⟨s, ts, s', hs, hreads, hrest, hts, -, hshape, -⟩
  have hclosed : s.openQuote = none := by rw [ofPattern_eq hs]
  refine ⟨s, ts.toArray, tree, hs, hts, htree, fun hunresolved => ⟨?_, ?_⟩⟩
  · have htext := hcontent hs hts hunresolved htree
    rw [← hreads.isLiteral_row hclosed hunresolved, exists_texts_iff]
    constructor
    · rintro ⟨-, hnode⟩
      have hjoined := hshape.symm.trans (Forest.shape_eq_text_iff.mpr hnode)
      obtain ⟨texts, -, hrow, -⟩ := joined_fuse_eq_text_iff.mp hjoined
      exact ⟨texts, hrow⟩
    · rintro ⟨texts, hrow⟩
      have hsome : texts ≠ [] := by
        rintro rfl
        rw [hshape, hrow, List.map_nil, fuse_nil, Shape.joined, Shape.content] at htext
        exact hne htext.symm
      have hjoined : tree.forest.shape tree.root = .text texts.flatten :=
        hshape.trans (joined_fuse_eq_text_iff.mpr ⟨texts, hsome, hrow, rfl⟩)
      have hpattern : texts.flatten = pattern := by
        rw [hjoined, Shape.content] at htext
        exact htext
      rw [hpattern] at hjoined
      exact ⟨by rw [size_of_compile htree, hjoined, Shape.count],
        Forest.shape_eq_text_iff.mp hjoined⟩
  · intro d other s₂ us tree' hs' hus hunresolved' htree' hequal
    rw [← hcontent hs hts hunresolved htree, ← hcontent hs' hus hunresolved' htree',
      Tree.beq_iff.mp hequal]

/-- `{a,{b}'`: a block and a quote that are never closed, with a comma behind a letter, and a closed block
that is text. -/
theorem Compiler.compile_unresolved_filled :
    let c := Compiler.new {}
    let pattern : Bytes := [0x7B, 0x61, 0x2C, 0x7B, 0x62, 0x7D, 0x27]
    c.options.strict = false ∧ pattern ≠ [] ∧ pattern.length ≤ maxPatternLength ∧
      ∃ s ts tree, Scanner.ofPattern c.options pattern = .ok s ∧ s.tokens = .ok ts ∧
        Unresolved c.options ts.toList ∧ Filled ts.toList ∧ (c.compile pattern).1 = .ok tree ∧
        tree.size = 1 ∧ tree.node tree.root = .leaf .literal pattern := by
  intro c pattern
  have hne : pattern ≠ [] := by decide
  have hlength : pattern.length ≤ maxPatternLength := by decide
  refine ⟨rfl, hne, hlength, ?_⟩
  rcases Compiler.compile_unresolved (c := c) rfl hne hlength with ⟨s, ts, tree, hs, hts, htree, hall⟩
  let tokens : List Token := [⟨.opening, 0, [0x7B]⟩, ⟨.literal, 1, [0x61]⟩, ⟨.delimiter, 2, [0x2C]⟩,
    ⟨.opening, 3, [0x7B]⟩, ⟨.literal, 4, [0x62]⟩, ⟨.closing, 5, [0x7D]⟩, ⟨.quote, 6, [0x27]⟩]
  have htokens : s.tokens = .ok tokens.toArray := by
    have hreads : s.Reads tokens ⟨{}, [], 7, some (0x27, 6)⟩ := by
      rw [ofPattern_eq hs]
      exact .cons rfl <| .cons rfl <| .cons rfl <| .cons rfl <| .cons rfl <| .cons rfl <|
        .cons rfl <| .nil _
    rw [hreads.tokens_eq fun t ht => by cases ht]
    rfl
  rw [htokens] at hts
  cases hts
  have hunresolved : Unresolved c.options tokens := by
    refine ⟨by decide, by decide, ?_⟩
    simp [tokens, nest, Nesting.step, Nesting.add, Nesting.items, Item.Inert, Item.isComma, Item.range?]
  have hfilled : Filled tokens := by
    simp [Filled, tokens, Token.settleQuotes, Token.isQuote, Token.toLiteral, nest, Nesting.step,
      Nesting.add, Item.alternatives, Item.isComma, List.splitOnP_cons_eq_if_modifyHead]
  obtain ⟨hsize, hnode⟩ := (hall hunresolved).1.mpr hfilled
  exact ⟨s, _, tree, hs, htokens, hunresolved, hfilled, htree, hsize, hnode⟩

/-- `{,`: nothing resolves, and the tree is a sequence of the brace, an empty leaf and the comma. -/
theorem Compiler.compile_open_comma :
    let c := Compiler.new {}
    let pattern : Bytes := [0x7B, 0x2C]
    ∃ s ts tree, c.options.strict = false ∧ Scanner.ofPattern c.options pattern = .ok s ∧
      s.tokens = .ok ts ∧ Unresolved c.options ts.toList ∧ (c.compile pattern).1 = .ok tree ∧
      tree.forest.shape tree.root
        = .list .concat [.text [0x7B], .leaf .empty [], .text [0x2C]] ∧
      tree.size = 4 ∧ tree.node tree.root ≠ .leaf .literal pattern := by
  intro c pattern
  let tokens : List Token := [⟨.opening, 0, [0x7B]⟩, ⟨.delimiter, 1, [0x2C]⟩]
  have hreads : Scanner.Reads ⟨{}, pattern, 0, none⟩ tokens ⟨{}, [], 2, none⟩ :=
    .cons rfl <| .cons rfl <| .nil _
  obtain ⟨tree, htree, hshape⟩ := exists_tree_of_reads (c := c) (by decide) hreads
    (fun t ht => by cases ht) rfl
  have hconcat : tree.forest.shape tree.root
      = .list .concat [.text [0x7B], .leaf .empty [], .text [0x2C]] := hshape
  have htokens : Scanner.tokens ⟨{}, pattern, 0, none⟩ = .ok tokens.toArray := by
    rw [hreads.tokens_eq fun t ht => by cases ht]
    rfl
  refine ⟨_, tokens.toArray, tree, rfl, rfl, htokens, ?_, htree, hconcat, ?_, ?_⟩
  · refine ⟨by decide, by decide, ?_⟩
    simp [tokens, nest, Nesting.step, Nesting.add, Nesting.items, Item.Inert]
  · rw [size_of_compile htree, hconcat]
    simp [Shape.count]
  · intro hnode
    have htext := hconcat.symm.trans (Forest.shape_eq_text_iff.mpr hnode)
    cases htext

end BraceExpansion
