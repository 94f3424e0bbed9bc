import BraceExpansion.Proofs.Content
import BraceExpansion.Proofs.Forest.Label
import BraceExpansion.Proofs.Tree.Equality
import BraceExpansion.Proofs.ValidText

/-!
# A dump determines the meaning

Patterns are compared by the dumps of their trees.  A dump leaves something out: the columns that
values are filled up to, how many values there are, and small steps.  So there are trees that differ
and have one dump, and the question is whether their expansions can differ.

**Legible shapes.**  A shape is `Legible` if it is normal, its leaves are well-formed, and only letters
bound its ranges of characters.  Legible shapes with one outline have the same expansions
(`Shape.Legible.expansions_eq`): what the outline leaves out does not show.

**Patterns.**  The ranges of a tree are those of the closed blocks (`Item.found_of_mem_content`), so the
shape of a well-formed pattern is legible unless any characters may bound a range
(`Compiler.legible_of_compile`), and **`Compiler.walk_of_dump_eq`** is about all such patterns.
-/

namespace BraceExpansion

/-! ## Ranges of a pattern -/

namespace Item

variable {options : CompileOptions}

/-- A range in a block is made from two texts. -/
lemma ofTexts?_of_range? {body : List Item} {kind : RangeKind} {p : Progression}
    (h : range? options body = some (kind, p)) :
    ∃ first last step, Progression.ofTexts? options first last step = some (kind, p) := by
  rw [range?.eq_def] at h
  split at h
  · split at h
    · simp only [Option.bind_eq_bind, Option.bind_eq_some_iff] at h
      obtain ⟨_, -, _, -, h⟩ := h
      exact ⟨_, _, _, h⟩
    · cases h
  · split at h
    · simp only [Option.bind_eq_bind, Option.bind_eq_some_iff] at h
      obtain ⟨_, -, _, -, _, -, h⟩ := h
      exact ⟨_, _, _, h⟩
    · cases h
  · cases h

/-- **The ranges an item holds are found in it.** -/
lemma found_of_mem_content (hany : options.anyCharRange = false) (i : Item) :
    ∀ r ∈ (i.content options).ranges, r.1.Found r.2 := by
  induction i with
  | token t => simp [content_token]
  | block opening body closing ih =>
      rw [content_block]
      split
      next hcomma =>
        intro r hr
        rw [Content.ranges_choice, List.flatMap_map] at hr
        obtain ⟨i, hi, hr⟩ := List.mem_flatMap.mp hr
        split at hr
        · cases hr
        · exact ih i hi r hr
      next hcomma =>
        split
        next range hrange =>
          intro r hr
          obtain rfl := List.mem_singleton.mp hr
          obtain ⟨first, last, step, htexts⟩ := ofTexts?_of_range? hrange
          exact ⟨options, first, last, step, hany, htexts⟩
        next hrange =>
          intro r hr
          have hr : r ∈ (Content.all (body.map (content options))).ranges := by
            simpa [Content.append] using hr
          rw [Content.ranges_all, List.flatMap_map] at hr
          obtain ⟨i, hi, hr⟩ := List.mem_flatMap.mp hr
          exact ih i hi r hr

end Item

/-! ## Legible shapes -/

namespace Shape

variable {s t : Shape} {kind : ListKind} {children : List Shape}

/-- A shape of which an outline tells all that can be seen in its expansions. -/
structure Legible (s : Shape) : Prop where
  normal : s.Normal
  valid : s.Valid
  found : ∀ r ∈ s.content.ranges, r.1.Found r.2

lemma mem_ranges_list {c : Shape} (hc : c ∈ children) {r : RangeKind × Progression}
    (hr : r ∈ c.content.ranges) : r ∈ (list kind children).content.ranges := by
  cases kind with
  | concat =>
      rw [content, Content.ranges_all, List.flatMap_map]
      exact List.mem_flatMap.mpr ⟨c, hc, hr⟩
  | alternate =>
      rw [content, Content.ranges_choice, List.flatMap_map]
      exact List.mem_flatMap.mpr ⟨c, hc, hr⟩

lemma Legible.child (h : (list kind children).Legible) : ∀ c ∈ children, c.Legible := by
  obtain ⟨hnormal, hvalid, hfound⟩ := h
  rw [Normal] at hnormal
  rw [Valid] at hvalid
  intro c hc
  exact ⟨(hnormal.2 c hc).2, hvalid c hc, fun r hr => hfound r (mem_ranges_list hc hr)⟩

/-- Leaves with one label are equal. -/
lemma Legible.leaf_eq {kind kind' : LeafKind} {value value' : Bytes}
    (hs : (leaf kind value).Legible) (ht : (leaf kind' value').Legible)
    (h : (Node.leaf kind value).label = (Node.leaf kind' value').label) :
    kind = kind' ∧ value = value' := by
  obtain ⟨hkind, hcaption⟩ := Node.label_inj h
  obtain rfl := LeafKind.kind_inj hkind
  refine ⟨rfl, ?_⟩
  by_cases hempty : kind = .empty
  · -- an empty leaf is shown without its text, but it has none
    subst hempty
    have hvalue := hs.normal
    have hvalue' := ht.normal
    rw [Normal, LeafKind.Spells] at hvalue hvalue'
    rw [hvalue, hvalue']
  · have hvalid := hs.valid
    have hvalid' := ht.valid
    rw [Valid] at hvalid hvalid'
    exact Node.value_of_caption hempty hvalid.1 hvalid'.1 hcaption

/-- Ranges with one label are written alike. -/
lemma Legible.range_eq {kind kind' : RangeKind} {p q : Progression}
    (hs : (range kind p).Legible) (ht : (range kind' q).Legible)
    (h : (Node.range kind p).label = (Node.range kind' q).label) :
    p.terms.map (kind.text p.width) = q.terms.map (kind'.text q.width) := by
  obtain ⟨hkind, -⟩ := Node.label_inj h
  obtain rfl := RangeKind.kind_inj hkind
  refine RangeKind.Found.texts_eq_of_label (hs.found (kind, p) ?_) (ht.found (kind, q) ?_) h
  · simp [content]
  · simp [content]

/-- **What an outline leaves out does not show.** -/
theorem Legible.expansions_eq (hs : s.Legible) (ht : t.Legible) (h : s.outline = t.outline)
    (expand : ExpandOptions) : s.expansions expand = t.expansions expand := by
  induction s generalizing t with
  | leaf kind value =>
      have hlabel := label_of_outline h
      cases t with
      | leaf kind' value' =>
          obtain ⟨rfl, rfl⟩ := hs.leaf_eq ht hlabel
          rfl
      | range kind' q => exact absurd (Node.label_inj hlabel).1 (kind.kind_ne_range kind')
      | list kind' children' => exact absurd (Node.label_inj hlabel).1 (kind.kind_ne_list kind')
  | range kind p =>
      have hlabel := label_of_outline h
      cases t with
      | leaf kind' value' => exact absurd (Node.label_inj hlabel).1.symm (kind'.kind_ne_range kind)
      | range kind' q =>
          rw [expansions, expansions]
          exact hs.range_eq ht hlabel
      | list kind' children' => exact absurd (Node.label_inj hlabel).1 (kind.kind_ne_list kind')
  | list kind children ih =>
      have hlabel := label_of_outline h
      cases t with
      | leaf kind' value' => exact absurd (Node.label_inj hlabel).1.symm (kind'.kind_ne_list kind)
      | range kind' q => exact absurd (Node.label_inj hlabel).1.symm (kind'.kind_ne_list kind)
      | list kind' children' =>
          obtain rfl := ListKind.kind_inj (Node.label_inj hlabel).1
          rw [outline, outline, Outline.node.injEq, Forest.map_eq_map_iff_zip] at h
          obtain ⟨-, hlength, hzip⟩ := h
          have hchildren : children.map (expansions expand) = children'.map (expansions expand) := by
            rw [Forest.map_eq_map_iff_zip]
            refine ⟨hlength, fun e he => ?_⟩
            obtain ⟨hc, hc'⟩ := List.of_mem_zip he
            exact ih e.1 hc (hs.child e.1 hc) (ht.child e.2 hc') (hzip e he)
          cases kind with
          | concat => rw [expansions, expansions, hchildren]
          | alternate => rw [expansions, expansions, List.flatMap_def, List.flatMap_def, hchildren]

end Shape

/-! ## Whole patterns -/

namespace Compiler

variable {c d : Compiler} {p q : Bytes} {s t : Tree}

/-- The shape of a well-formed pattern is legible, if only letters bound ranges of characters. -/
lemma legible_of_compile (h : (c.compile p).1 = .ok s) (hany : c.options.anyCharRange = false)
    (hinput : Utf8.WellFormed p) : (s.forest.shape s.root).Legible := by
  rcases compile_ok h with ⟨scanner, ts, scanner', hs, hreads, -, -, -, hshape, -⟩
  have hclosed : scanner.openQuote = none := by rw [ofPattern_eq hs]
  have hsound : scanner.Sound := by
    rw [ofPattern_eq hs]
    nofun
  have htexts : ∀ t ∈ ts, Utf8.WellFormed t.text := by
    refine hreads.wellFormed hsound (Or.inl ?_)
    rw [ofPattern_eq hs]
    exact hinput
  rw [hshape]
  refine ⟨?_, ?_, ?_⟩
  · refine Reading.every_joined Shape.kept_normal c.options ?_ (Or.inl fun _ hu => hu)
    exact fun t ht => Token.yields_normal (hreads.text_ne_nil t ht) (hreads.exact hsound t ht)
  · refine Reading.every_joined Shape.kept_valid c.options ?_ (Or.inl fun _ hu => hu)
    exact fun t ht => Token.yields_valid (htexts t ht) (hreads.spelled t ht)
  · rw [hreads.measure_eq (measures_content c.options) hclosed]
    intro r hr
    have hr : r ∈ (Content.all ((nest (Token.settleQuotes false ts)).items.map
        (Item.content c.options))).ranges := hr
    rw [Content.ranges_all, List.flatMap_map] at hr
    obtain ⟨i, -, hr⟩ := List.mem_flatMap.mp hr
    exact i.found_of_mem_content hany r hr

/-- **The dump determines the meaning.**  If the trees of two well-formed patterns have the same dump, they
have the same expansions in the same order, however these are written, whatever is done with them and
whatever has been in the buffer.  The patterns may be read in different ways, but only letters may
bound ranges of characters. -/
theorem walk_of_dump_eq (hs : (c.compile p).1 = .ok s) (ht : (d.compile q).1 = .ok t)
    (hany : c.options.anyCharRange = false) (hany' : d.options.anyCharRange = false)
    (hp : Utf8.WellFormed p) (hq : Utf8.WellFormed q) (h : s.dump = t.dump)
    (expand : ExpandOptions) {σ : Type} (emit : σ → Buffer → σ) (acc : σ) (buffer buffer' : Buffer) :
    (s.walk expand emit acc buffer).1 = (t.walk expand emit acc buffer').1 := by
  have houtline : (s.forest.shape s.root).outline = (t.forest.shape t.root).outline := by
    refine Outline.eq_of_printed_eq (Shape.flat_outline _) (Shape.flat_outline _) ?_
    rw [← Forest.toList_dump, ← Forest.toList_dump]
    exact congrArg String.toList h
  have hexpansions := (legible_of_compile hs hany hp).expansions_eq (legible_of_compile ht hany' hq)
    houtline expand
  rw [walk_of_compile hs, walk_of_compile ht, hexpansions]

/-- `{200..099..60}` and `{200..140..60}`: two values of three columns, with zeros asked for and without.
The trees differ and have one dump. -/
theorem walk_of_dump_eq_hidden_zeros :
    let c := new {}
    let d := new { ignoreEscape := true }
    let p : Bytes := [0x7B, 0x32, 0x30, 0x30, 0x2E, 0x2E, 0x30, 0x39, 0x39, 0x2E, 0x2E, 0x36, 0x30, 0x7D]
    let q : Bytes := [0x7B, 0x32, 0x30, 0x30, 0x2E, 0x2E, 0x31, 0x34, 0x30, 0x2E, 0x2E, 0x36, 0x30, 0x7D]
    ∃ s t, (c.compile p).1 = .ok s ∧ (d.compile q).1 = .ok t ∧ c.options.anyCharRange = false ∧
      d.options.anyCharRange = false ∧ Utf8.WellFormed p ∧ Utf8.WellFormed q ∧ s.dump = t.dump ∧
      (s == t) = false ∧
      ∀ buffer, (s.walk {} (fun found x => found ++ [x.toList]) [] buffer).1
        = (t.walk {} (fun found x => found ++ [x.toList]) [] #[]).1 := by
  intro c d p q
  have hreads : Scanner.Reads ⟨{}, p, 0, none⟩
      [⟨.opening, 0, [0x7B]⟩, ⟨.literal, 1, [0x32, 0x30, 0x30]⟩, ⟨.range, 4, [0x2E, 0x2E]⟩,
        ⟨.literal, 6, [0x30, 0x39, 0x39]⟩, ⟨.range, 9, [0x2E, 0x2E]⟩, ⟨.literal, 11, [0x36, 0x30]⟩,
        ⟨.closing, 13, [0x7D]⟩] ⟨{}, [], 14, none⟩ :=
    .cons rfl <| .cons rfl <| .cons rfl <| .cons rfl <| .cons rfl <| .cons rfl <| .cons rfl <| .nil _
  have hreads' : Scanner.Reads ⟨{ ignoreEscape := true }, q, 0, none⟩
      [⟨.opening, 0, [0x7B]⟩, ⟨.literal, 1, [0x32, 0x30, 0x30]⟩, ⟨.range, 4, [0x2E, 0x2E]⟩,
        ⟨.literal, 6, [0x31, 0x34, 0x30]⟩, ⟨.range, 9, [0x2E, 0x2E]⟩, ⟨.literal, 11, [0x36, 0x30]⟩,
        ⟨.closing, 13, [0x7D]⟩] ⟨{ ignoreEscape := true }, [], 14, none⟩ :=
    .cons rfl <| .cons rfl <| .cons rfl <| .cons rfl <| .cons rfl <| .cons rfl <| .cons rfl <| .nil _
  obtain ⟨s, hs, hshape⟩ := exists_tree_of_reads (c := c) (by decide) hreads (fun _ h => by cases h) rfl
  obtain ⟨t, ht, hshape'⟩ := exists_tree_of_reads (c := d) (by decide) hreads' (fun _ h => by cases h) rfl
  have hrange : s.forest.shape s.root = .range .integer ⟨200, 1, -60, 3⟩ := hshape.trans rfl
  have hrange' : t.forest.shape t.root = .range .integer ⟨200, 1, -60, 0⟩ := hshape'.trans rfl
  have hp : Utf8.WellFormed p := ⟨"\x7b200..099..60\x7d", rfl⟩
  have hq : Utf8.WellFormed q := ⟨"\x7b200..140..60\x7d", rfl⟩
  have hlabel : (Shape.range .integer ⟨200, 1, -60, 3⟩).label
      = (Shape.range .integer ⟨200, 1, -60, 0⟩).label := by decide +kernel
  have hdump : s.dump = t.dump := by
    rw [← String.toList_inj, Tree.dump, Tree.dump, Forest.toList_dump, Forest.toList_dump, hrange,
      hrange', Shape.outline, Shape.outline, hlabel]
  have hdiffer : (s == t) = false := by
    rw [Bool.eq_false_iff, Ne, Tree.beq_iff, hrange, hrange']
    simp
  exact ⟨s, t, hs, ht, rfl, rfl, hp, hq, hdump, hdiffer,
    fun buffer => walk_of_dump_eq hs ht rfl rfl hp hq hdump {} _ _ _ _⟩

end Compiler

end BraceExpansion
