import BraceExpansion.Proofs.Compiler.Finish
import BraceExpansion.Proofs.Nesting.Measure

/-!
# No text is lost

A pattern that is compiled and found to mean nothing is text, and that text must be the pattern again.

* `Content` — text in order, ranges in order, and whether there is an alternation.
* `Item.content` — what is left of the text of an item: an alternation loses its braces and its own
  commas, a range all of its text.
* `Node.content` — what a node of a tree holds by itself.
* **`Compiler.content_compile`** — the nodes of a tree in preorder hold what is left of the pattern;
  and if they are neither alternations nor ranges, the tree is a way to write the pattern.
-/

namespace BraceExpansion

/-- What is written somewhere, apart from structure. -/
@[ext]
structure Content where
  text : Bytes := []
  ranges : List (RangeKind × Progression) := []
  /-- Whether there are alternatives. -/
  branches : Bool := false
  deriving DecidableEq

namespace Content

def append (x y : Content) : Content :=
  ⟨x.text ++ y.text, x.ranges ++ y.ranges, x.branches || y.branches⟩

/-- One content behind the other. -/
def all (parts : List Content) : Content := parts.foldr append {}

variable {x y z : Content} {parts more : List Content}

@[simp] lemma append_empty (x : Content) : x.append {} = x := by simp [append]

@[simp] lemma empty_append (x : Content) : append {} x = x := by simp [append]

lemma append_assoc (x y z : Content) : (x.append y).append z = x.append (y.append z) := by
  simp [append, Bool.or_assoc]

@[simp] lemma all_nil : all [] = {} := rfl

@[simp] lemma all_cons (x : Content) (parts : List Content) :
    all (x :: parts) = x.append (all parts) := rfl

lemma all_append (parts more : List Content) : all (parts ++ more) = (all parts).append (all more) := by
  induction parts with
  | nil => simp
  | cons x parts ih => rw [List.cons_append, all_cons, all_cons, ih, append_assoc]

lemma all_flatMap {α : Type} (l : List α) (g : α → List Content) :
    all (l.flatMap g) = all (l.map fun a => all (g a)) := by
  induction l with
  | nil => rfl
  | cons a l ih => rw [List.flatMap_cons, all_append, ih, List.map_cons, all_cons]

/-- Alternatives, whatever they hold. -/
def choice (parts : List Content) : Content := append { branches := true } (all parts)

/-- No range and no alternative. -/
def Plain (x : Content) : Prop := x.ranges = [] ∧ x.branches = false

lemma plain_append : (x.append y).Plain ↔ x.Plain ∧ y.Plain := by
  simp only [Plain, append, List.append_eq_nil_iff, Bool.or_eq_false_iff]
  tauto

lemma plain_all : (all parts).Plain ↔ ∀ x ∈ parts, x.Plain := by
  induction parts with
  | nil => simp [Plain]
  | cons x parts ih => rw [all_cons, plain_append, ih, List.forall_mem_cons]

lemma text_all (parts : List Content) : (all parts).text = parts.flatMap text := by
  induction parts with
  | nil => rfl
  | cons x parts ih => rw [all_cons, List.flatMap_cons, ← ih, append]

lemma ranges_all (parts : List Content) : (all parts).ranges = parts.flatMap ranges := by
  induction parts with
  | nil => rfl
  | cons x parts ih => rw [all_cons, List.flatMap_cons, ← ih, append]

lemma text_choice (parts : List Content) : (choice parts).text = parts.flatMap text := by
  simp [choice, append, text_all]

lemma ranges_choice (parts : List Content) : (choice parts).ranges = parts.flatMap ranges := by
  simp [choice, append, ranges_all]

lemma choice_congr (htext : parts.flatMap text = more.flatMap text)
    (hranges : parts.flatMap ranges = more.flatMap ranges) : choice parts = choice more := by
  ext1
  · rw [text_choice, text_choice, htext]
  · rw [ranges_choice, ranges_choice, hranges]
  · simp [choice, append]

lemma not_plain_choice (parts : List Content) : ¬ (choice parts).Plain := by
  rw [choice, plain_append]
  rintro ⟨⟨-, hbranches⟩, -⟩
  cases hbranches

end Content

/-! ## What items, shapes and nodes hold -/

/-- The text of an item, as it stands in the pattern. -/
def Item.text : Item → Bytes
  | .token t => t.text
  | .block opening body closing =>
    opening.text ++ (body.flatMap fun i => text i) ++ closing.text

/-- What is left of the text of an item. -/
def Item.content (options : CompileOptions) : Item → Content
  | .token t => { text := t.text }
  | .block opening body closing =>
    if body.any isComma then
      .choice (body.map fun i => if i.isComma then {} else content options i)
    else
      match range? options body with
      | some range => { ranges := [range] }
      | none =>
        Content.append { text := opening.text } ((Content.all (body.map fun i =>
          content options i)).append { text := closing.text })

/-- What a shape holds. -/
def Shape.content : Shape → Content
  | .leaf _ value => { text := value }
  | .range kind p => { ranges := [(kind, p)] }
  | .list .concat children => .all (children.map content)
  | .list .alternate children => .choice (children.map content)

/-- What a node holds by itself. -/
def Node.content : Node → Content
  | .leaf _ value => { text := value }
  | .range kind p => { ranges := [(kind, p)] }
  | .list kind _ => { branches := kind = .alternate }

namespace Item

variable {options : CompileOptions}

lemma text_block (opening closing : Token) (body : List Item) :
    text (.block opening body closing) = opening.text ++ body.flatMap text ++ closing.text := by
  rw [text]

lemma content_token (t : Token) : content options (.token t) = { text := t.text } := by
  rw [content]

lemma content_block (opening closing : Token) (body : List Item) :
    content options (.block opening body closing) =
      if body.any isComma then
        .choice (body.map fun i => if i.isComma then {} else content options i)
      else
        match range? options body with
        | some range => { ranges := [range] }
        | none =>
          Content.append { text := opening.text } ((Content.all (body.map (content options))).append
            { text := closing.text }) := by
  rw [content]

/-- The alternatives of a block hold what the block holds, but for the commas between them. -/
lemma all_alternatives (body : List Item) :
    Content.all ((alternatives body).map fun piece => .all (piece.map (content options)))
      = .all (body.map fun i => if i.isComma then {} else content options i) := by
  induction body using List.reverseRecOn with
  | nil => rfl
  | append_singleton body i ih =>
      rw [List.map_append, Content.all_append, ← ih]
      cases hcomma : i.isComma with
      | true => simp [alternatives_comma hcomma, Content.all_append, hcomma]
      | false =>
          rcases alternatives_concat hcomma body with ⟨finished, last, hbody, hmore⟩
          simp [hbody, hmore, Content.all_append, Content.append_assoc, hcomma]

/-- An item that holds no range and no alternative is its text. -/
lemma content_of_plain {i : Item} (h : (i.content options).Plain) :
    (i.content options).text = i.text := by
  induction i with
  | token t => rw [content_token, text]
  | block opening body closing ih =>
      rw [content_block] at h ⊢
      split at h
      · exact absurd h (Content.not_plain_choice _)
      next hcomma =>
        rw [if_neg hcomma]
        split at h
        · cases h.1
        next hrange =>
          rw [Content.plain_append, Content.plain_append, Content.plain_all] at h
          have hbody : (Content.all (body.map (content options))).text = body.flatMap text := by
            rw [Content.text_all, List.flatMap_map]
            refine List.flatMap_congr ?_
            intro i hi
            exact ih i hi (h.2.1 _ (List.mem_map_of_mem hi))
          simp only [Content.append]
          rw [hbody, text_block, List.append_assoc]

end Item

namespace Nesting

/-- Every token is in some item. -/
lemma text_items (ts : List Token) : (nest ts).items.flatMap Item.text = ts.flatMap Token.text := by
  induction ts using List.reverseRecOn with
  | nil => rfl
  | append_singleton ts t ih =>
      have hadd : ∀ n : Nesting, n.items.flatMap Item.text = ts.flatMap Token.text →
          (n.add (.token t)).items.flatMap Item.text = (ts ++ [t]).flatMap Token.text := by
        intro n hn
        simp [items_add, hn, Item.text]
      rw [nest_concat, step]
      split
      · simp [items, List.flatMap_append, ← ih, Item.text]
      next opening body outer hkind hlevels =>
        rw [items_add, List.flatMap_append, List.flatMap_append, ← ih]
        simp [items, hlevels, Item.text, List.flatMap_assoc]
      · exact hadd _ ih

end Nesting

namespace Shape

lemma sequential_content : Sequential Content.append {} content where
  assoc := Content.append_assoc
  one_op := Content.empty_append
  op_one := Content.append_empty
  text t u := by simp [content, Content.append]
  empty := by simp [content]
  concat children := by
    rw [content, Content.all, List.foldr_map]
    rfl

/-- Alternatives of an alternative are alternatives, and hold the same. -/
lemma content_splice (s : Shape) :
    ((s.splice .alternate).flatMap fun u => u.content.text) = s.content.text ∧
      ((s.splice .alternate).flatMap fun u => u.content.ranges) = s.content.ranges := by
  match s with
  | .leaf kind t => simp [splice]
  | .range kind p => simp [splice]
  | .list .concat children => simp [splice]
  | .list .alternate children =>
    simp [splice, content, Content.text_choice, Content.ranges_choice, List.flatMap_map]

lemma content_gathered (row : List Shape) :
    (gathered .alternate row.reverse).content = .choice (row.map content) := by
  rw [gathered, content, List.reverse_reverse]
  refine Content.choice_congr ?_ ?_
  · rw [List.flatMap_map, List.flatMap_map, List.flatMap_assoc]
    refine List.flatMap_congr ?_
    intro s _
    exact (content_splice s).1
  · rw [List.flatMap_map, List.flatMap_map, List.flatMap_assoc]
    refine List.flatMap_congr ?_
    intro s _
    exact (content_splice s).2

/-- With escapes and quotes kept, a shape without ranges and alternatives is written in one way. -/
lemma expansions_of_plain {s : Shape} (h : s.content.Plain) :
    s.expansions { keepEscape := true, keepQuote := true } = [s.content.text] := by
  induction s with
  | leaf kind t => cases kind <;> simp [expansions, content, ExpandOptions.shown]
  | range kind p => simp [content, Content.Plain] at h
  | list kind children ih =>
      cases kind with
      | alternate =>
          rw [content] at h
          exact absurd h (Content.not_plain_choice _)
      | concat =>
          rw [content, Content.plain_all] at h
          have hproduct : ∀ row ⊆ children,
              Expansions.product (row.map (expansions { keepEscape := true, keepQuote := true }))
                = [row.flatMap fun s => s.content.text] := by
            intro row hrow
            induction row with
            | nil => rfl
            | cons s row ihrow =>
                rw [List.cons_subset] at hrow
                rw [List.map_cons, Expansions.product_cons, ihrow hrow.2,
                  ih s hrow.1 (h _ (List.mem_map_of_mem hrow.1)), Expansions.singleton_cross]
                simp
          rw [expansions, hproduct children (List.Subset.refl children), content, Content.text_all,
            List.flatMap_map]

end Shape

lemma measures_content (options : CompileOptions) :
    Measures options Content.append {} Content.choice Shape.content (Item.content options) where
  sequential := Shape.sequential_content
  gathered := Shape.content_gathered
  token t := by
    rw [Item.content_token]
    cases hkind : t.kind <;> simp [Token.shape, hkind, Shape.content]
  choice opening body closing hcomma := by
    rw [Item.content_block, if_pos hcomma, Content.choice, ← Item.all_alternatives]
    rfl
  range opening body closing kind p hcomma hrange := by
    rw [Item.content_block, if_neg (by simp [hcomma]), hrange, Shape.content]
  text opening body closing hcomma hrange := by
    rw [Item.content_block, if_neg (by simp [hcomma]), hrange, Shape.content, Shape.content]
    rfl

/-- The nodes at and below a node hold what its shape holds. -/
lemma Forest.content_below (f : Forest) (id : Nat) :
    Content.all ((f.below id).map fun j => (f.node j).content) = (f.shape id).content := by
  induction id using Nat.strongRecOn with
  | ind id ih =>
      rw [below_eq, List.map_cons, Content.all_cons]
      cases hnode : f.node id with
      | leaf kind value => rw [shape_leaf hnode]; simp [Node.content, Node.children, Shape.content]
      | range kind p => rw [shape_range hnode]; simp [Node.content, Node.children, Shape.content]
      | list kind children =>
          have hchildren : Content.all ((children.flatMap f.below).map fun j => (f.node j).content)
              = .all (children.map fun c => (f.shape c).content) := by
            rw [List.map_flatMap, Content.all_flatMap]
            congr 1
            refine List.map_congr_left ?_
            intro c hc
            exact ih c (f.child_lt (by rw [hnode]; exact hc))
          rw [shape_list hnode, Node.children, hchildren]
          cases kind with
          | concat => simp [Node.content, Shape.content, Function.comp_def]
          | alternate => simp [Node.content, Shape.content, Content.choice, Function.comp_def]

/-- **The nodes of a tree hold what is left of the pattern, in order**: the text of all tokens but for
the braces and commas of alternations and the tokens of ranges, and the ranges.  A tree without
alternations and ranges is written as its pattern when escapes and quotes are kept. -/
theorem Compiler.content_compile {c : Compiler} {pattern : Bytes} {tree : Tree}
    (h : (c.compile pattern).1 = .ok tree) :
    ∃ s ts, Scanner.ofPattern c.options pattern = .ok s ∧ s.tokens = .ok ts ∧
      let items := (nest ts.toList).items
      let nodes := (tree.forest.preorder tree.root).order.toList.map tree.node
      items.flatMap Item.text = pattern ∧
      Content.all (nodes.map Node.content) = .all (items.map (Item.content c.options)) ∧
      ((∀ n ∈ nodes, (∀ kind p, n ≠ .range kind p) ∧ ∀ children, n ≠ .list .alternate children) →
        ∀ {σ : Type} (emit : σ → Buffer → σ) (acc : σ) (buffer : Buffer),
          (tree.walk { keepEscape := true, keepQuote := true } emit acc buffer).1
            = emit acc pattern.toArray) := by
  rcases Compiler.compile_ok h with ⟨s, ts, s', hs, hreads, hrest, htokens, hnodup, hshape, hwalk⟩
  have hclosed : s.openQuote = none := by rw [ofPattern_eq hs]
  have hpattern : (nest ts).items.flatMap Item.text = pattern := by
    have htext := hreads.text_eq
    rw [ofPattern_eq hs, hrest, List.append_nil] at htext
    rw [Nesting.text_items, ← htext]
  have hcontent : (tree.forest.shape tree.root).content
      = .all ((nest ts).items.map (Item.content c.options)) := by
    rw [hshape, hreads.measure_eq (measures_content c.options) hclosed,
      hreads.items_settleQuotes hclosed]
    · rfl
    · intro t
      rw [Item.content_token, Item.content_token]
      rfl
  have hnodes : Content.all (((tree.forest.preorder tree.root).order.toList.map tree.node).map
      Node.content) = (tree.forest.shape tree.root).content := by
    rw [← tree.forest.content_below tree.root, ← Forest.order_preorder hnodup, List.map_map]
    rfl
  refine ⟨s, ts.toArray, hs, htokens, hpattern, hnodes.trans hcontent, ?_⟩
  intro hplain σ emit acc buffer
  have hshapePlain : (tree.forest.shape tree.root).content.Plain := by
    rw [← hnodes, Content.plain_all]
    intro x hx
    rcases List.mem_map.mp hx with ⟨n, hn, rfl⟩
    cases n with
    | leaf kind value => exact ⟨rfl, rfl⟩
    | range kind p => exact absurd rfl ((hplain _ hn).1 kind p)
    | list kind children =>
        cases kind with
        | concat => exact ⟨rfl, rfl⟩
        | alternate => exact absurd rfl ((hplain _ hn).2 children)
  have htext : (tree.forest.shape tree.root).content.text = pattern := by
    rw [hcontent, Content.plain_all] at hshapePlain
    rw [hcontent, Content.text_all, List.flatMap_map, ← hpattern]
    refine List.flatMap_congr ?_
    intro i hi
    exact Item.content_of_plain (hshapePlain _ (List.mem_map_of_mem hi))
  rw [hwalk, Shape.expansions_of_plain hshapePlain, htext]
  rfl

/-- `{a,{1..2}}{`: of an alternation, a range and a brace that is never closed, the letter, the range
and the last brace are left. -/
theorem Compiler.content_compile_nested :
    let c := Compiler.new {}
    let pattern : Bytes := [0x7B, 0x61, 0x2C, 0x7B, 0x31, 0x2E, 0x2E, 0x32, 0x7D, 0x7D, 0x7B]
    ∃ tree, (c.compile pattern).1 = .ok tree ∧
      Content.all (((tree.forest.preorder tree.root).order.toList.map tree.node).map Node.content)
        = ⟨[0x61, 0x7B], [(.integer, ⟨1, 1, 1, 0⟩)], true⟩ := by
  intro c pattern
  have hlength : pattern.length ≤ maxPatternLength := by decide
  rcases Compiler.compile_total (c := c) rfl hlength with ⟨tree, htree⟩
  rcases Compiler.content_compile htree with ⟨s, ts, hs, hts, -, hcontent, -⟩
  have htokens : s.tokens = .ok #[⟨.opening, 0, [0x7B]⟩, ⟨.literal, 1, [0x61]⟩,
      ⟨.delimiter, 2, [0x2C]⟩, ⟨.opening, 3, [0x7B]⟩, ⟨.literal, 4, [0x31]⟩,
      ⟨.range, 5, [0x2E, 0x2E]⟩, ⟨.literal, 7, [0x32]⟩, ⟨.closing, 8, [0x7D]⟩,
      ⟨.closing, 9, [0x7D]⟩, ⟨.opening, 10, [0x7B]⟩] := by
    have hreads := Scanner.Reads.cons (s := s) (by rw [ofPattern_eq hs]; rfl) <|
      .cons rfl <| .cons rfl <| .cons rfl <| .cons rfl <| .cons rfl <| .cons rfl <| .cons rfl <|
      .cons rfl <| .cons rfl <| .nil _
    rw [hreads.tokens_eq fun t ht => by cases ht]
    rfl
  rw [htokens] at hts
  cases hts
  let range : List Item := [.token ⟨.literal, 4, [0x31]⟩, .token ⟨.range, 5, [0x2E, 0x2E]⟩,
    .token ⟨.literal, 7, [0x32]⟩]
  have hrange : Item.range? c.options range = some (.integer, ⟨1, 1, 1, 0⟩) := by decide +kernel
  have hinner : Item.content c.options (.block ⟨.opening, 3, [0x7B]⟩ range ⟨.closing, 8, [0x7D]⟩)
      = { ranges := [(.integer, ⟨1, 1, 1, 0⟩)] } := by
    rw [Item.content_block, if_neg (by decide), hrange]
  refine ⟨tree, htree, hcontent.trans ?_⟩
  show Content.all (List.map (Item.content c.options) [.block ⟨.opening, 0, [0x7B]⟩
    [.token ⟨.literal, 1, [0x61]⟩, .token ⟨.delimiter, 2, [0x2C]⟩,
      .block ⟨.opening, 3, [0x7B]⟩ range ⟨.closing, 8, [0x7D]⟩] ⟨.closing, 9, [0x7D]⟩,
    .token ⟨.opening, 10, [0x7B]⟩]) = _
  rw [List.map_cons, List.map_singleton, Item.content_block, if_pos (by decide)]
  simp only [List.map_cons, List.map_nil, Item.content_token, hinner]
  rfl

end BraceExpansion
