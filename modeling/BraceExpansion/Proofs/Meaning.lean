import BraceExpansion.Proofs.Compiler.Finish
import BraceExpansion.Proofs.Nesting.Measure

/-!
# The meaning of a pattern

What a pattern stands for can be read off its tokens once the braces are matched, without a stack
of drafts, a tree or a buffer.

* `Item.meaning` — what a token or a closed block stands for.
* `meaning` — what tokens stand for: one text from each item in every combination.
* **`Compiler.walk_compile`** — compiling and walking gives exactly this.
-/

namespace BraceExpansion

/-- A token by itself as it is written. -/
def Token.shown (expand : ExpandOptions) (t : Token) : Bytes :=
  match t.kind with
  | .escape => expand.shown .escape t.text
  | .quote => expand.shown .quote t.text
  | _ => t.text

/-- What an item stands for.  A block with commas stands for its alternatives one after the other, a
block that is written like a range for the values of the range, and any other block for what is
inside it between two braces. -/
def Item.meaning (options : CompileOptions) (expand : ExpandOptions) : Item → Expansions
  | .token t => [t.shown expand]
  | .block opening body closing =>
    if body.any isComma then
      (alternatives body).attach.flatMap fun piece =>
        Expansions.product (piece.1.attach.map fun i =>
          have := List.sizeOf_lt_of_mem (mem_of_mem_alternatives piece.2 i.2)
          meaning options expand i.1)
    else
      match range? options body with
      | some (kind, p) => p.terms.map (kind.text p.width)
      | none =>
        Expansions.cross [opening.text] (Expansions.cross
          (Expansions.product (body.map fun i => meaning options expand i)) [closing.text])
termination_by i => i

/-- **What tokens stand for.**  A quote that is never closed is text. -/
def meaning (options : CompileOptions) (expand : ExpandOptions) (ts : List Token) : Expansions :=
  Expansions.product ((nest (Token.settleQuotes false ts)).items.map (Item.meaning options expand))

namespace Item

variable {options : CompileOptions} {expand : ExpandOptions}

lemma meaning_token (t : Token) : meaning options expand (.token t) = [t.shown expand] := by
  rw [meaning]

lemma meaning_block (opening closing : Token) (body : List Item) :
    meaning options expand (.block opening body closing) =
      if body.any isComma then
        (alternatives body).flatMap fun piece =>
          Expansions.product (piece.map (meaning options expand))
      else
        match range? options body with
        | some (kind, p) => p.terms.map (kind.text p.width)
        | none =>
          Expansions.cross [opening.text] (Expansions.cross
            (Expansions.product (body.map (meaning options expand))) [closing.text]) := by
  rw [meaning]
  simp

end Item

namespace Shape

variable {expand : ExpandOptions}

lemma sequential_expansions :
    Sequential Expansions.cross [[]] (expansions expand) where
  assoc := Expansions.cross_assoc
  one_op := Expansions.one_cross
  op_one := Expansions.cross_one
  text t u := by simp [expansions, ExpandOptions.shown, Expansions.cross]
  empty := by simp [expansions, ExpandOptions.shown]
  concat children := by
    rw [expansions, Expansions.product, List.foldr_map]
    rfl

/-- Alternatives of an alternative are alternatives. -/
lemma flatMap_splice_alternate (row : List Shape) :
    (row.flatMap (splice .alternate)).flatMap (expansions expand)
      = row.flatMap (expansions expand) := by
  rw [List.flatMap_assoc]
  refine List.flatMap_congr ?_
  intro s _
  match s with
  | .leaf kind t => simp [splice]
  | .range kind p => simp [splice]
  | .list .concat children => simp [splice]
  | .list .alternate children => simp [splice, expansions]

end Shape

lemma measures_meaning (options : CompileOptions) (expand : ExpandOptions) :
    Measures options Expansions.cross [[]] List.flatten (Shape.expansions expand)
      (Item.meaning options expand) where
  sequential := Shape.sequential_expansions
  gathered row := by
    rw [Shape.gathered, Shape.expansions, List.reverse_reverse, Shape.flatMap_splice_alternate,
      List.flatMap_def]
  token t := by
    rw [Item.meaning_token]
    cases hkind : t.kind <;>
      simp [Token.shown, Token.shape, hkind, Shape.expansions, ExpandOptions.shown]
  choice opening body closing hcomma := by
    rw [Item.meaning_block, if_pos hcomma, List.flatMap_def]
    rfl
  range opening body closing kind p hcomma hrange := by
    rw [Item.meaning_block, if_neg (by simp [hcomma]), hrange, Shape.expansions]
  text opening body closing hcomma hrange := by
    rw [Item.meaning_block, if_neg (by simp [hcomma]), hrange, Shape.expansions, Shape.expansions]
    rfl

/-- **Compiling a pattern and walking its tree hands out exactly what the tokens stand for, in
order**, with every way of reading but the strict one, with every way of writing, and whatever the
compiler and the buffer have been used for before. -/
theorem Compiler.walk_compile {c : Compiler} (hstrict : c.options.strict = false) {pattern : Bytes}
    (hlength : pattern.length ≤ maxPatternLength) (expand : ExpandOptions) {σ : Type}
    (emit : σ → Buffer → σ) (acc : σ) (buffer : Buffer) :
    ∃ s ts tree, Scanner.ofPattern c.options pattern = .ok s ∧ s.tokens = .ok ts ∧
      (c.compile pattern).1 = .ok tree ∧
      (tree.walk expand emit acc buffer).1
        = (meaning c.options expand ts.toList).foldl (fun acc x => emit acc x.toArray) acc := by
  rcases Compiler.compile_total hstrict hlength with ⟨tree, htree⟩
  rcases Compiler.compile_ok htree with ⟨s, ts, s', hs, hreads, -, htokens, -, hshape, hwalk⟩
  have hclosed : s.openQuote = none := by rw [ofPattern_eq hs]
  have hmeaning : (tree.forest.shape tree.root).expansions expand = meaning c.options expand ts := by
    rw [hshape, hreads.measure_eq (measures_meaning c.options expand) hclosed]
    rfl
  refine ⟨s, ts.toArray, tree, hs, htokens, htree, ?_⟩
  rw [hwalk, hmeaning]

/-- `{a,b{1..2}}'`: a range inside an alternative, and a quote that is never closed. -/
theorem Compiler.walk_compile_nested :
    let c := Compiler.new {}
    let pattern : Bytes := [0x7B, 0x61, 0x2C, 0x62, 0x7B, 0x31, 0x2E, 0x2E, 0x32, 0x7D, 0x7D, 0x27]
    c.options.strict = false ∧ pattern.length ≤ maxPatternLength ∧
      ∃ tree, (c.compile pattern).1 = .ok tree ∧
        (tree.walk {} (fun found b => found ++ [b.toList]) [] #[0x21]).1
          = [[0x61, 0x27], [0x62, 0x31, 0x27], [0x62, 0x32, 0x27]] := by
  intro c pattern
  have hstrict : c.options.strict = false := rfl
  have hlength : pattern.length ≤ maxPatternLength := by decide
  refine ⟨hstrict, hlength, ?_⟩
  rcases Compiler.walk_compile hstrict hlength {} (fun (found : List Bytes) b => found ++ [b.toList])
    [] #[0x21] with ⟨s, ts, tree, hs, hts, htree, hwalk⟩
  have htokens : s.tokens = .ok #[⟨.opening, 0, [0x7B]⟩, ⟨.literal, 1, [0x61]⟩,
      ⟨.delimiter, 2, [0x2C]⟩, ⟨.literal, 3, [0x62]⟩, ⟨.opening, 4, [0x7B]⟩, ⟨.literal, 5, [0x31]⟩,
      ⟨.range, 6, [0x2E, 0x2E]⟩, ⟨.literal, 8, [0x32]⟩, ⟨.closing, 9, [0x7D]⟩,
      ⟨.closing, 10, [0x7D]⟩, ⟨.quote, 11, [0x27]⟩] := by
    have hreads := Scanner.Reads.cons (s := s) (by rw [ofPattern_eq hs]; rfl) <|
      .cons rfl <| .cons rfl <| .cons rfl <| .cons rfl <| .cons rfl <| .cons rfl <| .cons rfl <|
      .cons rfl <| .cons rfl <| .cons rfl <| .nil _
    rw [hreads.tokens_eq fun t ht => by cases ht]
    rfl
  rw [htokens] at hts
  cases hts
  let range : List Item := [.token ⟨.literal, 5, [0x31]⟩, .token ⟨.range, 6, [0x2E, 0x2E]⟩,
    .token ⟨.literal, 8, [0x32]⟩]
  let block : List Item := [.token ⟨.literal, 1, [0x61]⟩, .token ⟨.delimiter, 2, [0x2C]⟩,
    .token ⟨.literal, 3, [0x62]⟩, .block ⟨.opening, 4, [0x7B]⟩ range ⟨.closing, 9, [0x7D]⟩]
  have hrange : Item.range? c.options range = some (.integer, ⟨1, 1, 1, 0⟩) := by decide +kernel
  have halternatives : Item.alternatives block = [[.token ⟨.literal, 1, [0x61]⟩],
      [.token ⟨.literal, 3, [0x62]⟩, .block ⟨.opening, 4, [0x7B]⟩ range ⟨.closing, 9, [0x7D]⟩]] := rfl
  have hinner : Item.meaning c.options {} (.block ⟨.opening, 4, [0x7B]⟩ range ⟨.closing, 9, [0x7D]⟩)
      = [[0x31], [0x32]] := by
    rw [Item.meaning_block, if_neg (by decide), hrange]
    decide +kernel
  have houter : Item.meaning c.options {} (.block ⟨.opening, 0, [0x7B]⟩ block ⟨.closing, 10, [0x7D]⟩)
      = [[0x61], [0x62, 0x31], [0x62, 0x32]] := by
    rw [Item.meaning_block, if_pos (by decide), halternatives]
    simp only [List.flatMap_cons, List.flatMap_nil, List.map_cons, List.map_nil, Item.meaning_token,
      hinner]
    rfl
  refine ⟨tree, htree, hwalk.trans ?_⟩
  show (Expansions.product (List.map (Item.meaning c.options {})
    [.block ⟨.opening, 0, [0x7B]⟩ block ⟨.closing, 10, [0x7D]⟩,
      .token ⟨.literal, 11, [0x27]⟩])).foldl _ [] = _
  simp only [List.map_cons, List.map_nil, houter, Item.meaning_token]
  rfl

end BraceExpansion
