import BraceExpansion.Proofs.Nesting.Ending

/-!
# Measures of items

A measure of shapes gives a measure of items, which goes by the structure of the pattern alone:
`Measures` says what it has to do with a token and with the three kinds of closed blocks.  Then
**`Scanner.Reads.measure_eq`** takes it from the items of a pattern to the shape the compiler makes
of them.
-/

namespace BraceExpansion

namespace Item

@[elab_as_elim, induction_eliminator]
theorem induction {motive : Item → Prop} (token : ∀ t, motive (.token t))
    (block : ∀ opening body closing, (∀ i ∈ body, motive i) →
      motive (.block opening body closing)) : ∀ i, motive i
  | .token t => token t
  | .block opening body closing =>
    block opening body closing fun i _ => induction token block i

end Item

variable {options : CompileOptions} {M : Type} {op : M → M → M} {one : M} {alt : List M → M}
  {f : Shape → M} {g : Item → M}

/-- A measure `f` of shapes and a measure `g` of items that agree on what the structure of a pattern
says: `op` is for what stands in a row, and `alt` for alternatives. -/
structure Measures (options : CompileOptions) (op : M → M → M) (one : M) (alt : List M → M)
    (f : Shape → M) (g : Item → M) : Prop where
  sequential : Sequential op one f
  gathered : ∀ row : List Shape, f (Shape.gathered .alternate row.reverse) = alt (row.map f)
  token : ∀ t, g (.token t) = f t.shape
  choice : ∀ opening body closing, body.any Item.isComma = true →
    g (.block opening body closing)
      = alt ((Item.alternatives body).map fun piece => (piece.map g).foldr op one)
  range : ∀ opening body closing kind p, body.any Item.isComma = false →
    Item.range? options body = some (kind, p) → g (.block opening body closing) = f (.range kind p)
  text : ∀ opening body closing, body.any Item.isComma = false →
    Item.range? options body = none → g (.block opening body closing)
      = op (f (.text opening.text)) (op ((body.map g).foldr op one) (f (.text closing.text)))

namespace Measures

lemma total_flatMap (h : Measures options op one alt f g) {items : List Item}
    (hall : ∀ i ∈ items, total op one f (i.row options) = g i) :
    total op one f (items.flatMap (Item.row options)) = (items.map g).foldr op one := by
  induction items with
  | nil => rfl
  | cons i items ih =>
      rw [List.flatMap_cons, h.sequential.total_append, hall i List.mem_cons_self,
        ih fun j hj => hall j (List.mem_cons_of_mem _ hj)]
      rfl

lemma total_row (h : Measures options op one alt f g) (i : Item) :
    total op one f (i.row options) = g i := by
  have hsingle := h.sequential.total_singleton
  induction i with
  | token t => rw [Item.row_token, hsingle, h.token]
  | block opening body closing ih =>
      rw [Item.row_block]
      split
      next hcomma =>
        have hpieces : ∀ piece ∈ Item.alternatives body,
            f (Shape.joined (fuse (piece.flatMap (Item.row options))))
              = (piece.map g).foldr op one := by
          intro piece hpiece
          rw [h.sequential.joined_fuse]
          refine h.total_flatMap ?_
          intro i hi
          exact ih i (Item.mem_of_mem_alternatives hpiece hi)
        rw [hsingle, h.gathered, h.choice opening body closing hcomma, List.map_map]
        congr 1
        exact List.map_congr_left hpieces
      next hcomma =>
        have hcomma : body.any Item.isComma = false := by simpa using hcomma
        split
        next kind p hrange => rw [hsingle, h.range opening body closing kind p hcomma hrange]
        next hrange =>
          rw [h.text opening body closing hcomma hrange, total_cons, h.sequential.total_append,
            hsingle, h.total_flatMap ih]

end Measures

/-- **What the compiler makes of a pattern is measured by the items of the pattern.** -/
theorem Scanner.Reads.measure_eq {s s' : Scanner} {ts : List Token}
    (hm : Measures options op one alt f g) (h : s.Reads ts s') (hclosed : s.openQuote = none) :
    f (Shape.joined (fuse (ts.foldl (Reading.step options) {}).row))
      = ((nest (Token.settleQuotes false ts)).items.map g).foldr op one := by
  rw [hm.sequential.joined_fuse, h.total_row hm.sequential hclosed]
  exact hm.total_flatMap fun i _ => hm.total_row i

end BraceExpansion
