import BraceExpansion.Proofs.Reading.Row

/-!
# Measures of rows

What a pattern expands to and what text it holds are computed from left to right, and neither
notices how a row was made into a shape.  `Sequential op one f` says of a measure `f` of shapes what
is needed for that: text may run together, and a sequence counts as its members.

**`Sequential.joined_fuse`** then measures the shape of a row by its members.
-/

namespace BraceExpansion

variable {M : Type} {op : M → M → M} {one : M} {f : Shape → M}

/-- A measure of a row, from left to right. -/
def total (op : M → M → M) (one : M) (f : Shape → M) (row : List Shape) : M :=
  row.foldr (fun s rest => op (f s) rest) one

@[simp] lemma total_nil : total op one f [] = one := rfl

@[simp] lemma total_cons (s : Shape) (row : List Shape) :
    total op one f (s :: row) = op (f s) (total op one f row) := rfl

/-- A measure that does not tell sequences apart. -/
structure Sequential (op : M → M → M) (one : M) (f : Shape → M) : Prop where
  assoc : ∀ x y z, op (op x y) z = op x (op y z)
  one_op : ∀ x, op one x = x
  op_one : ∀ x, op x one = x
  text : ∀ t u, f (.text (t ++ u)) = op (f (.text t)) (f (.text u))
  empty : f (.leaf .empty []) = one
  concat : ∀ children, f (.list .concat children) = total op one f children

namespace Sequential

lemma total_append (h : Sequential op one f) (row more : List Shape) :
    total op one f (row ++ more) = op (total op one f row) (total op one f more) := by
  induction row with
  | nil => exact (h.one_op _).symm
  | cons s row ih =>
      rw [List.cons_append, total_cons, ih, ← h.assoc, total_cons]

lemma total_singleton (h : Sequential op one f) (s : Shape) : total op one f [s] = f s :=
  h.op_one (f s)

/-- Text runs together unnoticed. -/
lemma total_fuse (h : Sequential op one f) (row : List Shape) :
    total op one f (fuse row).reverse = total op one f row := by
  induction row using List.reverseRecOn with
  | nil => rfl
  | append_singleton row s ih =>
      have hput : total op one f (Shape.put (fuse row) s).reverse
          = op (total op one f (fuse row).reverse) (f s) := by
        cases hs : s.isLiteral with
        | false =>
            rw [Shape.put_of_not_literal hs, List.reverse_cons, h.total_append, h.total_singleton]
        | true =>
            match s, hs with
            | .leaf .literal t, _ =>
              rw [Shape.put_text]
              rcases Shape.appendText_cases (fuse row) with ⟨before, rest, hrow⟩ | hrow
              · rw [hrow, Shape.appendText_text, List.reverse_cons, List.reverse_cons,
                  h.total_append, h.total_append, h.total_singleton, h.total_singleton, h.text,
                  h.assoc]
              · rw [hrow, List.reverse_cons, h.total_append, h.total_singleton]
      rw [fuse_append, List.foldl_cons, List.foldl_nil, hput, ih, h.total_append,
        h.total_singleton]

/-- A sequence that is taken up into another counts the same. -/
lemma total_splice (h : Sequential op one f) (row : List Shape) :
    total op one f (row.flatMap (Shape.splice .concat)) = total op one f row := by
  induction row with
  | nil => rfl
  | cons s row ih =>
      rw [List.flatMap_cons, h.total_append, ih, total_cons]
      congr 1
      match s with
      | .leaf kind t => exact h.total_singleton _
      | .range kind p => exact h.total_singleton _
      | .list .alternate children => exact h.total_singleton _
      | .list .concat children => exact (h.concat children).symm

/-- **The shape of a row is measured by the row.** -/
theorem joined_fuse (h : Sequential op one f) (row : List Shape) :
    f (Shape.joined (fuse row)) = total op one f row := by
  rw [← h.total_fuse row]
  match fuse row with
  | [] => exact h.empty
  | [s] => exact (h.total_singleton s).symm
  | s :: t :: rest =>
    show f (.list .concat ((s :: t :: rest).reverse.flatMap (Shape.splice .concat))) = _
    rw [h.concat, h.total_splice]

end Sequential

end BraceExpansion
