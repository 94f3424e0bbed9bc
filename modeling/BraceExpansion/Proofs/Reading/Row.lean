import BraceExpansion.Proofs.Draft.Piece
import Mathlib.Data.List.Chain
import Mathlib.Data.List.Induction

/-!
# Rows

A row is what stands side by side in a pattern, in order, before neighbouring pieces of text have
run together: a list of shapes in which text is a literal like any other.  `fuse` lets the text run
together.  It is the only place where that happens, so that everything else about rows is about
plain lists.

`fuse` lists the last shape first, as the work stack does, and `foldr_settle_fuse` connects the two:
to settle the pieces of a row is to put the row behind what is there.
-/

namespace BraceExpansion

namespace Shape

/-- Text that means itself. -/
abbrev text (t : Bytes) : Shape := .leaf .literal t

/-- More text behind shapes, of which the last comes first. -/
def appendText : List Shape → Bytes → List Shape
  | .leaf .literal before :: below, t => text (before ++ t) :: below
  | below, t => text t :: below

/-- One shape more behind shapes, of which the last comes first. -/
def put (below : List Shape) : Shape → List Shape
  | .leaf .literal t => appendText below t
  | s => s :: below

/-- Shapes as one list. -/
def gathered (kind : ListKind) (shapes : List Shape) : Shape :=
  .list kind (shapes.reverse.flatMap (splice kind))

/-- Shapes as one shape. -/
def joined : List Shape → Shape
  | [] => .leaf .empty []
  | [s] => s
  | shapes => gathered .concat shapes

def isLiteral : Shape → Bool
  | .leaf .literal _ => true
  | _ => false

/-- A list of this kind. -/
def isList (kind : ListKind) : Shape → Bool
  | .list k _ => k = kind
  | _ => false

end Shape

/-- The shapes of a row, the last one first. -/
def fuse (row : List Shape) : List Shape := row.foldl Shape.put []

namespace Shape

variable {below : List Shape}

@[simp] lemma put_text (below : List Shape) (t : Bytes) : put below (text t) = appendText below t :=
  rfl

@[simp] lemma appendText_text (before t : Bytes) (below : List Shape) :
    appendText (text before :: below) t = text (before ++ t) :: below := rfl

/-- A shape is text, or it is no literal. -/
lemma text_or (s : Shape) : (∃ t, s = text t) ∨ s.isLiteral = false := by
  match s with
  | .leaf .literal t => exact Or.inl ⟨t, rfl⟩
  | .leaf .empty _ => exact Or.inr rfl
  | .leaf .escape _ => exact Or.inr rfl
  | .leaf .quote _ => exact Or.inr rfl
  | .range _ _ => exact Or.inr rfl
  | .list _ _ => exact Or.inr rfl

/-- A list of the same kind gives its members, and everything else itself. -/
lemma splice_cases (kind : ListKind) (s : Shape) :
    (∃ children, s = .list kind children ∧ s.splice kind = children) ∨
      (s.isList kind = false ∧ s.splice kind = [s]) := by
  cases s with
  | leaf k t => exact Or.inr ⟨rfl, rfl⟩
  | range k p => exact Or.inr ⟨rfl, rfl⟩
  | list k children =>
      rw [splice]
      split
      next hkind => exact Or.inl ⟨children, by rw [hkind], rfl⟩
      next hkind => exact Or.inr ⟨decide_eq_false hkind, rfl⟩

lemma put_of_not_literal {s : Shape} (h : s.isLiteral = false) (below : List Shape) :
    put below s = s :: below := by
  match s, h with
  | .range _ _, _ => rfl
  | .list _ _, _ => rfl
  | .leaf .empty _, _ => rfl
  | .leaf .escape _, _ => rfl
  | .leaf .quote _, _ => rfl

lemma appendText_of_not_literal (h : ∀ s ∈ below.head?, s.isLiteral = false) (t : Bytes) :
    appendText below t = text t :: below := by
  match below with
  | [] => rfl
  | .range _ _ :: _ => rfl
  | .list _ _ :: _ => rfl
  | .leaf .empty _ :: _ => rfl
  | .leaf .escape _ :: _ => rfl
  | .leaf .quote _ :: _ => rfl
  | .leaf .literal _ :: _ => simp [isLiteral] at h

/-- There is a literal on top, or there is none. -/
lemma appendText_cases (below : List Shape) :
    (∃ before rest, below = text before :: rest) ∨
      ∀ t, appendText below t = text t :: below := by
  cases below with
  | nil => exact Or.inr fun _ => rfl
  | cons s rest =>
      rcases s.text_or with ⟨before, rfl⟩ | hs
      · exact Or.inl ⟨before, rest, rfl⟩
      · exact Or.inr (appendText_of_not_literal (by simpa using hs))

lemma appendText_appendText (below : List Shape) (t u : Bytes) :
    appendText (appendText below t) u = appendText below (t ++ u) := by
  rcases appendText_cases below with ⟨before, rest, rfl⟩ | hbelow
  · simp
  · rw [hbelow, hbelow, appendText_text]

/-- Fused shapes, put one by one behind others, are the row put behind them. -/
lemma foldr_put_fuse (row : List Shape) (below : List Shape) :
    (fuse row).foldr (fun s below => put below s) below = row.foldl put below := by
  induction row using List.reverseRecOn with
  | nil => rfl
  | append_singleton row s ih =>
      rw [fuse, List.foldl_append, List.foldl_append, ← ih]
      show (put (fuse row) s).foldr _ below = put _ s
      rcases s.text_or with ⟨t, rfl⟩ | hs
      · rcases appendText_cases (fuse row) with ⟨before, rest, hrow⟩ | hrow
        · rw [put_text, put_text, hrow, appendText_text, List.foldr_cons, List.foldr_cons, put_text,
            put_text, appendText_appendText]
        · rw [put_text, put_text, hrow, List.foldr_cons, put_text]
      · rw [put_of_not_literal hs, put_of_not_literal hs, List.foldr_cons, put_of_not_literal hs]

end Shape

/-! ## Rows and pieces -/

section

variable {below row : List Shape} {rest : List Piece}

@[simp] lemma fuse_nil : fuse [] = [] := rfl

lemma fuse_append (row more : List Shape) :
    fuse (row ++ more) = more.foldl Shape.put (fuse row) := by
  rw [fuse, fuse, List.foldl_append]

/-- What holds of the shapes of a row, and of text that has run together, holds of the fused row. -/
lemma forall_fuse {R : Shape → Prop}
    (happend : ∀ t u, R (.text t) → R (.text u) → R (.text (t ++ u))) (h : ∀ s ∈ row, R s) :
    ∀ s ∈ fuse row, R s := by
  have hput : ∀ {below : List Shape} {s : Shape}, (∀ u ∈ below, R u) → R s →
      ∀ u ∈ Shape.put below s, R u := by
    intro below s hbelow hs
    have hcons : ∀ u ∈ s :: below, R u := List.forall_mem_cons.mpr ⟨hs, hbelow⟩
    rcases s.text_or with ⟨t, rfl⟩ | hlit
    · rw [Shape.put_text]
      rcases Shape.appendText_cases below with ⟨before, rest, rfl⟩ | hfirm
      · rw [Shape.appendText_text]
        obtain ⟨hbefore, hrest⟩ := List.forall_mem_cons.mp hbelow
        exact List.forall_mem_cons.mpr ⟨happend before t hbefore hs, hrest⟩
      · rw [hfirm]
        exact hcons
    · rw [Shape.put_of_not_literal hlit]
      exact hcons
  induction row using List.reverseRecOn with
  | nil => simp
  | append_singleton row s ih =>
      rw [fuse_append]
      refine hput (ih fun u hu => h u (List.mem_append_left _ hu)) (h s ?_)
      exact List.mem_append_right _ List.mem_cons_self

/-- In a row that has run together no literals meet. -/
lemma isChain_fuse (row : List Shape) :
    (fuse row).IsChain fun s t => ¬ (s.isLiteral = true ∧ t.isLiteral = true) := by
  induction row using List.reverseRecOn with
  | nil => exact .nil
  | append_singleton row s ih =>
      rw [fuse_append, List.foldl_cons, List.foldl_nil]
      rcases s.text_or with ⟨t, rfl⟩ | hs
      · rw [Shape.put_text]
        cases hrow : fuse row with
        | nil => exact .singleton _
        | cons u below =>
            rw [hrow] at ih
            rcases u.text_or with ⟨before, rfl⟩ | hu
            · exact List.isChain_cons.mpr (List.isChain_cons.mp ih)
            · rw [Shape.appendText_of_not_literal (by simpa using hu)]
              refine List.isChain_cons.mpr ⟨?_, ih⟩
              rintro v ⟨⟩ ⟨-, hliteral⟩
              rw [hu] at hliteral
              cases hliteral
      · rw [Shape.put_of_not_literal hs]
        refine List.isChain_cons.mpr ⟨?_, ih⟩
        rintro v - ⟨hliteral, -⟩
        rw [hs] at hliteral
        cases hliteral

lemma map_appendText (below : List Shape) (t : Bytes) :
    (Shape.appendText below t).map Piece.shape = Piece.appendText (below.map .shape) t := by
  match below with
  | [] => rfl
  | .range _ _ :: _ => rfl
  | .list _ _ :: _ => rfl
  | .leaf kind _ :: _ => cases kind <;> rfl

lemma map_put (below : List Shape) (s : Shape) :
    (Shape.put below s).map Piece.shape = (Piece.shape s).settle (below.map .shape) := by
  match s with
  | .range _ _ => rfl
  | .list _ _ => rfl
  | .leaf .empty _ => rfl
  | .leaf .escape _ => rfl
  | .leaf .quote _ => rfl
  | .leaf .literal t => exact map_appendText below t

lemma gathered_map (kind : ListKind) (shapes : List Shape) :
    Piece.gathered kind (shapes.map .shape) = Shape.gathered kind shapes := by
  rw [Piece.gathered, Shape.gathered, ← List.map_reverse, List.flatMap_map]
  rfl

lemma joined_map (shapes : List Shape) :
    Piece.joined (shapes.map .shape) = .shape (Shape.joined shapes) := by
  match shapes with
  | [] => rfl
  | [s] => rfl
  | s :: t :: rest => exact congrArg Piece.shape (gathered_map .concat (s :: t :: rest))

lemma foldr_settle_map (upper below : List Shape) :
    (upper.map Piece.shape).foldr Piece.settle (below.map .shape)
      = (upper.foldr (fun s below => Shape.put below s) below).map .shape := by
  induction upper with
  | nil => rfl
  | cons s upper ih => rw [List.map_cons, List.foldr_cons, ih, List.foldr_cons, map_put]

/-- **Settling is fusing.** -/
theorem foldr_settle_fuse (row below : List Shape) :
    ((fuse row).map Piece.shape).foldr Piece.settle (below.map .shape)
      = (row.foldl Shape.put below).map .shape := by
  rw [foldr_settle_map, Shape.foldr_put_fuse]

/-! ## Where no text reaches -/

/-- Nothing comes first that text could run together with. -/
def Firm (rest : List Piece) : Prop := ∀ piece ∈ rest.head?, piece.isLiteral = false

@[simp] lemma firm_nil : Firm [] := by simp [Firm]

@[simp] lemma firm_mark (m : Mark) (t : Bytes) : Firm (.mark m t :: rest) := by
  rintro _ ⟨⟩
  rfl

@[simp] lemma firm_quote (t : Bytes) : Firm (.shape (.leaf .quote t) :: rest) := by
  rintro _ ⟨⟩
  rfl

lemma appendText_fuse (h : Firm rest) (row : List Shape) (t : Bytes) :
    Piece.appendText ((fuse row).map .shape ++ rest) t
      = (fuse (row ++ [.text t])).map .shape ++ rest := by
  rw [Piece.appendText_append fun _ => h, ← map_appendText, fuse_append]
  rfl

lemma cons_fuse {s : Shape} (h : s.isLiteral = false) (row : List Shape) :
    Piece.shape s :: ((fuse row).map .shape ++ rest) = (fuse (row ++ [s])).map .shape ++ rest := by
  rw [fuse_append, List.foldl_cons, Shape.put_of_not_literal h]
  rfl

lemma foldr_settle_firm (h : Firm rest) (upper : List Piece) (below : List Shape) :
    upper.foldr Piece.settle (below.map .shape ++ rest)
      = upper.foldr Piece.settle (below.map .shape) ++ rest :=
  Piece.foldr_settle_append (fun _ => h) upper

/-- A row that starts behind something firm does not reach it. -/
lemma fuse_firm {s : Shape} (h : s.isLiteral = false) (row more : List Shape) :
    fuse (row ++ s :: more) = fuse more ++ s :: fuse row := by
  induction more using List.reverseRecOn with
  | nil => rw [fuse_append, List.foldl_cons, Shape.put_of_not_literal h]; rfl
  | append_singleton more u ih =>
      rw [← List.cons_append, ← List.append_assoc, fuse_append, ih, fuse_append, List.foldl_cons,
        List.foldl_nil, List.foldl_cons, List.foldl_nil]
      rcases u.text_or with ⟨t, rfl⟩ | hu
      · cases hmore : fuse more with
        | nil => exact Shape.appendText_of_not_literal (by simpa using h) t
        | cons v vs =>
            rcases v.text_or with ⟨before, rfl⟩ | hv
            · rfl
            · have hfirm : ∀ rest : List Shape, ∀ s ∈ (v :: rest).head?, s.isLiteral = false := by
                simp [hv]
              rw [List.cons_append, Shape.put_text, Shape.put_text,
                Shape.appendText_of_not_literal (hfirm _), Shape.appendText_of_not_literal (hfirm _)]
              rfl
      · rw [Shape.put_of_not_literal hu, Shape.put_of_not_literal hu, List.cons_append]

end

end BraceExpansion
