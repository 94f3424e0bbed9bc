import BraceExpansion.Forest
import BraceExpansion.Options
import BraceExpansion.Tree.Walk
import Mathlib.Tactic.Lemma

/-!
# Shapes and what they expand to

A node of a forest is a number, and what stands below it has to be looked up.  A `Shape` is the
same structure written out: a finished pattern as a plain tree, in which nothing is shared and
nothing is linked.

* `Shape.expansions` — the texts a shape stands for, in order.  This is the meaning of a tree: it
  knows no buffer, no links and no order of visits.
* `Expansions.cross`, `Expansions.product` — texts one behind the other, in every combination.  The
  leftmost factor varies slowest.
* `RangeKind.text` — a value of a range as it is written, for integers of any size.

`Shape.Proper` and `Shape.Branching` say that no list is empty where that would matter: a sequence
without members, and an alternation without alternatives.
-/

namespace BraceExpansion

/-- What a pattern expands to, in order. -/
abbrev Expansions := List Bytes

namespace Expansions

/-- Every text of `xs` followed by every text of `ys`.  The texts of `xs` vary slowest. -/
def cross (xs ys : Expansions) : Expansions := xs.flatMap fun x => ys.map (x ++ ·)

/-- One text from each factor in every combination.  The first factor varies slowest. -/
def product (factors : List Expansions) : Expansions := factors.foldr cross [[]]

@[simp] lemma product_nil : product [] = [[]] := rfl

@[simp] lemma product_cons (xs : Expansions) (factors : List Expansions) :
    product (xs :: factors) = cross xs (product factors) := rfl

@[simp] lemma cross_one (xs : Expansions) : cross xs [[]] = xs := by
  simp [cross]

@[simp] lemma one_cross (ys : Expansions) : cross [[]] ys = ys := by simp [cross]

lemma append_cross (xs xs' ys : Expansions) :
    cross (xs ++ xs') ys = cross xs ys ++ cross xs' ys := by
  simp [cross]

lemma singleton_cross (x : Bytes) (ys : Expansions) : cross [x] ys = ys.map (x ++ ·) := by
  simp [cross]

/-- Texts in a row are put together in either order. -/
lemma cross_assoc (xs ys zs : Expansions) : cross (cross xs ys) zs = cross xs (cross ys zs) := by
  induction xs with
  | nil => rfl
  | cons x xs ih =>
      have hx : cross (ys.map (x ++ ·)) zs = (cross ys zs).map (x ++ ·) := by
        simp [cross, List.flatMap_map, List.map_flatMap, Function.comp_def]
      calc cross (cross (x :: xs) ys) zs
          = cross (ys.map (x ++ ·)) zs ++ cross (cross xs ys) zs := by
            rw [← append_cross]; rfl
        _ = (cross ys zs).map (x ++ ·) ++ cross xs (cross ys zs) := by rw [hx, ih]
        _ = cross (x :: xs) (cross ys zs) := rfl

lemma flatMap_cross {α : Type} (l : List α) (f : α → Expansions) (ys : Expansions) :
    cross (l.flatMap f) ys = l.flatMap fun a => cross (f a) ys := by
  simp [cross, List.flatMap_assoc]

end Expansions

/-! ## The values of a range -/

/-- A value of a range as it is written. -/
def RangeKind.text (kind : RangeKind) (width : Nat) (value : Int) : Bytes :=
  match kind with
  | integer =>
    let magnitude := Decimal.digits value.natAbs
    if value < 0 then
      Ascii.minus :: (List.replicate (width - 1 - magnitude.length) Ascii.zero ++ magnitude)
    else
      List.replicate (width - magnitude.length) Ascii.zero ++ magnitude
  | char =>
    String.utf8EncodeChar
      (if 0 ≤ value ∧ value.toNat.isValidChar then Char.ofNat value.toNat else '\uFFFD')

/-- The buffer a walk writes holds what `RangeKind.text` says. -/
lemma RangeKind.write_eq (kind : RangeKind) (buffer : Buffer) (width : Nat) (value : Int64) :
    kind.write buffer width value = buffer ++ kind.text width value.toInt := by
  cases kind with
  | integer =>
      have hneg : (value < 0) ↔ (value.toInt < 0) := Int64.lt_iff_toInt_lt
      simp [write, text, Decimal.appendPadded, Decimal.padded, hneg]
  | char => simp [write, text, Progression.character]

/-- The values `start`, `start + step`, … as integers, without the bounds of a machine word. -/
def Progression.terms (p : Progression) : List Int :=
  (List.range p.length).map fun (i : Nat) => p.start.toInt + i * p.step.toInt

/-- A progression between two bounds, as the only way to make one leaves it. -/
def Progression.Bounded (p : Progression) : Prop :=
  ∃ start stop step width, Progression.between? start stop step width = some p

/-! ## Shapes -/

/-- A finished pattern as a plain tree. -/
inductive Shape
  | leaf (kind : LeafKind) (value : Bytes)
  | range (kind : RangeKind) (progression : Progression)
  | list (kind : ListKind) (children : List Shape)

namespace Shape

@[elab_as_elim, induction_eliminator]
theorem induction {motive : Shape → Prop}
    (leaf : ∀ kind value, motive (.leaf kind value))
    (range : ∀ kind p, motive (.range kind p))
    (list : ∀ kind children, (∀ c ∈ children, motive c) → motive (.list kind children)) :
    ∀ s, motive s
  | .leaf kind value => leaf kind value
  | .range kind p => range kind p
  | .list kind children => list kind children fun c _ => induction leaf range list c

/-- **What a shape stands for.**  A sequence stands for its members in every combination, and an
alternation for its alternatives one after the other. -/
def expansions (options : ExpandOptions) : Shape → Expansions
  | .leaf kind value => [options.shown kind value]
  | .range kind p => p.terms.map (kind.text p.width)
  | .list .alternate children => children.flatMap (expansions options)
  | .list .concat children => Expansions.product (children.map (expansions options))

/-- No sequence is empty, and every range lies between two bounds. -/
def Proper : Shape → Prop
  | .leaf _ _ => True
  | .range _ p => p.Bounded
  | .list kind children => (kind = .concat → children ≠ []) ∧ ∀ c ∈ children, Proper c

/-- No alternation is empty. -/
def Branching : Shape → Prop
  | .leaf _ _ => True
  | .range _ _ => True
  | .list kind children => (kind = .alternate → children ≠ []) ∧ ∀ c ∈ children, Branching c

end Shape

end BraceExpansion
