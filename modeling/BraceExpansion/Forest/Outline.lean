import BraceExpansion.Forest
import BraceExpansion.Text.Decimal
import BraceExpansion.Text.Quoted
import BraceExpansion.Text.Utf8

/-!
# Outlines

The structure below a node as text: one line for each node, a parent before its children, each
level two blanks further in.

* `Node.label` — what a line says about a node: its kind, and the text or the bounds it stands for.
* `Forest.outline` — the lines below a node, with their depths.
* `Forest.dump` — the lines as one text.

A progression is shown by its bounds as they would be written, and by its step where that is
larger than one.  Bytes that are not UTF-8 are shown as U+FFFD.
-/

namespace BraceExpansion

/-! ## One line -/

/-- The step, where the bounds alone do not show it. -/
def Progression.stepLabel (p : Progression) : String :=
  if 1 < p.step.toInt.natAbs then ".." ++ toString p.step.toInt else ""

/-- A value as a range of this kind shows it. -/
def RangeKind.boundLabel (kind : RangeKind) (width : Nat) (value : Int64) : String :=
  match kind with
  | integer => Utf8.lossy (Decimal.padded value width)
  | char => Quoted.character (Progression.character value)

/-- What a line says about a node. -/
def Node.label (n : Node) : String :=
  n.kind.name ++
  match n with
  | .leaf .empty _ => ""
  | .leaf _ value => " " ++ Quoted.text (Utf8.lossy value)
  | .range kind p =>
    " " ++ kind.boundLabel p.width p.start ++ ".." ++ kind.boundLabel p.width p.last ++ p.stepLabel
  | .list _ _ => ""

/-! ## All lines -/

namespace Forest

/-- The lines at and below a node, each with its depth, after the lines that stand above it. -/
def outlineFrom (f : Forest) (id : Nat) (depth : Nat) (above : Array (Nat × String)) :
    Array (Nat × String) :=
  (f.node id).children.attach.foldl
    (fun lines child =>
      have := f.child_lt child.2
      f.outlineFrom child.1 (depth + 1) lines)
    (above.push (depth, (f.node id).label))
termination_by id

/-- The lines at and below a node. -/
def outline (f : Forest) (id : Nat) : Array (Nat × String) := f.outlineFrom id 0 #[]

/-- The structure at and below a node as text. -/
def dump (f : Forest) (id : Nat) : String :=
  (f.outline id).foldl
    (fun text (depth, label) => (text.pushn ' ' (2 * depth) ++ "- " ++ label).push '\n') ""

end Forest

end BraceExpansion
