import BraceExpansion.Forest

/-!
# Preorder

The nodes below a node, numbered from zero in the order in which a descent meets them: a parent
before its children, and the children from first to last.  A node that is met again keeps the
number it has.
-/

namespace BraceExpansion

/-- The nodes met so far. -/
structure Preorder where
  /-- The nodes in the order in which they were met. -/
  order : Array Nat
  /-- The position of each node in `order`. -/
  position : Array (Option Nat)

namespace Preorder

/-- No node of the forest met yet. -/
def start (f : Forest) : Preorder := ⟨#[], Array.replicate f.size none⟩

def position? (p : Preorder) (id : Nat) : Option Nat := p.position.getD id none

/-- The node met next. -/
def meet (p : Preorder) (id : Nat) : Preorder :=
  ⟨p.order.push id, p.position.setIfInBounds id (some p.order.size)⟩

end Preorder

namespace Forest

/-- What has been met after descending from a node too. -/
def preorderFrom (f : Forest) (id : Nat) (met : Preorder) : Preorder :=
  if (met.position? id).isSome then met
  else
    (f.node id).children.attach.foldl
      (fun met child =>
        have := f.child_lt child.2
        f.preorderFrom child.1 met)
      (met.meet id)
termination_by id

/-- The nodes at and below a node. -/
def preorder (f : Forest) (id : Nat) : Preorder := f.preorderFrom id (.start f)

end Forest

end BraceExpansion
