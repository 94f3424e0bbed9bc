import BraceExpansion.Forest

/-!
# Trees

A tree is a forest with a root, in which every node below the root knows what follows it: where an
expansion goes on once the node itself is written.

* `Forest.link` — the links below a node, given what follows the node.
* `Forest.toTree` — the tree with a given root.
* `Forest.sameShape` — whether two nodes stand for the same structure.

In a sequence each child is followed by the next, and the last one by whatever follows the
sequence.  Every alternative is followed by what follows the alternation.  A node that is reached
on several ways keeps the link of the last.

Equality of trees compares structure only.  Links follow from structure and are not compared.
-/

namespace BraceExpansion

/-! ## Links -/

/-- What follows each child of a list that `next` follows. -/
def ListKind.followers (kind : ListKind) (children : List Nat) (next : Option Nat) :
    List (Option Nat) :=
  match kind with
  | concat => children.tail.map some ++ [next]
  | alternate => children.map fun _ => next

namespace Forest

/-- The links with those at and below a node set, where `next` follows the node. -/
def link (f : Forest) (id : Nat) (next : Option Nat) (links : Array (Option Nat)) :
    Array (Option Nat) :=
  match h : f.node id with
  | .list kind children =>
    (children.attach.zip (kind.followers children next)).foldl
      (fun links (child, follower) =>
        have : child.1 < id := f.child_lt (by rw [h]; exact child.2)
        f.link child.1 follower links)
      (links.setIfInBounds id next)
  | _ => links.setIfInBounds id next
termination_by id

end Forest

/-- A forest with a root and links. -/
structure Tree where
  forest : Forest
  /-- What follows each node. -/
  links : Array (Option Nat)
  root : Nat

namespace Tree

instance : Inhabited Tree := ⟨⟨default, #[], 0⟩⟩

/-- How many nodes the forest has, whether or not they are below the root. -/
def size (t : Tree) : Nat := t.forest.size

def node (t : Tree) (id : Nat) : Node := t.forest.node id

/-- What follows a node, and nothing at the end of the pattern. -/
def next (t : Tree) (id : Nat) : Option Nat := t.links.getD id none

end Tree

/-- The tree with this root. -/
def Forest.toTree (f : Forest) (root : Nat) : Tree :=
  ⟨f, f.link root none (Array.replicate f.size none), root⟩

/-! ## Equality -/

/-- Whether node `a` of `f` and node `b` of `g` have the same structure. -/
def Forest.sameShape (f g : Forest) (a b : Nat) : Bool :=
  match h : f.node a, g.node b with
  | .leaf kind value, .leaf kind' value' => kind = kind' && value = value'
  | .range kind p, .range kind' p' => kind = kind' && p = p'
  | .list kind children, .list kind' children' =>
    kind = kind' && children.length = children'.length &&
      (children.attach.zip children').all fun (child, child') =>
        have : child.1 < a := f.child_lt (by rw [h]; exact child.2)
        f.sameShape g child.1 child'
  | _, _ => false
termination_by a

/-- Two trees are equal when their roots have the same structure. -/
instance : BEq Tree := ⟨fun s t => s.forest.sameShape t.forest s.root t.root⟩

end BraceExpansion
