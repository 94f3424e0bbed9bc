import BraceExpansion.Kind
import BraceExpansion.Progression
import BraceExpansion.Text.Bytes

/-!
# Forests

Nodes, numbered from zero in the order in which they are made.  A list of nodes is made after its
members, so every child has a smaller number than its parent: this is the invariant `ordered`,
which `Forest` carries, and it is why every descent through a forest ends.  A node may be the child
of several lists, or several times of one.

* `Forest.leaf`, `Forest.range`, `Forest.list` — a new node and the forest that has it.
* `Forest.node` — the node with a number.
* `Forest.child_lt` — a child's number is below its parent's.

A node number is a natural number, and there is always one more.  As with the slots of a pool, this
idealises the numbers of an arena, which have 32 bits: they are the same up to 2 ^ 32 nodes.
-/

namespace BraceExpansion

/-- A piece of a pattern whose meaning is settled. -/
inductive Node
  | leaf (kind : LeafKind) (value : Bytes)
  | range (kind : RangeKind) (progression : Progression)
  | list (kind : ListKind) (children : List Nat)
  deriving DecidableEq

namespace Node

instance : Inhabited Node := ⟨.leaf .empty []⟩

def kind : Node → Kind
  | leaf k _ => k.kind
  | range k _ => k.kind
  | list k _ => k.kind

def children : Node → List Nat
  | list _ children => children
  | _ => []

end Node

/-- Nodes in the order in which they were made. -/
structure Forest where
  nodes : Array Node
  /-- Children are made before their parents. -/
  ordered : ∀ i (h : i < nodes.size), ∀ c ∈ nodes[i].children, c < i

namespace Forest

def empty : Forest := ⟨#[], fun _ h => absurd h (Nat.not_lt_zero _)⟩

instance : Inhabited Forest := ⟨empty⟩

/-- How many nodes there are. -/
def size (f : Forest) : Nat := f.nodes.size

/-- The node with this number; a leaf without text if there is none. -/
def node (f : Forest) (id : Nat) : Node := f.nodes.getD id default

/-- A child's number is below its parent's. -/
theorem child_lt (f : Forest) {id c : Nat} (h : c ∈ (f.node id).children) : c < id := by
  rw [node, Array.getD_eq_getD_getElem?] at h
  cases hid : f.nodes[id]? with
  | none => simp [hid, default, Node.children] at h
  | some n =>
    obtain ⟨hlt, rfl⟩ := Array.getElem?_eq_some_iff.1 hid
    exact f.ordered id hlt c (by simpa [hid] using h)

/-! ## Making nodes -/

/-- The forest with one node more, whose children it already has. -/
def push (f : Forest) (n : Node) (h : ∀ c ∈ n.children, c < f.nodes.size) : Forest where
  nodes := f.nodes.push n
  ordered := by
    intro i hi c hc
    rw [Array.getElem_push] at hc
    split at hc
    next hlt => exact f.ordered i hlt c hc
    next hge =>
      have hlt := h c hc
      have hsize : i < f.nodes.size + 1 := by simpa using hi
      omega

@[simp] theorem size_push (f : Forest) (n : Node) (h) : (f.push n h).size = f.size + 1 := by
  simp [size, push]

@[simp] theorem node_push_self (f : Forest) (n : Node) (h) : (f.push n h).node f.size = n := by
  simp [node, push, size]

/-- A new node changes none of the others. -/
theorem node_push_of_lt {f : Forest} {id : Nat} (hid : id < f.size) (n : Node) (h) :
    (f.push n h).node id = f.node id := by
  have hid : id < f.nodes.size := hid
  simp [node, push, hid, Nat.lt_succ_of_lt hid, Array.getElem_push_lt]

/-- A new leaf. -/
def leaf (f : Forest) (kind : LeafKind) (value : Bytes) : Nat × Forest :=
  (f.size, f.push (.leaf kind value) (by simp [Node.children]))

/-- A new range. -/
def range (f : Forest) (kind : RangeKind) (progression : Progression) : Nat × Forest :=
  (f.size, f.push (.range kind progression) (by simp [Node.children]))

/-- A new list of nodes that are in the forest; numbers that no node has yet are left out. -/
def list (f : Forest) (kind : ListKind) (children : List Nat) : Nat × Forest :=
  (f.size, f.push (.list kind (children.filter (· < f.nodes.size))) (by simp [Node.children]))

end Forest

end BraceExpansion
