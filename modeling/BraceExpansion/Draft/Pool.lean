import BraceExpansion.Draft
import BraceExpansion.Forest

/-!
# Pools

A pool holds drafts in numbered slots and knows which slots are free, so that a slot that is done
with can be used again — by the same pattern or by the next one.

* `Pool.insert` — a draft into a free slot, or into a new one if none is free.
* `Pool.release` — a slot is free again.  Its members, if it holds a list, are not.
* `Pool.releaseAll` — all slots are free again.
* `Pool.plant` — the draft in a slot, with all its members, as nodes of a forest.

A slot number is a natural number, and there is always one more.  This idealises an arena whose
numbers have 32 bits: both give the same numbers as long as a pool has at most 2 ^ 32 slots.
-/

namespace BraceExpansion

/-- Drafts in slots, some of which are free. -/
structure Pool where
  slots : Array Draft
  /-- The free slots, the next one to be used first. -/
  free : List Nat

namespace Pool

def empty : Pool := ⟨#[], []⟩

instance : Inhabited Pool := ⟨empty⟩

/-- The draft in a slot. -/
def get (p : Pool) (id : Nat) : Draft := p.slots.getD id default

/-- The pool with another draft in a slot. -/
def set (p : Pool) (id : Nat) (d : Draft) : Pool :=
  { p with slots := p.slots.setIfInBounds id d }

theorem get_set_self {p : Pool} {id : Nat} (h : id < p.slots.size) (d : Draft) :
    (p.set id d).get id = d := by
  simp [get, set, h]

theorem get_set_of_ne {p : Pool} {id other : Nat} (h : id ≠ other) (d : Draft) :
    (p.set id d).get other = p.get other := by
  simp [get, set, Array.getD_eq_getD_getElem?, Array.getElem?_setIfInBounds_ne h]

/-- The pool with the draft in a slot changed. -/
def modify (p : Pool) (id : Nat) (f : Draft → Draft) : Pool :=
  { p with slots := p.slots.modify id f }

/-! ## Slots in use and free slots -/

/-- A slot with this draft in it. -/
def insert : Pool → Draft → Nat × Pool
  | ⟨slots, id :: free⟩, d => (id, ⟨slots.setIfInBounds id d, free⟩)
  | ⟨slots, []⟩, d => (slots.size, ⟨slots.push d, []⟩)

def release (p : Pool) (id : Nat) : Pool := { p with free := id :: p.free }

def releaseAll (p : Pool) : Pool := { p with free := List.range p.slots.size }

/-! ## From drafts to nodes -/

/-- The draft in a slot as a node, its members first, down to `depth` levels.  Punctuation that is
left over is literal text. -/
def plantWithin (p : Pool) (depth : Nat) (f : Forest) (id : Nat) : Nat × Forest :=
  match depth, p.get id with
  | _, .leaf kind text => f.leaf kind text.toList
  | _, .mark _ text => f.leaf .literal text.toList
  | _, .range kind progression => f.range kind progression
  | 0, .list _ _ => f.leaf .empty []
  | depth + 1, .list kind members =>
    let (planted, f) := members.foldl
      (fun (planted, f) member =>
        let (node, f) := p.plantWithin depth f member
        (planted.push node, f))
      ((#[] : Array Nat), f)
    f.list kind planted.toList

/-- The draft in a slot as a node.  No chain of members is longer than there are slots. -/
def plant (p : Pool) (f : Forest) (id : Nat) : Nat × Forest := p.plantWithin p.slots.size f id

end Pool

end BraceExpansion
