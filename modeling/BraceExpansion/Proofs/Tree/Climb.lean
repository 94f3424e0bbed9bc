import BraceExpansion.Proofs.Tree.Links

/-!
# Climbing to what follows

`Forest.link` hands the continuation down: what follows a list is passed on to its members.  The
same can be asked from below, starting at a node: climb towards the root until there is a sequence
with a further member behind the one the climb comes from.

**Ways.**  `Forest.Way` is the way from a root down to a node, and its list of steps is the climb
back.  When nothing is shared, each node below the root has exactly one (`exists_way`,
`Way.unique`).

**The climb.**  `Forest.sibling?` is what one step finds, and an alternation never finds anything.
One step of the descent passes on what one step of the climb finds, or else what was passed to it
(`linked_sibling?`).  Hence **`Forest.next_eq_climb`**: every link is the first sibling that the
climb finds.
-/

namespace BraceExpansion

/-- In a sequence a member is followed by the one behind it, and without one by what follows the
sequence. -/
lemma ListKind.mem_linked_concat {children : List Nat} {c : Nat} (hc : c ∈ children)
    (next : Option Nat) :
    (c, children[children.idxOf c + 1]?.or next) ∈ concat.linked children next := by
  induction children with
  | nil => cases hc
  | cons d rest ih =>
      rw [linked_concat_cons]
      by_cases hcd : d = c
      · subst hcd
        rw [List.idxOf_cons_self, List.getElem?_cons_succ, ← List.head?_eq_getElem?]
        exact List.mem_cons_self
      · have hrest : c ∈ rest := (List.mem_cons.mp hc).resolve_left (Ne.symm hcd)
        rw [List.idxOf_cons_ne rest hcd, List.getElem?_cons_succ]
        exact List.mem_cons_of_mem _ (ih hrest)

namespace Forest

variable {f : Forest} {root id : Nat} {steps : List (Nat × Nat)}

/-! ## Ways -/

/-- The way from a root down to a node: each list on it with the child that the way takes, the last
of them first. -/
inductive Way (f : Forest) (root : Nat) : Nat → List (Nat × Nat) → Prop
  | here : Way f root root []
  | down {id c steps} (hway : Way f root id steps) (hchild : c ∈ (f.node id).children) :
      Way f root c ((id, c) :: steps)

lemma Way.le (h : f.Way root id steps) : id ≤ root := by
  induction h with
  | here => exact Nat.le_refl root
  | down _ hchild ih => exact Nat.le_trans (Nat.le_of_lt (f.child_lt hchild)) ih

/-- There is a way to everything below the root. -/
lemma exists_way (h : id ∈ f.below root) : ∃ steps, f.Way root id steps := by
  -- numbers grow on the way up, and none is above the root's
  induction hn : root - id using Nat.strongRecOn generalizing id with
  | ind n ih =>
      rcases exists_parent h with rfl | ⟨parent, hparent, hchild⟩
      · exact ⟨[], .here⟩
      · have hlt := f.child_lt hchild
        have hle := le_of_mem_below hparent
        obtain ⟨steps, hway⟩ := ih (root - parent) (by omega) hparent rfl
        exact ⟨(parent, id) :: steps, hway.down hchild⟩

/-- There is one way only, if no node is used twice as a child. -/
lemma Way.unique (hunshared : f.Unshared) (h : f.Way root id steps) :
    ∀ other, f.Way root id other → other = steps := by
  induction h with
  | here =>
      intro other hother
      cases hother with
      | here => rfl
      | down hway hchild =>
          have hlt := f.child_lt hchild
          have hle := hway.le
          omega
  | @down id c steps hway hchild ih =>
      intro other hother
      cases hother with
      | here =>
          have hlt := f.child_lt hchild
          have hle := hway.le
          omega
      | @down id' _ steps' hway' hchild' =>
          obtain rfl := hunshared.parent_unique hchild' hchild
          rw [ih steps' hway']

/-! ## The climb -/

/-- What a step of the climb finds: the member behind the one it comes from, if the list is a
sequence and there is one. -/
def sibling? (f : Forest) (step : Nat × Nat) : Option Nat :=
  match f.node step.1 with
  | .list .concat children => children[children.idxOf step.2 + 1]?
  | _ => none

/-- The descent into a child passes on what the climb from there finds first. -/
lemma linked_sibling? {kind : ListKind} {children : List Nat} {c : Nat}
    (hnode : f.node id = .list kind children) (hc : c ∈ children) (next : Option Nat) :
    (c, (f.sibling? (id, c)).or next) ∈ kind.linked children next := by
  cases kind with
  | concat =>
      rw [sibling?, hnode]
      exact ListKind.mem_linked_concat hc next
  | alternate =>
      rw [sibling?, hnode, ListKind.linked_alternate]
      exact List.mem_map.mpr ⟨c, hc, rfl⟩

/-- If the links below the root are the continuations, then every link on the way down is the first
sibling on the way back. -/
lemma Way.linked {links : Array (Option Nat)} (hroot : f.Linked links root none)
    (h : f.Way root id steps) : f.Linked links id (steps.findSome? f.sibling?) := by
  induction h with
  | here => exact hroot
  | @down id c steps hway hchild ih =>
      have hstep : ((id, c) :: steps).findSome? f.sibling?
          = (f.sibling? (id, c)).or (steps.findSome? f.sibling?) := by
        rw [List.findSome?_cons]
        cases f.sibling? (id, c) <;> rfl
      rw [hstep]
      cases ih with
      | leaf hnode => simp [hnode, Node.children] at hchild
      | range hnode => simp [hnode, Node.children] at hchild
      | list hnode _ hchildren =>
          have hc := hchild
          rw [hnode] at hc
          exact hchildren _ (linked_sibling? hnode hc _)

lemma Linked.link_eq {links : Array (Option Nat)} {next : Option Nat}
    (h : f.Linked links id next) : links.getD id none = next := by
  cases h with
  | leaf _ hlink => exact hlink
  | range _ hlink => exact hlink
  | list _ hlink => exact hlink

/-- **Every node is followed by the first sibling that the climb to the root finds**, and there is
only one climb. -/
theorem next_eq_climb (hroot : root < f.size) (hunshared : f.Unshared)
    (hid : id ∈ f.below root) :
    ∃ steps, f.Way root id steps ∧ (∀ other, f.Way root id other → other = steps) ∧
      (f.toTree root).next id = steps.findSome? f.sibling? := by
  obtain ⟨steps, hway⟩ := exists_way hid
  refine ⟨steps, hway, hway.unique hunshared, ?_⟩
  have hlinked : f.Linked (f.toTree root).links root none := by
    refine linked_link (hunshared.nodup_below root) ?_
    intro j hj
    rw [Array.size_replicate]
    exact Nat.lt_of_le_of_lt (le_of_mem_below hj) hroot
  exact (hway.linked hlinked).link_eq

/-- The digits of an alternation at the end of an alternative are followed by what stands behind the
outer alternation, two levels up. -/
theorem next_inside_nested_alternations :
    let f : Forest := ⟨#[.leaf .literal [0x78], .leaf .literal [0x31], .leaf .literal [0x32],
      .list .alternate [1, 2], .list .concat [0, 3], .leaf .literal [0x79],
      .list .alternate [4, 5], .leaf .literal [0x7a], .list .concat [6, 7]], by decide⟩
    8 < f.size ∧ f.Unshared ∧ 1 ∈ f.below 8 ∧
      f.Way 8 1 [(3, 1), (4, 3), (6, 4), (8, 6)] ∧ (f.toTree 8).next 1 = some 7 := by
  intro f
  have hroot : 8 < f.size := by decide
  have hunshared : f.Unshared := by simp only [Unshared]; decide
  have hsix : 6 ∈ (f.node 8).children := by decide
  have hfour : 4 ∈ (f.node 6).children := by decide
  have hthree : 3 ∈ (f.node 4).children := by decide
  have hone : 1 ∈ (f.node 3).children := by decide
  have hway : f.Way 8 1 [(3, 1), (4, 3), (6, 4), (8, 6)] :=
    (((Way.here.down hsix).down hfour).down hthree).down hone
  have hbelow : 1 ∈ f.below 8 :=
    below_trans (below_trans (below_trans (child_mem_below hone) (child_mem_below hthree))
      (child_mem_below hfour)) (child_mem_below hsix)
  obtain ⟨steps, -, honly, hnext⟩ := next_eq_climb hroot hunshared hbelow
  rw [← honly _ hway] at hnext
  exact ⟨hroot, hunshared, hbelow, hway, hnext⟩

end Forest

end BraceExpansion
