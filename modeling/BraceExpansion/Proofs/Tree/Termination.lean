import BraceExpansion.Proofs.Progression.Exact
import BraceExpansion.Proofs.Tree.Denotation
import BraceExpansion.Proofs.Tree.Order

/-!
# Every walk ends

A walk follows links, and links go sideways and upwards; where nodes are shared they have been
overwritten.  Neither numbers nor depth fall along a walk.  What falls is the number of nodes that are
left in `Forest.order`, the order in which the links were set for the last time.

**No cycles.**  `Tree.Leads` is the relation that a walk follows, and `Forest.distance` falls along it
(`Forest.distance_lt`).

**Runs.**  `Tree.Walks` says what a walk hands out and what it leaves in the buffer, without a bound on
its depth.  Branches are taken one after the other from the place where the first of them began.
Values of ranges are found by addition, and nodes are looked up, so there is no run where either
fails.

**`Tree.walk_terminates`** is about the tree of any forest with any root.
-/

namespace BraceExpansion

variable {σ : Type} {f : Forest} {root id m : Nat}

/-! ## No cycles -/

/-- Where a walk goes on from a node: from a sequence to its first member, from an alternation to each
of its alternatives, and from any other node along its link. -/
def Tree.Leads (t : Tree) (id m : Nat) : Prop :=
  match t.node id with
  | .list .concat children => children.head? = some m
  | .list .alternate children => m ∈ children
  | _ => t.next id = some m

namespace Forest

/-- How long a walk from a node can be.  Nodes that are not below the root have no links, so a walk
from one of them goes down until it comes to a node that is. -/
def distance (f : Forest) (root id : Nat) : Nat :=
  if id ∈ f.below root then f.remaining root id else f.size + 1 + id

/-- A walk goes on to children, or along the link. -/
lemma child_or_link_of_leads (h : (f.toTree root).Leads id m) :
    m ∈ (f.node id).children ∨ (f.toTree root).next id = some m := by
  have hnode : (f.toTree root).node id = f.node id := rfl
  rw [Tree.Leads, hnode] at h
  split at h
  next hlist => exact Or.inl (by rw [hlist]; exact List.mem_of_mem_head? h)
  next hlist => exact Or.inl (by rw [hlist]; exact h)
  next => exact Or.inr h

/-- A walk below the root stays below the root, and comes closer to the end of the order. -/
lemma later_of_leads (hroot : root < f.size) (hid : id ∈ f.below root)
    (h : (f.toTree root).Leads id m) :
    m ∈ f.below root ∧ f.remaining root m < f.remaining root id := by
  rcases child_or_link_of_leads h with hc | hm
  · exact child_later hroot hid hc
  · exact link_later hroot hid hm

lemma next_of_notMem (h : id ∉ f.below root) : (f.toTree root).next id = none := by
  rw [Tree.next, toTree, getD_link_of_notMem h]
  simp [Array.getD_eq_getD_getElem?, Array.getElem?_replicate]
  split <;> rfl

/-- **A walk never comes back.** -/
theorem distance_lt (hroot : root < f.size) (h : (f.toTree root).Leads id m) :
    f.distance root m < f.distance root id := by
  by_cases hid : id ∈ f.below root
  · obtain ⟨hm, hlt⟩ := later_of_leads hroot hid h
    rwa [distance, distance, if_pos hid, if_pos hm]
  · rcases child_or_link_of_leads h with hc | hm
    · have hlt := f.child_lt hc
      have hle := remaining_le hroot m
      rw [distance, distance, if_neg hid]
      split
      · omega
      · omega
    · rw [next_of_notMem hid] at hm
      cases hm

lemma not_cyclic (hroot : root < f.size) (id : Nat) :
    ¬ Relation.TransGen (f.toTree root).Leads id id := by
  have hfalls : ∀ {m}, Relation.TransGen (f.toTree root).Leads id m →
      f.distance root m < f.distance root id := by
    intro m h
    induction h with
    | single h => exact distance_lt hroot h
    | tail _ h ih => exact Nat.lt_trans (distance_lt hroot h) ih
  exact fun h => Nat.lt_irrefl _ (hfalls h)

end Forest

/-! ## Runs -/

namespace Tree

variable {t : Tree} {options : ExpandOptions} {emit : σ → Buffer → σ} {depth : Nat}

/-- The branches of a walk at a node: what is written, and where it goes on behind that.  There are
none to be had if there is no such node, or if a value of a range is not a word. -/
def branches? (t : Tree) (options : ExpandOptions) (id : Nat) :
    Option (List (Bytes × Option Nat)) :=
  if t.size ≤ id then none
  else
    match t.node id with
    | .leaf kind value => some [(options.shown kind value, t.next id)]
    | .range kind p =>
      p.added?.map fun values => values.map fun v => (kind.text p.width v.toInt, t.next id)
    | .list .concat children => some [([], children.head?)]
    | .list .alternate children => some (children.map fun c => ([], some c))

mutual

/-- A walk from a node on, or from the end of the pattern: the buffers that it hands out, and the
buffer that it leaves. -/
inductive Walks (t : Tree) (options : ExpandOptions) :
    Option Nat → Buffer → List Buffer → Buffer → Prop
  | done (buffer : Buffer) : Walks t options none buffer [buffer] buffer
  | node {id branches buffer found last} (hbranches : t.branches? options id = some branches)
      (hall : WalksAll t options buffer.size branches buffer found last) :
      Walks t options (some id) buffer found last

/-- Branches taken one after the other, each with the buffer cut back to where the first began. -/
inductive WalksAll (t : Tree) (options : ExpandOptions) :
    Nat → List (Bytes × Option Nat) → Buffer → List Buffer → Buffer → Prop
  | nil (length : Nat) (buffer : Buffer) : WalksAll t options length [] buffer [] buffer
  | cons {length next branches buffer found between more last} {text : Bytes}
      (hfirst : Walks t options next (buffer.shrink length ++ text) found between)
      (hrest : WalksAll t options length branches between more last) :
      WalksAll t options length ((text, next) :: branches) buffer (found ++ more) last

end

/-- What a visit of a node does with its branches. -/
lemma visit_branches {branches : List (Bytes × Option Nat)}
    (hbounded : ∀ kind p, t.node id = .range kind p → p.Bounded)
    (h : t.branches? options id = some branches) (s : σ × Buffer) :
    t.visit options emit (depth + 1) (some id) s
      = branches.foldl (fun r (b : Bytes × Option Nat) => t.visit options emit depth b.2
          (r.1, r.2.shrink s.2.size ++ b.1)) s := by
  rw [branches?] at h
  split at h
  · cases h
  · split at h
    next kind value hnode =>
      cases h
      simp [visit_leaf hnode]
    next kind p hnode =>
      have hp := hbounded kind p hnode
      rw [hp.added?_eq, Option.map_some, Option.some.injEq, Progression.values,
        Progression.firstValues, Nat.min_self, List.map_map] at h
      rw [← h, visit_range hnode, List.foldl_map]
      simp only [RangeKind.write_eq]
      rfl
    next children hnode =>
      cases h
      simp [visit_concat hnode]
    next children hnode =>
      cases h
      simp [visit_alternate hnode, List.foldl_map]

/-- A visit of `next` that may go over `need` nodes in a row hands out what a run from there does. -/
def Follows (t : Tree) (options : ExpandOptions) (need : Nat) (next : Option Nat) : Prop :=
  ∀ buffer, ∃ found last, t.Walks options next buffer found last ∧
    ∀ {σ : Type} (emit : σ → Buffer → σ) (acc : σ), ∀ depth ≥ need,
      t.visit options emit depth next (acc, buffer) = (found.foldl emit acc, last)

lemma follows_none (t : Tree) (options : ExpandOptions) (need : Nat) :
    t.Follows options need none := by
  intro buffer
  refine ⟨[buffer], buffer, .done buffer, ?_⟩
  intro σ emit acc depth _
  rw [visit]
  rfl

/-- Branches that are runs make a run. -/
lemma exists_walksAll {need : Nat} {branches : List (Bytes × Option Nat)}
    (h : ∀ b ∈ branches, t.Follows options need b.2) (length : Nat) (buffer : Buffer) :
    ∃ found last, t.WalksAll options length branches buffer found last ∧
      ∀ {σ : Type} (emit : σ → Buffer → σ) (acc : σ), ∀ depth ≥ need,
        branches.foldl (fun r (b : Bytes × Option Nat) => t.visit options emit depth b.2
          (r.1, r.2.shrink length ++ b.1)) (acc, buffer) = (found.foldl emit acc, last) := by
  induction branches generalizing buffer with
  | nil => exact ⟨[], buffer, .nil length buffer, fun _ _ _ _ => rfl⟩
  | cons b branches ih =>
      obtain ⟨hb, hbranches⟩ := List.forall_mem_cons.mp h
      obtain ⟨found, between, hwalks, hvisit⟩ := hb (buffer.shrink length ++ b.1)
      obtain ⟨more, last, hrest, hfold⟩ := ih hbranches between
      refine ⟨found ++ more, last, .cons hwalks hrest, ?_⟩
      intro σ emit acc depth hdepth
      rw [List.foldl_cons, hvisit emit acc depth hdepth, hfold emit _ depth hdepth, List.foldl_append]

/-- A node is a run if all its branches are. -/
lemma follows_node {need : Nat} {branches : List (Bytes × Option Nat)}
    (hbounded : ∀ kind p, t.node id = .range kind p → p.Bounded)
    (hbranches : t.branches? options id = some branches)
    (h : ∀ b ∈ branches, t.Follows options need b.2) : t.Follows options (need + 1) (some id) := by
  intro buffer
  obtain ⟨found, last, hall, hfold⟩ := exists_walksAll h buffer.size buffer
  refine ⟨found, last, .node hbranches hall, ?_⟩
  intro σ emit acc depth hdepth
  obtain ⟨depth, rfl⟩ : ∃ d, depth = d + 1 := ⟨depth - 1, by omega⟩
  rw [visit_branches hbounded hbranches]
  exact hfold emit acc depth (by omega)

/-- Every branch leads somewhere, or to the end of the pattern. -/
lemma leads_of_branches {branches : List (Bytes × Option Nat)}
    (h : t.branches? options id = some branches) {b : Bytes × Option Nat} (hb : b ∈ branches)
    (hm : b.2 = some m) : t.Leads id m := by
  rw [branches?] at h
  rw [Leads]
  split at h
  · cases h
  · split at h
    next kind value hnode =>
      cases h
      rw [List.mem_singleton.mp hb] at hm
      rw [hnode]
      exact hm
    next kind p hnode =>
      obtain ⟨values, -, rfl⟩ := Option.map_eq_some_iff.mp h
      obtain ⟨v, -, rfl⟩ := List.mem_map.mp hb
      rw [hnode]
      exact hm
    next children hnode =>
      cases h
      rw [List.mem_singleton.mp hb] at hm
      rw [hnode]
      exact hm
    next children hnode =>
      cases h
      obtain ⟨c, hc, rfl⟩ := List.mem_map.mp hb
      cases hm
      rw [hnode]
      exact hc

/-- A node that is there has branches, if the values of ranges are words. -/
lemma exists_branches (hid : id < t.size)
    (hbounded : ∀ kind p, t.node id = .range kind p → p.Bounded) :
    ∃ branches, t.branches? options id = some branches := by
  rw [branches?, if_neg (Nat.not_le.mpr hid)]
  split
  next kind value hnode => exact ⟨_, rfl⟩
  next kind p hnode => exact ⟨_, by rw [(hbounded kind p hnode).added?_eq]; rfl⟩
  next children hnode => exact ⟨_, rfl⟩
  next children hnode => exact ⟨_, rfl⟩

/-- **From any node on there is a run**, which is not longer than what is left of the order. -/
lemma follows_of_remaining (hroot : root < f.size)
    (hbounded : ∀ id ∈ f.below root, ∀ kind p, f.node id = .range kind p → p.Bounded) {need : Nat}
    (hid : id ∈ f.below root) (hneed : f.remaining root id ≤ need) :
    (f.toTree root).Follows options need (some id) := by
  induction need generalizing id with
  | zero =>
      have hpos := Forest.remaining_pos hid
      omega
  | succ need ih =>
      have hlt : id < f.size := by
        have hle := Forest.le_of_mem_below hid
        omega
      have hranges : ∀ kind p, (f.toTree root).node id = .range kind p → p.Bounded := hbounded id hid
      obtain ⟨branches, hbranches⟩ : ∃ branches, (f.toTree root).branches? options id = some branches :=
        exists_branches hlt hranges
      refine follows_node hranges hbranches fun b hb => ?_
      cases hnext : b.2 with
      | none => exact follows_none _ _ _
      | some m =>
          obtain ⟨hm, hless⟩ := Forest.later_of_leads hroot hid (leads_of_branches hbranches hb hnext)
          exact ih hm (by omega)

/-- **Every walk ends**, also where nodes are shared and where lists are empty.  Whatever forest there is
and whichever of its nodes is the root, links are set once for each way to a node, and so they are set
in finitely many steps; the relation that a walk follows has no cycle; and if all ranges lie between
two bounds, there is a run, which hands out finitely many buffers.  The walk hands out just these, and
would not do otherwise if it were allowed to go deeper. -/
theorem walk_terminates {f : Forest} {root : Nat} (hroot : root < f.size) :
    let t := f.toTree root
    ((f.settings root none).map Prod.fst = f.below root ∧
      t.links = (f.settings root none).foldl (fun links e => links.setIfInBounds e.1 e.2)
        (Array.replicate f.size none)) ∧
    (∀ id, ¬ Relation.TransGen t.Leads id id) ∧
    ((∀ id ∈ f.below root, ∀ kind p, f.node id = .range kind p → p.Bounded) →
      ∀ (options : ExpandOptions) (buffer : Buffer), ∃ found last,
        t.Walks options (some root) #[] found last ∧
        ∀ {σ : Type} (emit : σ → Buffer → σ) (acc : σ),
          t.walk options emit acc buffer = (found.foldl emit acc, last) ∧
          ∀ depth ≥ t.size,
            t.visit options emit depth (some root) (acc, #[]) = (found.foldl emit acc, last)) := by
  intro t
  refine ⟨⟨f.map_fst_settings root none, f.link_eq_foldl root none _⟩, f.not_cyclic hroot, ?_⟩
  intro hbounded options buffer
  have hfollows : t.Follows options f.size (some root) :=
    follows_of_remaining hroot hbounded (f.self_mem_below root) (Forest.remaining_le hroot root)
  obtain ⟨found, last, hwalks, hvisit⟩ := hfollows #[]
  refine ⟨found, last, hwalks, fun emit acc => ⟨?_, hvisit emit acc⟩⟩
  rw [walk, show buffer.shrink 0 = #[] by simp]
  exact hvisit emit acc _ (Nat.le_refl _)

/-- A letter and a range, each in two places of an alternation that stands twice in a sequence, with the
range once more in between. -/
theorem walk_terminates_shared :
    let f : Forest := ⟨#[.leaf .literal [0x61], .range .integer ⟨1, 1, 1, 0⟩,
      .list .alternate [0, 1, 0, 1], .list .concat [2, 1, 2]], by decide⟩
    let t := f.toTree 3
    3 < f.size ∧ (∀ id ∈ f.below 3, ∀ kind p, f.node id = .range kind p → p.Bounded) ∧
      (∀ id, ¬ Relation.TransGen t.Leads id id) ∧
      ∃ found last, t.Walks {} (some 3) #[] found last ∧
        (t.walk {} (fun found b => found ++ [b.toList]) [] #[0x21]).1 = found.map Array.toList := by
  intro f t
  have hroot : 3 < f.size := by decide
  have hbounded : ∀ id ∈ f.below 3, ∀ kind p, f.node id = .range kind p → p.Bounded := by
    intro id hid kind p hnode
    have hle := Forest.le_of_mem_below hid
    obtain rfl | rfl | rfl | rfl : id = 0 ∨ id = 1 ∨ id = 2 ∨ id = 3 := by omega
    · cases hnode
    · cases hnode
      exact ⟨1, 2, 1, 0, by decide⟩
    · cases hnode
    · cases hnode
  obtain ⟨-, hacyclic, hruns⟩ := walk_terminates hroot
  obtain ⟨found, last, hwalks, hwalk⟩ := hruns hbounded {} #[0x21]
  refine ⟨hroot, hbounded, hacyclic, found, last, hwalks, ?_⟩
  rw [(hwalk _ _).1, List.foldl_append_eq_append, List.nil_append, ← List.flatMap_def]
  exact List.flatMap_pure_eq_map Array.toList found

end Tree

end BraceExpansion
