import BraceExpansion.Proofs.Tree.Links
import Mathlib.Data.List.Dedup
import Mathlib.Data.List.Perm.Subperm

/-!
# The order in which links are set

A descent of `Forest.link` through a forest in which nodes are shared sets some links several times,
and the last time counts.

**Settings.**  `Forest.settings` lists all links that a descent sets, one for each node that it comes to
(`map_fst_settings`), and the descent does just that (`link_eq_foldl`).

**Behind.**  A link leads to a node that the same descent comes to later, or to where the whole descent
goes on (`later_of_settings`); and the children of a node are come to after the node
(`children_of_settings`).  So in the order of the last times, which is `Forest.order`, both lie
further on: **`Forest.link_later`** and **`Forest.child_later`**.
-/

namespace BraceExpansion

/-- The children of a node, each with what follows it. -/
def Node.linked (n : Node) (next : Option Nat) : List (Nat × Option Nat) :=
  match n with
  | .list kind children => kind.linked children next
  | _ => []

@[simp] lemma Node.map_fst_linked (n : Node) (next : Option Nat) :
    (n.linked next).map Prod.fst = n.children := by
  match n with
  | .leaf _ _ => rfl
  | .range _ _ => rfl
  | .list kind children => exact kind.map_fst_linked children next

/-- What follows a child is another child further on, or what follows the list. -/
lemma ListKind.linked_split {kind : ListKind} {children : List Nat} {next : Option Nat}
    {before behind : List (Nat × Option Nat)} {e : Nat × Option Nat}
    (h : kind.linked children next = before ++ e :: behind) :
    e.2 = next ∨ ∃ e' ∈ behind, e.2 = some e'.1 := by
  cases kind with
  | alternate =>
      have hmem : e ∈ alternate.linked children next := by simp [h]
      rw [linked_alternate] at hmem
      obtain ⟨c, -, rfl⟩ := List.mem_map.mp hmem
      exact Or.inl rfl
  | concat =>
      induction children generalizing before with
      | nil => simp at h
      | cons c rest ih =>
          rw [linked_concat_cons] at h
          cases before with
          | cons b before => exact ih (List.cons.inj h).2
          | nil =>
              obtain ⟨rfl, rfl⟩ := List.cons.inj h
              cases rest with
              | nil => exact Or.inl rfl
              | cons d rest =>
                  rw [linked_concat_cons]
                  exact Or.inr ⟨_, List.mem_cons_self, rfl⟩

lemma Node.linked_split {n : Node} {next : Option Nat} {before behind : List (Nat × Option Nat)}
    {e : Nat × Option Nat} (h : n.linked next = before ++ e :: behind) :
    e.2 = next ∨ ∃ e' ∈ behind, e.2 = some e'.1 := by
  cases n with
  | leaf kind value => simp [linked] at h
  | range kind p => simp [linked] at h
  | list kind children => exact ListKind.linked_split h

namespace Forest

variable {f : Forest} {id c j : Nat} {next : Option Nat} {links : Array (Option Nat)}

lemma mem_children_of_mem_node_linked {e : Nat × Option Nat} (h : e ∈ (f.node id).linked next) :
    e.1 ∈ (f.node id).children := by
  rw [← (f.node id).map_fst_linked next]
  exact List.mem_map_of_mem h

/-! ## Settings -/

/-- The links that a descent sets, in order: each node that it comes to, and what follows it there. -/
def settings (f : Forest) (id : Nat) (next : Option Nat) : List (Nat × Option Nat) :=
  (id, next) :: ((f.node id).linked next).attach.flatMap fun e =>
    have := f.child_lt (mem_children_of_mem_node_linked e.2)
    f.settings e.1.1 e.1.2
termination_by id

lemma settings_eq (f : Forest) (id : Nat) (next : Option Nat) : f.settings id next
    = (id, next) :: ((f.node id).linked next).flatMap fun e => f.settings e.1 e.2 := by
  rw [settings, List.flatMap_def, List.flatMap_def]
  exact congrArg (fun parts => _ :: List.flatten parts)
    (List.attach_map_val (f := fun e : Nat × Option Nat => f.settings e.1 e.2))

lemma mem_settings_self (f : Forest) (id : Nat) (next : Option Nat) :
    (id, next) ∈ f.settings id next := by
  rw [settings_eq]
  exact List.mem_cons_self

/-- A descent comes to the nodes below, as often as there are ways to them. -/
lemma map_fst_settings (f : Forest) (id : Nat) (next : Option Nat) :
    (f.settings id next).map Prod.fst = f.below id := by
  induction id using Nat.strongRecOn generalizing next with
  | ind id ih =>
      rw [settings_eq, below_eq, List.map_cons, List.map_flatMap]
      conv_rhs => rw [← (f.node id).map_fst_linked next, List.flatMap_map]
      refine congrArg _ (List.flatMap_congr fun e he => ?_)
      exact ih e.1 (f.child_lt (mem_children_of_mem_node_linked he)) e.2

/-- One link is set. -/
def set (links : Array (Option Nat)) (e : Nat × Option Nat) : Array (Option Nat) :=
  links.setIfInBounds e.1 e.2

lemma link_eq (f : Forest) (id : Nat) (next : Option Nat) (links : Array (Option Nat)) :
    f.link id next links = ((f.node id).linked next).foldl (fun links e => f.link e.1 e.2 links)
      (set links (id, next)) := by
  cases hnode : f.node id with
  | leaf kind value => rw [link_leaf hnode]; rfl
  | range kind p => rw [link_range hnode]; rfl
  | list kind children => rw [link_list hnode]; rfl

/-- **A descent sets its links one after the other.** -/
lemma link_eq_foldl (f : Forest) (id : Nat) (next : Option Nat) (links : Array (Option Nat)) :
    f.link id next links = (f.settings id next).foldl set links := by
  induction id using Nat.strongRecOn generalizing next links with
  | ind id ih =>
      rw [link_eq, settings_eq, List.foldl_cons, List.foldl_flatMap]
      refine List.foldl_ext _ _ _ fun links e he => ?_
      exact ih e.1 (f.child_lt (mem_children_of_mem_node_linked he)) e.2 links

/-- The last setting of a link counts. -/
lemma getD_foldl_set {before behind : List (Nat × Option Nat)}
    (hj : j < links.size) (hlast : j ∉ behind.map Prod.fst) :
    ((before ++ (j, next) :: behind).foldl set links).getD j none = next := by
  have hsize : ∀ (es : List (Nat × Option Nat)) (links : Array (Option Nat)),
      (es.foldl set links).size = links.size := by
    intro es
    induction es with
    | nil => exact fun _ => rfl
    | cons e es ih => intro links; rw [List.foldl_cons, ih]; simp [set]
  have hkeep : ∀ (es : List (Nat × Option Nat)) (links : Array (Option Nat)),
      j ∉ es.map Prod.fst → (es.foldl set links).getD j none = links.getD j none := by
    intro es
    induction es with
    | nil => exact fun _ _ => rfl
    | cons e es ih =>
        intro links hnot
        rw [List.map_cons, List.mem_cons, not_or] at hnot
        rw [List.foldl_cons, ih _ hnot.2]
        exact getD_setIfInBounds_of_ne (Ne.symm hnot.1) e.2
  rw [List.foldl_append, List.foldl_cons, hkeep _ _ hlast]
  exact getD_setIfInBounds_self (by rwa [hsize]) next

/-! ## What comes later -/

/-- What a list of settings says about each of its members and those behind it, it says if each of
its parts does and what is behind a part helps. -/
lemma split_flatMap {α β : Type} {P : β → List β → Prop} {g : α → List β} {as : List α}
    (h : ∀ before a behind, as = before ++ a :: behind → ∀ xs x ys, g a = xs ++ x :: ys →
      P x (ys ++ behind.flatMap g)) :
    ∀ xs x ys, as.flatMap g = xs ++ x :: ys → P x ys := by
  induction as with
  | nil => simp
  | cons a as ih =>
      intro xs x ys hsplit
      rw [List.flatMap_cons, List.append_eq_append_iff] at hsplit
      rcases hsplit with ⟨zs, rfl, hzs⟩ | ⟨zs, ha, hzs⟩
      · refine ih (fun before b behind hb => ?_) zs x ys hzs
        exact h (a :: before) b behind (by rw [hb]; rfl)
      · cases zs with
        | nil =>
            refine ih (fun before b behind hb => ?_) [] x ys (by simpa using hzs.symm)
            exact h (a :: before) b behind (by rw [hb]; rfl)
        | cons z zs =>
            obtain ⟨rfl, rfl⟩ := List.cons.inj hzs
            exact h [] a as rfl xs x zs ha

/-- **A link leads to a node that is come to later**, or out of the descent. -/
lemma later_of_settings {before behind : List (Nat × Option Nat)} {e : Nat × Option Nat}
    (h : f.settings id next = before ++ e :: behind) :
    e.2 = next ∨ ∃ m ∈ behind.map Prod.fst, e.2 = some m := by
  induction id using Nat.strongRecOn generalizing next before e behind with
  | ind id ih =>
      rw [settings_eq] at h
      cases before with
      | nil =>
          obtain ⟨rfl, -⟩ := List.cons.inj h
          exact Or.inl rfl
      | cons b before =>
          refine split_flatMap (P := fun e behind =>
            e.2 = next ∨ ∃ m ∈ behind.map Prod.fst, e.2 = some m) ?_ before e behind
              (List.cons.inj h).2
          intro others d more hchildren xs x ys hsplit
          have hd : d ∈ (f.node id).linked next := by rw [hchildren]; simp
          rcases ih d.1 (f.child_lt (mem_children_of_mem_node_linked hd)) hsplit with
            hout | ⟨m, hm, hx⟩
          · -- out of the child: to a child further on, or out of the node
            rcases Node.linked_split hchildren with hnext | ⟨d', hd', hnext⟩
            · exact Or.inl (hout.trans hnext)
            · refine Or.inr ⟨d'.1, ?_, hout.trans hnext⟩
              rw [List.map_append]
              refine List.mem_append_right _ (List.mem_map.mpr ⟨(d'.1, d'.2), ?_, rfl⟩)
              exact List.mem_flatMap.mpr ⟨d', hd', f.mem_settings_self _ _⟩
          · exact Or.inr ⟨m, by rw [List.map_append]; exact List.mem_append_left _ hm, hx⟩

/-- **The children of a node are come to after the node.** -/
lemma children_of_settings {before behind : List (Nat × Option Nat)} {e : Nat × Option Nat}
    (h : f.settings id next = before ++ e :: behind) (hc : c ∈ (f.node e.1).children) :
    c ∈ behind.map Prod.fst := by
  induction id using Nat.strongRecOn generalizing next before e behind with
  | ind id ih =>
      rw [settings_eq] at h
      cases before with
      | nil =>
          obtain ⟨rfl, rfl⟩ := List.cons.inj h
          rw [← (f.node id).map_fst_linked next] at hc
          obtain ⟨d, hd, rfl⟩ := List.mem_map.mp hc
          refine List.mem_map.mpr ⟨(d.1, d.2), ?_, rfl⟩
          exact List.mem_flatMap.mpr ⟨d, hd, f.mem_settings_self _ _⟩
      | cons b before =>
          refine split_flatMap (P := fun e behind =>
            c ∈ (f.node e.1).children → c ∈ behind.map Prod.fst) ?_ before e behind
              (List.cons.inj h).2 hc
          intro others d more hchildren xs x ys hsplit hc
          have hd : d ∈ (f.node id).linked next := by rw [hchildren]; simp
          have hlater := ih d.1 (f.child_lt (mem_children_of_mem_node_linked hd)) hsplit hc
          rw [List.map_append]
          exact List.mem_append_left _ hlater

/-! ## The order of the last times -/

/-- The nodes below a node, in the order in which a descent comes to them for the last time. -/
def order (f : Forest) (root : Nat) : List Nat := (f.below root).dedup

/-- How many nodes are left in the order from a node on. -/
def remaining (f : Forest) (root id : Nat) : Nat := (f.order root).length - (f.order root).idxOf id

variable {root : Nat}

/-- What is come to behind the last time of a node lies further on. -/
lemma remaining_lt {before behind : List Nat} {m : Nat} (h : f.below root = before ++ j :: behind)
    (hlast : j ∉ behind) (hm : m ∈ behind) : f.remaining root m < f.remaining root j := by
  obtain ⟨earlier, horder⟩ : ∃ earlier, f.order root = earlier ++ j :: behind.dedup := by
    rw [order, h, List.dedup_append, List.dedup_cons_of_notMem hlast]
    obtain ⟨earlier, hearlier⟩ := List.suffix_union_right before (j :: behind.dedup)
    exact ⟨earlier, hearlier.symm⟩
  have hnodup : (earlier ++ j :: behind.dedup).Nodup := by
    rw [← horder]
    exact List.nodup_dedup _
  rw [List.nodup_append] at hnodup
  obtain ⟨-, -, hapart⟩ := hnodup
  have hm : m ∈ behind.dedup := List.mem_dedup.mpr hm
  have hne : j ≠ m := by
    rintro rfl
    exact hlast (List.mem_dedup.mp hm)
  have hj : j ∉ earlier := fun hin => hapart j hin j List.mem_cons_self rfl
  have hm' : m ∉ earlier := fun hin => hapart m hin m (List.mem_cons_of_mem _ hm) rfl
  have hindex := List.idxOf_lt_length_of_mem hm
  rw [remaining, remaining, horder, List.idxOf_append_of_notMem hj, List.idxOf_append_of_notMem hm',
    List.idxOf_cons_self, List.idxOf_cons_ne _ hne, List.length_append, List.length_cons]
  omega

lemma remaining_pos (h : j ∈ f.below root) : 0 < f.remaining root j := by
  have hindex := List.idxOf_lt_length_of_mem (List.mem_dedup.mpr h)
  rw [remaining, order]
  omega

/-- There are no more nodes in the order than in the forest. -/
lemma remaining_le (hroot : root < f.size) (id : Nat) : f.remaining root id ≤ f.size := by
  have hall : ∀ j ∈ f.order root, j ∈ List.range f.size := by
    intro j hj
    have hle := le_of_mem_below (List.mem_dedup.mp hj)
    exact List.mem_range.mpr (by omega)
  have hlength := ((List.nodup_dedup (f.below root)).subperm hall).length_le
  rw [List.length_range] at hlength
  exact Nat.le_trans (Nat.sub_le _ _) hlength

/-- There is a last time. -/
lemma exists_last {es : List (Nat × Option Nat)} (h : j ∈ es.map Prod.fst) :
    ∃ before next behind, es = before ++ (j, next) :: behind ∧ j ∉ behind.map Prod.fst := by
  induction es with
  | nil => simp at h
  | cons e es ih =>
      by_cases hlater : j ∈ es.map Prod.fst
      · obtain ⟨before, next, behind, rfl, hlast⟩ := ih hlater
        exact ⟨e :: before, next, behind, rfl, hlast⟩
      · rcases List.mem_cons.mp h with rfl | hin
        · exact ⟨[], e.2, es, rfl, hlater⟩
        · exact absurd hin hlater

/-- A node below the root has the link that it was given the last time. -/
lemma exists_last_setting (hroot : root < f.size) (h : j ∈ f.below root) :
    ∃ before behind, f.settings root none = before ++ (j, (f.toTree root).next j) :: behind ∧
      j ∉ behind.map Prod.fst := by
  rw [← f.map_fst_settings root none] at h
  obtain ⟨before, next, behind, hsplit, hlast⟩ := exists_last h
  have hj : j < f.size := by
    rw [f.map_fst_settings] at h
    have hle := le_of_mem_below h
    omega
  have hnext : (f.toTree root).next j = next := by
    rw [Tree.next, toTree, link_eq_foldl, hsplit]
    exact getD_foldl_set (by simpa using hj) hlast
  exact ⟨before, behind, by rw [hsplit, hnext], hlast⟩

lemma below_of_settings {before behind : List (Nat × Option Nat)} {e : Nat × Option Nat}
    (h : f.settings root none = before ++ e :: behind) :
    f.below root = before.map Prod.fst ++ e.1 :: behind.map Prod.fst := by
  rw [← f.map_fst_settings root none, h, List.map_append, List.map_cons]

/-- **A link leads further on in the order.** -/
theorem link_later (hroot : root < f.size) (h : j ∈ f.below root) {m : Nat}
    (hm : (f.toTree root).next j = some m) :
    m ∈ f.below root ∧ f.remaining root m < f.remaining root j := by
  obtain ⟨before, behind, hsplit, hlast⟩ := exists_last_setting hroot h
  have hbelow := below_of_settings hsplit
  rcases later_of_settings hsplit with hnone | ⟨n, hn, hnext⟩
  · rw [hm] at hnone
    cases hnone
  · obtain rfl : m = n := Option.some.inj (hm.symm.trans hnext)
    exact ⟨by rw [hbelow]; simp [hn], remaining_lt hbelow hlast hn⟩

/-- **So do children.** -/
theorem child_later (hroot : root < f.size) (h : j ∈ f.below root) (hc : c ∈ (f.node j).children) :
    c ∈ f.below root ∧ f.remaining root c < f.remaining root j := by
  obtain ⟨before, behind, hsplit, hlast⟩ := exists_last_setting hroot h
  have hlater := children_of_settings hsplit hc
  exact ⟨below_trans (child_mem_below hc) h, remaining_lt (below_of_settings hsplit) hlast hlater⟩

end Forest

end BraceExpansion
