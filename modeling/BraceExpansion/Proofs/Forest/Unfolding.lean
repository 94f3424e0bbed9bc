import BraceExpansion.Forest.Preorder
import BraceExpansion.Proofs.Shape
import Mathlib.Data.List.Nodup
import Mathlib.Data.List.Pairwise

/-!
# Unfolding a forest

What stands at and below a node, once as a plain tree and once as a list of numbers.

* `Forest.shape` — the structure below a node, written out.
* `Forest.below` — the nodes at and below a node in preorder.  A node that is reached on several
  ways is listed several times, so that `Nodup` of this list says that nothing is shared.
* **`Forest.nodup_below`** — if no node is used twice as a child, no list of nodes below one node
  has a repetition.
* `Forest.Extends` — a forest with more nodes; what stood below a node still does.
-/

namespace BraceExpansion

namespace Forest

/-- The structure at and below a node. -/
def shape (f : Forest) (id : Nat) : Shape :=
  match h : f.node id with
  | .leaf kind value => .leaf kind value
  | .range kind p => .range kind p
  | .list kind children =>
    .list kind (children.attach.map fun (c : { c // c ∈ children }) =>
      have : c.1 < id := f.child_lt (by rw [h]; exact c.2)
      f.shape c.1)
termination_by id

/-- The nodes at and below a node: a parent before its children, the children in order. -/
def below (f : Forest) (id : Nat) : List Nat :=
  id :: (f.node id).children.attach.flatMap fun c =>
    have := f.child_lt c.2
    f.below c.1
termination_by id

/-! ## Equations -/

lemma shape_leaf {f : Forest} {id : Nat} {kind : LeafKind} {value : Bytes}
    (h : f.node id = .leaf kind value) : f.shape id = .leaf kind value := by
  rw [shape]; split <;> simp_all

lemma shape_range {f : Forest} {id : Nat} {kind : RangeKind} {p : Progression}
    (h : f.node id = .range kind p) : f.shape id = .range kind p := by
  rw [shape]; split <;> simp_all

lemma shape_list {f : Forest} {id : Nat} {kind : ListKind} {children : List Nat}
    (h : f.node id = .list kind children) :
    f.shape id = .list kind (children.map f.shape) := by
  rw [shape]
  split <;> rename_i h' <;> rw [h] at h' <;> cases h'
  simp

lemma below_eq (f : Forest) (id : Nat) :
    f.below id = id :: (f.node id).children.flatMap f.below := by
  rw [below]; simp [List.flatMap_def]

lemma self_mem_below (f : Forest) (id : Nat) : id ∈ f.below id := by
  rw [below_eq]; exact List.mem_cons_self

/-- Numbers fall on the way down. -/
lemma le_of_mem_below {f : Forest} {id j : Nat} (h : j ∈ f.below id) : j ≤ id := by
  induction id using Nat.strongRecOn with
  | ind id ih =>
      rw [below_eq, List.mem_cons, List.mem_flatMap] at h
      rcases h with rfl | ⟨c, hc, hj⟩
      · exact Nat.le_refl _
      · have hlt := f.child_lt hc
        have hle := ih c hlt hj
        omega

lemma child_mem_below {f : Forest} {id c : Nat} (h : c ∈ (f.node id).children) :
    c ∈ f.below id := by
  rw [below_eq, List.mem_cons, List.mem_flatMap]
  exact Or.inr ⟨c, h, f.self_mem_below c⟩

/-- Below a node that is below another. -/
lemma below_trans {f : Forest} {a b c : Nat} (hc : c ∈ f.below b) (hb : b ∈ f.below a) :
    c ∈ f.below a := by
  induction a using Nat.strongRecOn with
  | ind a ih =>
      rw [below_eq, List.mem_cons, List.mem_flatMap] at hb
      rcases hb with rfl | ⟨d, hd, hb⟩
      · exact hc
      · rw [below_eq, List.mem_cons, List.mem_flatMap]
        exact Or.inr ⟨d, hd, ih d (f.child_lt hd) hb⟩

/-- Every node below another, but that one, is the child of a node below it. -/
lemma exists_parent {f : Forest} {id j : Nat} (h : j ∈ f.below id) :
    j = id ∨ ∃ i ∈ f.below id, j ∈ (f.node i).children := by
  induction id using Nat.strongRecOn with
  | ind id ih =>
      have hall := h
      rw [below_eq, List.mem_cons, List.mem_flatMap] at h
      rcases h with rfl | ⟨c, hc, hj⟩
      · exact Or.inl rfl
      · right
        rcases ih c (f.child_lt hc) hj with rfl | ⟨i, hi, hji⟩
        · exact ⟨id, f.self_mem_below id, hc⟩
        · exact ⟨i, below_trans hi (child_mem_below hc), hji⟩

/-- What holds of a shape and of the members of lists holds of all shapes below. -/
lemma shape_below {f : Forest} {P : Shape → Prop}
    (hlist : ∀ kind shapes, P (.list kind shapes) → ∀ s ∈ shapes, P s) {id : Nat}
    (h : P (f.shape id)) : ∀ j ∈ f.below id, P (f.shape j) := by
  induction id using Nat.strongRecOn with
  | ind id ih =>
      intro j hj
      rw [below_eq, List.mem_cons, List.mem_flatMap] at hj
      rcases hj with rfl | ⟨c, hc, hj⟩
      · exact h
      · cases hnode : f.node id with
        | leaf kind value => simp [hnode, Node.children] at hc
        | range kind p => simp [hnode, Node.children] at hc
        | list kind children =>
            have hlt := f.child_lt hc
            rw [shape_list hnode] at h
            rw [hnode] at hc
            exact ih c hlt (hlist kind _ h _ (List.mem_map_of_mem hc)) j hj

/-! ## Nothing shared -/

/-- No node is used twice as a child. -/
def Unshared (f : Forest) : Prop := (f.nodes.toList.flatMap Node.children).Nodup

lemma mem_nodes_of_mem_children {f : Forest} {id c : Nat} (h : c ∈ (f.node id).children) :
    ∃ hlt : id < f.nodes.toList.length, f.nodes.toList[id] = f.node id := by
  have hlt : id < f.nodes.size := by
    by_contra hge
    have hnone : f.nodes[id]? = none := by simp; omega
    rw [node, Array.getD_eq_getD_getElem?, hnone] at h
    simp [default, Node.children] at h
  refine ⟨by simpa using hlt, ?_⟩
  simp [node, hlt]

/-- The children of one node differ from each other. -/
lemma Unshared.nodup_children {f : Forest} (h : f.Unshared) (id : Nat) :
    (f.node id).children.Nodup := by
  by_cases hne : (f.node id).children = []
  · rw [hne]; exact List.nodup_nil
  · obtain ⟨c, hc⟩ := List.exists_mem_of_ne_nil _ hne
    obtain ⟨hlt, heq⟩ := mem_nodes_of_mem_children hc
    have hmem : f.node id ∈ f.nodes.toList := heq ▸ List.getElem_mem hlt
    exact (List.nodup_flatMap.mp h).1 _ hmem

/-- A node has one parent at most. -/
lemma Unshared.parent_unique {f : Forest} (h : f.Unshared) {a b c : Nat}
    (ha : c ∈ (f.node a).children) (hb : c ∈ (f.node b).children) : a = b := by
  obtain ⟨hal, hae⟩ := mem_nodes_of_mem_children ha
  obtain ⟨hbl, hbe⟩ := mem_nodes_of_mem_children hb
  have hdis := List.pairwise_iff_getElem.mp (List.nodup_flatMap.mp h).2
  rcases Nat.lt_trichotomy a b with hlt | heq | hgt
  · have hdisjoint := hdis a b hal hbl hlt
    change List.Disjoint f.nodes.toList[a].children f.nodes.toList[b].children at hdisjoint
    rw [hae, hbe] at hdisjoint
    exact absurd hb (hdisjoint ha)
  · exact heq
  · have hdisjoint := hdis b a hbl hal hgt
    change List.Disjoint f.nodes.toList[b].children f.nodes.toList[a].children at hdisjoint
    rw [hae, hbe] at hdisjoint
    exact absurd ha (hdisjoint hb)

/-- Two nodes with a common node below them stand one below the other. -/
lemma Unshared.comparable {f : Forest} (h : f.Unshared) {a b j : Nat} (ha : j ∈ f.below a)
    (hb : j ∈ f.below b) : a ∈ f.below b ∨ b ∈ f.below a := by
  -- the climb from `j` to its only parent ends, because numbers grow on the way up
  induction hn : a - j using Nat.strongRecOn generalizing j with
  | ind n ih =>
      rcases exists_parent ha with rfl | ⟨i, hi, hji⟩
      · exact Or.inl hb
      · rcases exists_parent hb with rfl | ⟨i', hi', hji'⟩
        · exact Or.inr ha
        · obtain rfl := h.parent_unique hji hji'
          have hlt := f.child_lt hji
          have hle := le_of_mem_below hi
          exact ih (a - i) (by omega) hi hi' rfl

/-- Nothing stands below two children of one node. -/
lemma Unshared.disjoint_siblings {f : Forest} (h : f.Unshared) {id c d : Nat}
    (hc : c ∈ (f.node id).children) (hd : d ∈ (f.node id).children) (hne : c ≠ d) :
    (f.below c).Disjoint (f.below d) := by
  have key : ∀ {c d}, c ∈ (f.node id).children → d ∈ (f.node id).children → c ≠ d →
      c ∉ f.below d := by
    intro c d hc hd hne hmem
    rcases exists_parent hmem with rfl | ⟨i, hi, hci⟩
    · exact hne rfl
    · obtain rfl := h.parent_unique hc hci
      have hle := le_of_mem_below hi
      have hlt := f.child_lt hd
      omega
  intro j hjc hjd
  rcases h.comparable hjc hjd with hcd | hdc
  · exact key hc hd hne hcd
  · exact key hd hc (Ne.symm hne) hdc

/-- **If no node is used twice as a child, no node is met twice on the way down.** -/
theorem Unshared.nodup_below {f : Forest} (h : f.Unshared) (id : Nat) : (f.below id).Nodup := by
  induction id using Nat.strongRecOn with
  | ind id ih =>
      rw [below_eq, List.nodup_cons, List.nodup_flatMap]
      refine ⟨?_, ?_, ?_⟩
      · rw [List.mem_flatMap]
        rintro ⟨c, hc, hid⟩
        have hle := le_of_mem_below hid
        have hlt := f.child_lt hc
        omega
      · intro c hc
        exact ih c (f.child_lt hc)
      · refine (h.nodup_children id).imp_of_mem ?_
        intro c d hc hd hne
        exact h.disjoint_siblings hc hd hne

/-! ## Preorder -/

/-- From `met` to `met'` the nodes `ids` have been met, in this order. -/
structure Meets (met : Preorder) (ids : List Nat) (met' : Preorder) : Prop where
  order : met'.order.toList = met.order.toList ++ ids
  position : ∀ j ∉ ids, met'.position? j = met.position? j

lemma meets_nil (met : Preorder) : Meets met [] met := ⟨by simp, by simp⟩

lemma meets_one (met : Preorder) (id : Nat) : Meets met [id] (met.meet id) := by
  refine ⟨by simp [Preorder.meet], ?_⟩
  intro j hj
  have hne : id ≠ j := by
    rintro rfl
    exact hj List.mem_cons_self
  simp [Preorder.position?, Preorder.meet, Array.getElem?_setIfInBounds_ne hne]

lemma Meets.trans {met met' met'' : Preorder} {ids more : List Nat} (h : Meets met ids met')
    (h' : Meets met' more met'') : Meets met (ids ++ more) met'' := by
  refine ⟨?_, ?_⟩
  · rw [h'.order, h.order, List.append_assoc]
  · intro j hj
    rw [List.mem_append, not_or] at hj
    rw [h'.position j hj.2, h.position j hj.1]

lemma meets_foldl {f : Forest} {cs : List Nat} {met : Preorder}
    (hall : ∀ c ∈ cs, ∀ met : Preorder, (f.below c).Nodup →
      (∀ j ∈ f.below c, met.position? j = none) → Meets met (f.below c) (f.preorderFrom c met))
    (hnodup : (cs.flatMap f.below).Nodup)
    (hfresh : ∀ j ∈ cs.flatMap f.below, met.position? j = none) :
    Meets met (cs.flatMap f.below) (cs.foldl (fun met c => f.preorderFrom c met) met) := by
  induction cs generalizing met with
  | nil => exact meets_nil met
  | cons c cs ih =>
      rw [List.flatMap_cons] at hnodup hfresh ⊢
      obtain ⟨hc, hcs, hdisjoint⟩ := List.nodup_append.mp hnodup
      have hmeets := hall c List.mem_cons_self met hc fun j hj =>
        hfresh j (List.mem_append_left _ hj)
      refine hmeets.trans (ih (fun d hd => hall d (List.mem_cons_of_mem _ hd)) hcs ?_)
      intro j hj
      rw [hmeets.position j fun hjc => hdisjoint j hjc j hj rfl]
      exact hfresh j (List.mem_append_right _ hj)

/-- A descent to nodes that have not been met lists them. -/
lemma meets_preorderFrom {f : Forest} {id : Nat} {met : Preorder} (hnodup : (f.below id).Nodup)
    (hfresh : ∀ j ∈ f.below id, met.position? j = none) :
    Meets met (f.below id) (f.preorderFrom id met) := by
  induction id using Nat.strongRecOn generalizing met with
  | ind id ih =>
      have hself := hfresh id (f.self_mem_below id)
      rw [below_eq] at hnodup hfresh ⊢
      obtain ⟨hid, hchildren⟩ := List.nodup_cons.mp hnodup
      have hrest : Meets (met.meet id) ((f.node id).children.flatMap f.below)
          ((f.node id).children.foldl (fun met c => f.preorderFrom c met) (met.meet id)) := by
        refine meets_foldl (fun c hc met => ih c (f.child_lt hc)) hchildren ?_
        intro j hj
        have hne : j ∉ [id] := by
          rw [List.mem_singleton]
          rintro rfl
          exact hid hj
        rw [(meets_one met id).position j hne]
        exact hfresh j (List.mem_cons_of_mem _ hj)
      rw [preorderFrom, hself]
      simpa using (meets_one met id).trans hrest

/-- **Where nothing is shared, the preorder is what stands below.** -/
theorem order_preorder {f : Forest} {id : Nat} (h : (f.below id).Nodup) :
    (f.preorder id).order.toList = f.below id := by
  have hmeets : Meets (.start f) (f.below id) (f.preorder id) := by
    refine meets_preorderFrom h ?_
    intro j _
    simp only [Preorder.position?, Preorder.start, Array.getD_eq_getD_getElem?,
      Array.getElem?_replicate]
    split
    · rfl
    · rfl
  simpa [Preorder.start] using hmeets.order

/-! ## Larger forests -/

/-- The nodes of `f` are nodes of `g` too. -/
structure Extends (f g : Forest) : Prop where
  size_le : f.size ≤ g.size
  node_eq : ∀ id < f.size, g.node id = f.node id

lemma Extends.refl (f : Forest) : f.Extends f := ⟨Nat.le_refl _, fun _ _ => rfl⟩

lemma Extends.trans {f g h : Forest} (hfg : f.Extends g) (hgh : g.Extends h) : f.Extends h := by
  refine ⟨Nat.le_trans hfg.size_le hgh.size_le, ?_⟩
  intro id hid
  rw [hgh.node_eq id (Nat.lt_of_lt_of_le hid hfg.size_le), hfg.node_eq id hid]

lemma extends_push (f : Forest) (n : Node) (h) : f.Extends (f.push n h) :=
  ⟨by simp, fun _ hid => node_push_of_lt hid n h⟩

/-- What stands below a node is the same in a larger forest. -/
lemma Extends.below_eq {f g : Forest} (h : f.Extends g) {id : Nat} (hid : id < f.size) :
    g.below id = f.below id := by
  induction id using Nat.strongRecOn with
  | ind id ih =>
      rw [Forest.below_eq, Forest.below_eq, h.node_eq id hid]
      congr 1
      refine List.flatMap_congr ?_
      intro c hc
      have hlt := f.child_lt hc
      exact ih c hlt (Nat.lt_trans hlt hid)

/-- And so is the structure. -/
lemma Extends.shape_eq {f g : Forest} (h : f.Extends g) {id : Nat} (hid : id < f.size) :
    g.shape id = f.shape id := by
  induction id using Nat.strongRecOn with
  | ind id ih =>
      have hnode := h.node_eq id hid
      cases hf : f.node id with
      | leaf kind value => rw [shape_leaf hf, shape_leaf (hnode.trans hf)]
      | range kind p => rw [shape_range hf, shape_range (hnode.trans hf)]
      | list kind children =>
          rw [shape_list hf, shape_list (hnode.trans hf)]
          congr 1
          refine List.map_congr_left ?_
          intro c hc
          have hlt : c < id := f.child_lt (by rw [hf]; exact hc)
          exact ih c hlt (Nat.lt_trans hlt hid)

end Forest

end BraceExpansion
