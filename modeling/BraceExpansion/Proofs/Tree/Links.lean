import BraceExpansion.Proofs.Forest.Unfolding
import Mathlib.Data.List.Induction

/-!
# Links are the continuation

`Forest.link` sets the links below a node in one descent.  `Forest.Linked` says what they should
be, node by node, without a descent: in a sequence the next member, and what follows the sequence
behind the last one; in an alternation what follows the alternation.

**`Forest.linked_link`** — if nothing is shared, the descent sets exactly these links.  The second
half of the proof is a frame: a descent touches only the nodes it visits (`Forest.link_frame`), so
the links of one subtree survive the descent into the next.
-/

namespace BraceExpansion

namespace ListKind

/-- The children of a list, each with what follows it. -/
def linked (kind : ListKind) (children : List Nat) (next : Option Nat) :
    List (Nat × Option Nat) :=
  children.zip (kind.followers children next)

@[simp] lemma linked_nil (kind : ListKind) (next : Option Nat) : kind.linked [] next = [] := rfl

lemma linked_concat_cons (c : Nat) (rest : List Nat) (next : Option Nat) :
    concat.linked (c :: rest) next = (c, rest.head?.or next) :: concat.linked rest next := by
  cases rest with
  | nil => rfl
  | cons d rest => simp [linked, followers]

lemma linked_alternate (children : List Nat) (next : Option Nat) :
    alternate.linked children next = children.map fun c => (c, next) := by
  induction children with
  | nil => rfl
  | cons c rest ih => simpa [linked, followers] using ih

lemma map_fst_linked (kind : ListKind) (children : List Nat) (next : Option Nat) :
    (kind.linked children next).map Prod.fst = children := by
  cases kind with
  | alternate => simp [linked_alternate, Function.comp_def]
  | concat =>
      induction children with
      | nil => rfl
      | cons c rest ih => rw [linked_concat_cons, List.map_cons, ih]

end ListKind

namespace Forest

variable {f : Forest} {links links' : Array (Option Nat)} {id : Nat} {next : Option Nat}

/-- The links below a node are the continuations, where `next` follows the node. -/
inductive Linked (f : Forest) (links : Array (Option Nat)) : Nat → Option Nat → Prop
  | leaf {id next kind value} (hnode : f.node id = .leaf kind value)
      (hlink : links.getD id none = next) : Linked f links id next
  | range {id next kind p} (hnode : f.node id = .range kind p)
      (hlink : links.getD id none = next) : Linked f links id next
  | list {id next kind children} (hnode : f.node id = .list kind children)
      (hlink : links.getD id none = next)
      (hchildren : ∀ e ∈ kind.linked children next, Linked f links e.1 e.2) :
      Linked f links id next

lemma link_leaf {kind : LeafKind} {value : Bytes} (h : f.node id = .leaf kind value) :
    f.link id next links = links.setIfInBounds id next := by
  rw [link]; split <;> simp_all

lemma link_range {kind : RangeKind} {p : Progression} (h : f.node id = .range kind p) :
    f.link id next links = links.setIfInBounds id next := by
  rw [link]; split <;> simp_all

lemma zip_eq_map_attach {α β : Type} (as : List α) (bs : List β) :
    as.zip bs = (as.attach.zip bs).map fun e => (e.1.1, e.2) := by
  conv_lhs => rw [← List.attach_map_subtype_val as]
  rw [List.zip_map_left]
  rfl

lemma foldl_attach_zip {α β σ : Type} (g : σ → α → β → σ) (as : List α) (bs : List β) (s : σ) :
    (as.attach.zip bs).foldl (fun s e => g s e.1.1 e.2) s
      = (as.zip bs).foldl (fun s e => g s e.1 e.2) s := by
  rw [zip_eq_map_attach as bs, List.foldl_map]

lemma link_list {kind : ListKind} {children : List Nat} (h : f.node id = .list kind children) :
    f.link id next links
      = (kind.linked children next).foldl (fun links e => f.link e.1 e.2 links)
          (links.setIfInBounds id next) := by
  rw [link]
  split
  next k cs hk =>
    rw [h] at hk
    obtain ⟨rfl, rfl⟩ := Node.list.inj hk
    exact foldl_attach_zip (fun links c e => f.link c e links) _ _ _
  next hk => exact absurd h (hk kind children)

/-! ## What a descent leaves alone -/

lemma getD_setIfInBounds_of_ne {i j : Nat} (h : i ≠ j) (x : Option Nat) :
    (links.setIfInBounds i x).getD j none = links.getD j none := by
  simp [Array.getD_eq_getD_getElem?, Array.getElem?_setIfInBounds_ne h]

lemma getD_setIfInBounds_self {i : Nat} (h : i < links.size) (x : Option Nat) :
    (links.setIfInBounds i x).getD i none = x := by
  simp [h]

/-- Descents one after the other leave alone what each of them leaves alone. -/
lemma foldl_link_frame (es : List (Nat × Option Nat))
    (h : ∀ e ∈ es, ∀ acc, (f.link e.1 e.2 acc).size = acc.size ∧
      ∀ j ∉ f.below e.1, (f.link e.1 e.2 acc).getD j none = acc.getD j none)
    (acc : Array (Option Nat)) :
    (es.foldl (fun links e => f.link e.1 e.2 links) acc).size = acc.size ∧
      ∀ j, (∀ e ∈ es, j ∉ f.below e.1) →
        (es.foldl (fun links e => f.link e.1 e.2 links) acc).getD j none = acc.getD j none := by
  induction es generalizing acc with
  | nil => exact ⟨rfl, fun _ _ => rfl⟩
  | cons e es ih =>
      obtain ⟨hsize, hkeep⟩ := h e List.mem_cons_self acc
      obtain ⟨hsize', hkeep'⟩ :=
        ih (fun e' he' => h e' (List.mem_cons_of_mem _ he')) (f.link e.1 e.2 acc)
      refine ⟨hsize'.trans hsize, ?_⟩
      intro j hj
      rw [List.foldl_cons, hkeep' j fun e' he' => hj e' (List.mem_cons_of_mem _ he')]
      exact hkeep j (hj e List.mem_cons_self)

lemma mem_children_of_mem_linked {kind : ListKind} {children : List Nat}
    (hnode : f.node id = .list kind children) {e : Nat × Option Nat}
    (he : e ∈ kind.linked children next) : e.1 ∈ (f.node id).children := by
  have hmem := List.mem_map_of_mem (f := Prod.fst) he
  rw [ListKind.map_fst_linked] at hmem
  rw [hnode]
  exact hmem

/-- A descent keeps the number of links and changes none but those of nodes it visits. -/
lemma link_frame (f : Forest) (id : Nat) (next : Option Nat) (links : Array (Option Nat)) :
    (f.link id next links).size = links.size ∧
      ∀ j ∉ f.below id, (f.link id next links).getD j none = links.getD j none := by
  induction id using Nat.strongRecOn generalizing next links with
  | ind id ih =>
      have hset : ∀ j ∉ f.below id,
          (links.setIfInBounds id next).getD j none = links.getD j none := by
        intro j hj
        refine getD_setIfInBounds_of_ne ?_ next
        rintro rfl
        exact hj (f.self_mem_below _)
      cases hnode : f.node id with
      | leaf kind value => rw [link_leaf hnode]; exact ⟨by simp, hset⟩
      | range kind p => rw [link_range hnode]; exact ⟨by simp, hset⟩
      | list kind children =>
          rw [link_list hnode]
          obtain ⟨hsize, hkeep⟩ := foldl_link_frame (kind.linked children next)
            (fun e he acc => ih e.1 (f.child_lt (mem_children_of_mem_linked hnode he)) e.2 acc)
            (links.setIfInBounds id next)
          refine ⟨by rw [hsize]; simp, ?_⟩
          intro j hj
          rw [hkeep j ?_, hset j hj]
          intro e he hje
          exact hj (below_trans hje (child_mem_below (mem_children_of_mem_linked hnode he)))

lemma getD_link_of_notMem {j : Nat} (hj : j ∉ f.below id) :
    (f.link id next links).getD j none = links.getD j none :=
  (f.link_frame id next links).2 j hj

/-- Links that agree below a node are right there together. -/
lemma Linked.congr (h : f.Linked links id next)
    (hsame : ∀ j ∈ f.below id, links'.getD j none = links.getD j none) :
    f.Linked links' id next := by
  induction h with
  | leaf hnode hlink => exact .leaf hnode ((hsame _ (f.self_mem_below _)).trans hlink)
  | range hnode hlink => exact .range hnode ((hsame _ (f.self_mem_below _)).trans hlink)
  | @list id next kind children hnode hlink hchildren ih =>
      refine .list hnode ((hsame _ (f.self_mem_below _)).trans hlink) ?_
      intro e he
      have hc := mem_children_of_mem_linked hnode he
      exact ih e he fun j hj => hsame j (below_trans hj (child_mem_below hc))

/-! ## What a descent sets -/

/-- Descents into nodes that share nothing, one after the other, set all their links. -/
lemma linked_foldl {es : List (Nat × Option Nat)} (hnodup : (es.flatMap fun e => f.below e.1).Nodup)
    (hlink : ∀ e ∈ es, ∀ links : Array (Option Nat), (∀ j ∈ f.below e.1, j < links.size) →
      f.Linked (f.link e.1 e.2 links) e.1 e.2)
    (hsize : ∀ e ∈ es, ∀ j ∈ f.below e.1, j < links.size) :
    ∀ e ∈ es, f.Linked (es.foldl (fun links e => f.link e.1 e.2 links) links) e.1 e.2 := by
  -- from the last descent backwards: it sets its own links and leaves the others alone
  induction es using List.reverseRecOn with
  | nil => intro e he; cases he
  | append_singleton es last ih =>
      simp only [List.foldl_append, List.foldl_cons, List.foldl_nil]
      rw [List.flatMap_append, List.nodup_append] at hnodup
      obtain ⟨hnodup, -, hdisjoint⟩ := hnodup
      intro e he
      rcases List.mem_append.mp he with he | he
      · have hbefore := ih hnodup (fun e he => hlink e (List.mem_append_left _ he))
          (fun e he => hsize e (List.mem_append_left _ he)) e he
        refine hbefore.congr ?_
        intro j hj
        refine getD_link_of_notMem ?_
        intro hjlast
        refine hdisjoint j (List.mem_flatMap.mpr ⟨e, he, hj⟩) j ?_ rfl
        simpa using hjlast
      · obtain rfl := List.mem_singleton.mp he
        refine hlink _ (by simp) _ ?_
        intro j hj
        rw [(foldl_link_frame _ (fun e _ acc => f.link_frame e.1 e.2 acc) links).1]
        exact hsize _ (by simp) j hj

/-- **The descent of `link` sets every link below a node to its continuation.** -/
theorem linked_link (hnodup : (f.below id).Nodup) (hsize : ∀ j ∈ f.below id, j < links.size) :
    f.Linked (f.link id next links) id next := by
  induction id using Nat.strongRecOn generalizing next links with
  | ind id ih =>
      have hid : id < links.size := hsize id (f.self_mem_below id)
      cases hnode : f.node id with
      | leaf kind value =>
          rw [link_leaf hnode]
          exact .leaf hnode (getD_setIfInBounds_self hid next)
      | range kind p =>
          rw [link_range hnode]
          exact .range hnode (getD_setIfInBounds_self hid next)
      | list kind children =>
          have hbelow : f.below id = id :: children.flatMap f.below := by
            rw [below_eq, hnode]; rfl
          rw [hbelow, List.nodup_cons] at hnodup
          obtain ⟨hid_notMem, hnodup⟩ := hnodup
          have hes : (kind.linked children next).flatMap (fun e => f.below e.1)
              = children.flatMap f.below := by
            conv_rhs => rw [← ListKind.map_fst_linked kind children next]
            rw [List.flatMap_map]
          have hchild : ∀ e ∈ kind.linked children next, e.1 ∈ (f.node id).children :=
            fun e he => mem_children_of_mem_linked hnode he
          have hmem : ∀ e ∈ kind.linked children next, e.1 ∈ children := by
            intro e he
            have hc := hchild e he
            rwa [hnode] at hc
          rw [link_list hnode]
          refine .list hnode ?_ ?_
          · -- no descent into a child comes back to the node
            rw [(foldl_link_frame _ (fun e _ acc => f.link_frame e.1 e.2 acc) _).2 id fun e he hin =>
              hid_notMem (List.mem_flatMap.mpr ⟨e.1, hmem e he, hin⟩)]
            exact getD_setIfInBounds_self hid next
          · refine linked_foldl (by rw [hes]; exact hnodup) ?_ ?_
            · intro e he acc hacc
              refine ih e.1 (f.child_lt (hchild e he)) ?_ hacc
              exact (List.nodup_flatMap.mp hnodup).1 e.1 (hmem e he)
            · intro e he j hj
              have := hsize j (below_trans hj (child_mem_below (hchild e he)))
              simpa using this

end Forest

end BraceExpansion
