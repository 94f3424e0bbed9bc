import BraceExpansion.Proofs.Draft.Planting
import Mathlib.Algebra.Ring.Nat

/-!
# The same contents in other slots

Two pools can hold the same pieces in different slots, and free slots may still have anything in
them.  None of this shows in what is planted:

* **`Pool.Holds.plant_congr`** — the nodes, their numbers and their order depend on what is held, not
  on where.
* `Pool.Holds.size_plant` — every slot that is taken becomes one node, and no other slot does.
* `Pool.Holds.perm_below` — all of these nodes stand below the one that is planted, each once.
-/

namespace BraceExpansion

lemma Forest.size_list (f : Forest) (kind : ListKind) (children : List Nat) :
    (f.list kind children).2.size = f.size + 1 :=
  f.size_push (.list kind (children.filter (· < f.nodes.size))) (by simp [Node.children])

namespace Pool

variable {p q : Pool} {ids ids' used used' : List Nat} {pieces : List Piece}

/-- A slot without members is one node, which depends on its draft alone. -/
lemma plantWithin_single {id id' : Nat} {s : Shape} (depth depth' : Nat)
    (hdraft : Piece.draft? (.shape s) = some (p.get id))
    (hdraft' : Piece.draft? (.shape s) = some (q.get id')) (f : Forest) :
    p.plantWithin depth f id = q.plantWithin depth' f id' ∧
      (p.plantWithin depth f id).2.size = f.size + 1 := by
  match s, hdraft, hdraft' with
  | .leaf kind text, hdraft, hdraft' =>
    rw [plantWithin.eq_def, plantWithin.eq_def q, ← Option.some.inj hdraft,
      ← Option.some.inj hdraft']
    exact ⟨rfl, f.size_push (.leaf kind text) (by simp [Node.children])⟩
  | .range kind r, hdraft, hdraft' =>
    rw [plantWithin.eq_def, plantWithin.eq_def q, ← Option.some.inj hdraft,
      ← Option.some.inj hdraft']
    exact ⟨rfl, f.size_push (.range kind r) (by simp [Node.children])⟩

/-- What is planted from one pool is planted from the other. -/
lemma Holds.plantAll_congr (h : p.Holds ids pieces used) (h' : q.Holds ids' pieces used') :
    ∀ (shapes : List Shape), pieces = shapes.map .shape → ∀ (depth depth' : Nat),
      used.length ≤ depth → used'.length ≤ depth' →
        ∀ start, p.plantAll depth start ids = q.plantAll depth' start ids' := by
  induction h generalizing ids' used' with
  | nil =>
      intro shapes _ depth depth' _ _ start
      cases h'
      rfl
  | @single id ids piece pieces used hdraft hrest ih =>
      rintro shapes hshapes depth depth' hdepth hdepth' ⟨planted, f⟩
      cases shapes with
      | nil => cases hshapes
      | cons s shapes =>
          obtain ⟨rfl, htail⟩ := List.cons.inj hshapes
          cases h' with
          | list => cases hdraft
          | single hdraft' hrest' =>
              rw [List.length_cons] at hdepth hdepth'
              rw [plantAll_cons, plantAll_cons, (plantWithin_single depth depth' hdraft hdraft' f).1]
              exact ih hrest' shapes htail depth depth' (by omega) (by omega) _
  | @list id ids kind members children inner pieces used hget hmembers hrest ihm ihr =>
      rintro shapes hshapes depth depth' hdepth hdepth' ⟨planted, f⟩
      cases shapes with
      | nil => cases hshapes
      | cons s shapes =>
          cases h' with
          | single hdraft' => cases hdraft'
          | list hget' hmembers' hrest' =>
              rw [List.length_cons, List.length_append] at hdepth hdepth'
              obtain ⟨depth, rfl⟩ : ∃ d, depth = d + 1 := ⟨depth - 1, by omega⟩
              obtain ⟨depth', rfl⟩ : ∃ d, depth' = d + 1 := ⟨depth' - 1, by omega⟩
              have hinner := ihm hmembers' children rfl depth depth' (by omega) (by omega) (#[], f)
              rw [plantAll_cons, plantAll_cons, plantWithin_list hget, plantWithin_list hget', hinner]
              exact ihr hrest' shapes (List.cons.inj hshapes).2 (depth + 1) (depth' + 1) (by omega)
                (by omega) _

/-- **What is planted depends on what is held, and not on where.** -/
theorem Holds.plant_congr {id id' : Nat} {s : Shape} (h : p.Holds [id] [.shape s] used)
    (howns : p.Owns used) (h' : q.Holds [id'] [.shape s] used') (howns' : q.Owns used')
    (f : Forest) : p.plant f id = q.plant f id' := by
  have hall := h.plantAll_congr h' [s] rfl _ _ howns.length_le howns'.length_le (#[], f)
  rw [plantAll_cons, plantAll_cons] at hall
  obtain ⟨hroots, hforest⟩ := Prod.ext_iff.mp hall
  exact Prod.ext (by simpa [Pool.plantAll, Pool.plant] using hroots) hforest

/-! ## How many nodes there are -/

/-- Every slot that is taken becomes one node. -/
lemma Holds.size_plantAll (h : p.Holds ids pieces used) :
    ∀ (shapes : List Shape), pieces = shapes.map .shape → ∀ (depth : Nat), used.length ≤ depth →
      ∀ planted f, (p.plantAll depth (planted, f) ids).2.size = f.size + used.length := by
  induction h with
  | nil => intro shapes _ depth _ planted f; rfl
  | @single id ids piece pieces used hdraft hrest ih =>
      intro shapes hshapes depth hdepth planted f
      cases shapes with
      | nil => cases hshapes
      | cons s shapes =>
          obtain ⟨rfl, htail⟩ := List.cons.inj hshapes
          have hone := (plantWithin_single depth depth hdraft hdraft f).2
          rw [List.length_cons] at hdepth ⊢
          rw [plantAll_cons, ih shapes htail depth (by omega), hone]
          omega
  | @list id ids kind members children inner pieces used hget hmembers hrest ihm ihr =>
      intro shapes hshapes depth hdepth planted f
      cases shapes with
      | nil => cases hshapes
      | cons s shapes =>
          rw [List.length_cons, List.length_append] at hdepth ⊢
          obtain ⟨depth, rfl⟩ : ∃ d, depth = d + 1 := ⟨depth - 1, by omega⟩
          have hhere : (p.plantWithin (depth + 1) f id).2.size = f.size + inner.length + 1 := by
            rw [plantWithin_list hget, Forest.size_list, ihm children rfl depth (by omega) #[] f]
          rw [plantAll_cons, ihr shapes (List.cons.inj hshapes).2 (depth + 1) (by omega), hhere]
          omega

lemma Holds.size_plant {id : Nat} {s : Shape} (h : p.Holds [id] [.shape s] used)
    (howns : p.Owns used) (f : Forest) : (p.plant f id).2.size = f.size + used.length :=
  h.size_plantAll [s] rfl _ howns.length_le #[] f

end Pool

/-- How many nodes a shape has. -/
def Shape.count : Shape → Nat
  | .leaf _ _ => 1
  | .range _ _ => 1
  | .list _ children => (children.map count).sum + 1

/-- Below a node there is one node for each in its shape. -/
lemma Forest.length_below (f : Forest) (id : Nat) : (f.below id).length = (f.shape id).count := by
  induction id using Nat.strongRecOn with
  | ind id ih =>
      rw [below_eq, List.length_cons, List.length_flatMap]
      cases hnode : f.node id with
      | leaf kind value => simp [shape_leaf hnode, Shape.count, Node.children]
      | range kind r => simp [shape_range hnode, Shape.count, Node.children]
      | list kind children =>
          have hchildren : children.map (fun c => (f.below c).length)
              = children.map fun c => (f.shape c).count := by
            refine List.map_congr_left ?_
            intro c hc
            exact ih c (f.child_lt (by rw [hnode]; exact hc))
          rw [shape_list hnode, Shape.count, Node.children, hchildren, List.map_map]
          rfl

namespace Pool

variable {p : Pool} {ids used : List Nat} {pieces : List Piece}

/-- Shapes take one slot for each of their nodes. -/
lemma Holds.length_used (h : p.Holds ids pieces used) :
    ∀ shapes : List Shape, pieces = shapes.map .shape →
      used.length = (shapes.map Shape.count).sum := by
  induction h with
  | nil =>
      intro shapes hshapes
      obtain rfl : shapes = [] := by simpa using hshapes.symm
      rfl
  | @single id ids piece pieces used hdraft hrest ih =>
      intro shapes hshapes
      cases shapes with
      | nil => cases hshapes
      | cons s shapes =>
          obtain ⟨rfl, htail⟩ := List.cons.inj hshapes
          have hone : s.count = 1 := by
            cases s with
            | leaf kind value => rw [Shape.count]
            | range kind r => rw [Shape.count]
            | list kind children => cases hdraft
          rw [List.length_cons, ih shapes htail, List.map_cons, List.sum_cons, hone, Nat.add_comm]
  | @list id ids kind members children inner pieces used hget hmembers hrest ihm ihr =>
      intro shapes hshapes
      cases shapes with
      | nil => cases hshapes
      | cons s shapes =>
          obtain ⟨heq, htail⟩ := List.cons.inj hshapes
          obtain rfl : .list kind children = s := by simpa using heq
          rw [List.length_cons, List.length_append, ihm children rfl, ihr shapes htail,
            List.map_cons, List.sum_cons, Shape.count]
          omega

/-- **Every node that is planted stands below the root**, and there once. -/
theorem Holds.perm_below {id : Nat} {s : Shape} (h : p.Holds [id] [.shape s] used)
    (howns : p.Owns used) : ((p.plant .empty id).2.below (p.plant .empty id).1).Perm
      (List.range (p.plant .empty id).2.size) := by
  have hgrafts := h.plant howns .empty
  have hnodup : ((p.plant .empty id).2.below (p.plant .empty id).1).Nodup := by
    simpa using hgrafts.nodup
  have hshape : (p.plant .empty id).2.shape (p.plant .empty id).1 = s := by
    simpa using hgrafts.shapes_eq
  have hcount : used.length = s.count := by simpa using h.length_used [s] rfl
  refine (List.subperm_of_subset hnodup ?_).perm_of_length_le ?_
  · intro j hj
    exact List.mem_range.mpr (hgrafts.below_lt (by simpa using hj))
  · rw [List.length_range, Forest.length_below, hshape, h.size_plant howns, hcount]
    simp [Forest.size, Forest.empty]

end Pool

end BraceExpansion
