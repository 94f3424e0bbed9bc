import BraceExpansion.Proofs.Draft.Ownership
import BraceExpansion.Proofs.Forest.Unfolding

/-!
# From the pool to a forest

`Pool.plant` copies what a slot holds, members first, into nodes with rising numbers.

`Forest.Grafts f g roots shapes` says what such a copy does to a forest: `g` is `f` with more nodes,
`roots` unfold to `shapes` in it, and what stands below them is new and nowhere shared.  Grafts one
after the other are a graft (`Grafts.append`), and so is a list of grafted nodes (`Grafts.list`).
**`Pool.Holds.plant`** puts these together along the contents of the pool; the depth that
`plantWithin` counts down is never used up, because every level takes a slot of its own.
-/

namespace BraceExpansion

namespace Forest

variable {f g h : Forest} {roots roots' : List Nat} {shapes shapes' : List Shape}

/-- `g` is `f` with new nodes, among them `roots`, below which stand `shapes` and nothing shared. -/
structure Grafts (f g : Forest) (roots : List Nat) (shapes : List Shape) : Prop where
  grows : f.Extends g
  lt_size : ∀ r ∈ roots, r < g.size
  shapes_eq : roots.map g.shape = shapes
  fresh : ∀ j ∈ roots.flatMap g.below, f.size ≤ j
  nodup : (roots.flatMap g.below).Nodup

lemma grafts_nil (f : Forest) : f.Grafts f [] [] where
  grows := Extends.refl f
  lt_size := by simp
  shapes_eq := rfl
  fresh := by simp
  nodup := by simp

lemma Grafts.below_lt (hg : f.Grafts g roots shapes) {j : Nat}
    (hj : j ∈ roots.flatMap g.below) : j < g.size := by
  rcases List.mem_flatMap.mp hj with ⟨r, hr, hj⟩
  have hle := le_of_mem_below hj
  have hlt := hg.lt_size r hr
  omega

/-- A graft and then another. -/
lemma Grafts.append (hg : f.Grafts g roots shapes) (hh : g.Grafts h roots' shapes') :
    f.Grafts h (roots ++ roots') (shapes ++ shapes') := by
  have hbelow : roots.flatMap h.below = roots.flatMap g.below := by
    refine List.flatMap_congr ?_
    intro r hr
    exact hh.grows.below_eq (hg.lt_size r hr)
  have hshape : roots.map h.shape = roots.map g.shape := by
    refine List.map_congr_left ?_
    intro r hr
    exact hh.grows.shape_eq (hg.lt_size r hr)
  have hle := hg.grows.size_le
  refine ⟨hg.grows.trans hh.grows, ?_, ?_, ?_, ?_⟩
  · intro r hr
    rcases List.mem_append.mp hr with hr | hr
    · exact Nat.lt_of_lt_of_le (hg.lt_size r hr) hh.grows.size_le
    · exact hh.lt_size r hr
  · rw [List.map_append, hshape, hg.shapes_eq, hh.shapes_eq]
  · intro j hj
    rw [List.flatMap_append, hbelow] at hj
    rcases List.mem_append.mp hj with hj | hj
    · exact hg.fresh j hj
    · exact Nat.le_trans hle (hh.fresh j hj)
  · rw [List.flatMap_append, hbelow, List.nodup_append]
    refine ⟨hg.nodup, hh.nodup, ?_⟩
    rintro i hi j hj rfl
    have hlt := hg.below_lt hi
    have hge := hh.fresh i hj
    omega

/-- A new node above grafted ones. -/
lemma Grafts.push (hg : f.Grafts g roots shapes) {n : Node} (hn : n.children = roots)
    (hlt : ∀ c ∈ n.children, c < g.nodes.size) {s : Shape}
    (hs : (g.push n hlt).shape g.size = s) : f.Grafts (g.push n hlt) [g.size] [s] := by
  have hext := extends_push g n hlt
  have hbelow : (g.push n hlt).below g.size = g.size :: roots.flatMap g.below := by
    rw [below_eq, node_push_self, hn]
    congr 1
    refine List.flatMap_congr ?_
    intro r hr
    exact hext.below_eq (hg.lt_size r hr)
  refine ⟨hg.grows.trans hext, ?_, ?_, ?_, ?_⟩
  · simp
  · simp [hs]
  · intro j hj
    rw [List.flatMap_singleton, hbelow] at hj
    rcases List.mem_cons.mp hj with rfl | hj
    · exact hg.grows.size_le
    · exact hg.fresh j hj
  · rw [List.flatMap_singleton, hbelow, List.nodup_cons]
    refine ⟨?_, hg.nodup⟩
    intro hmem
    have hlt := hg.below_lt hmem
    omega

lemma grafts_leaf (f : Forest) (kind : LeafKind) (value : Bytes) :
    f.Grafts (f.leaf kind value).2 [(f.leaf kind value).1] [.leaf kind value] := by
  refine (grafts_nil f).push (n := .leaf kind value) rfl (by simp [Node.children]) ?_
  exact shape_leaf (node_push_self f _ _)

lemma grafts_range (f : Forest) (kind : RangeKind) (p : Progression) :
    f.Grafts (f.range kind p).2 [(f.range kind p).1] [.range kind p] := by
  refine (grafts_nil f).push (n := .range kind p) rfl (by simp [Node.children]) ?_
  exact shape_range (node_push_self f _ _)

lemma Grafts.list (hg : f.Grafts g roots shapes) (kind : ListKind) :
    f.Grafts (g.list kind roots).2 [(g.list kind roots).1] [.list kind shapes] := by
  have hroots : roots.filter (· < g.nodes.size) = roots := by
    rw [List.filter_eq_self]
    intro r hr
    exact decide_eq_true (hg.lt_size r hr)
  have hlt : ∀ c ∈ (Node.list kind (roots.filter (· < g.nodes.size))).children,
      c < g.nodes.size := by simp [Node.children]
  refine hg.push (n := .list kind (roots.filter (· < g.nodes.size))) hroots hlt ?_
  have hnode := node_push_self g (.list kind (roots.filter (· < g.nodes.size))) hlt
  have hmap := congrArg (List.map (g.push _ hlt).shape) hroots
  rw [shape_list hnode, hmap, ← hg.shapes_eq]
  congr 1
  refine List.map_congr_left ?_
  intro r hr
  exact (extends_push g _ _).shape_eq (hg.lt_size r hr)

end Forest

namespace Pool

variable {p : Pool} {ids used : List Nat}

/-- The drafts in several slots as nodes, with their numbers behind those that are there. -/
def plantAll (p : Pool) (depth : Nat) (start : Array Nat × Forest) (ids : List Nat) :
    Array Nat × Forest :=
  ids.foldl
    (fun (planted, f) member =>
      let (node, f) := p.plantWithin depth f member
      (planted.push node, f))
    start

lemma plantAll_cons (depth : Nat) (planted : Array Nat) (f : Forest) (id : Nat) (ids : List Nat) :
    p.plantAll depth (planted, f) (id :: ids)
      = p.plantAll depth (planted.push (p.plantWithin depth f id).1, (p.plantWithin depth f id).2)
          ids := rfl

lemma plantWithin_list {id depth : Nat} {kind : ListKind} {members : List Nat}
    (hget : p.get id = .list kind members) (f : Forest) :
    p.plantWithin (depth + 1) f id =
      (p.plantAll depth (#[], f) members).2.list kind
        (p.plantAll depth (#[], f) members).1.toList := by
  rw [plantWithin.eq_def, hget]
  rfl

/-- A slot without members becomes a node. -/
lemma grafts_single {id : Nat} {s : Shape} (depth : Nat)
    (hdraft : Piece.draft? (.shape s) = some (p.get id)) (f : Forest) :
    f.Grafts (p.plantWithin depth f id).2 [(p.plantWithin depth f id).1] [s] := by
  match s, hdraft with
  | .leaf kind text, hdraft =>
    have hplant : p.plantWithin depth f id = f.leaf kind text := by
      rw [plantWithin.eq_def, ← Option.some.inj hdraft]
    rw [hplant]
    exact f.grafts_leaf kind text
  | .range kind r, hdraft =>
    have hplant : p.plantWithin depth f id = f.range kind r := by
      rw [plantWithin.eq_def, ← Option.some.inj hdraft]
    rw [hplant]
    exact f.grafts_range kind r

/-- What slots hold is planted as it is. -/
lemma Holds.plantAll {pieces : List Piece} (h : p.Holds ids pieces used) :
    ∀ (shapes : List Shape), pieces = shapes.map .shape → ∀ (depth : Nat), used.length ≤ depth →
      ∀ planted f, ∃ roots, (p.plantAll depth (planted, f) ids).1.toList = planted.toList ++ roots ∧
        f.Grafts (p.plantAll depth (planted, f) ids).2 roots shapes := by
  induction h with
  | nil =>
      intro shapes hshapes depth _ planted f
      obtain rfl : shapes = [] := by simpa using hshapes.symm
      exact ⟨[], by simp [Pool.plantAll], f.grafts_nil⟩
  | @single id ids piece pieces used hdraft hrest ih =>
      intro shapes hshapes depth hdepth planted f
      obtain ⟨s, shapes, rfl⟩ : ∃ s rest, shapes = s :: rest := by
        cases shapes with
        | nil => cases hshapes
        | cons s rest => exact ⟨s, rest, rfl⟩
      obtain ⟨rfl, htail⟩ := List.cons.inj hshapes
      have hhere := grafts_single depth hdraft f
      rw [List.length_cons] at hdepth
      obtain ⟨roots, hroots, hgrafts⟩ := ih shapes htail depth (by omega)
        (planted.push (p.plantWithin depth f id).1) (p.plantWithin depth f id).2
      refine ⟨(p.plantWithin depth f id).1 :: roots, ?_, ?_⟩
      · rw [plantAll_cons, hroots]
        simp
      · rw [plantAll_cons]
        exact hhere.append hgrafts
  | @list id ids kind members children inner pieces used hget hmembers hrest ihm ihr =>
      intro shapes hshapes depth hdepth planted f
      obtain ⟨s, shapes, rfl⟩ : ∃ s rest, shapes = s :: rest := by
        cases shapes with
        | nil => cases hshapes
        | cons s rest => exact ⟨s, rest, rfl⟩
      obtain ⟨heq, htail⟩ := List.cons.inj hshapes
      obtain rfl : .list kind children = s := by simpa using heq
      rw [List.length_cons, List.length_append] at hdepth
      obtain ⟨depth, rfl⟩ : ∃ d, depth = d + 1 := ⟨depth - 1, by omega⟩
      -- the members take slots of their own, so one level less is enough for them
      obtain ⟨nodes, hnodes, hinner⟩ := ihm _ rfl depth (by omega) #[] f
      have hhere := hinner.list kind
      rw [List.nil_append] at hnodes
      rw [← hnodes, ← plantWithin_list hget] at hhere
      obtain ⟨roots, hroots, hgrafts⟩ := ihr shapes htail (depth + 1) (by omega)
        (planted.push (p.plantWithin (depth + 1) f id).1) (p.plantWithin (depth + 1) f id).2
      refine ⟨(p.plantWithin (depth + 1) f id).1 :: roots, ?_, ?_⟩
      · rw [plantAll_cons, hroots]
        simp
      · rw [plantAll_cons]
        exact hhere.append hgrafts

/-- **Planting copies what a slot holds**, in nodes of which none is shared. -/
theorem Holds.plant {id : Nat} {s : Shape} (h : p.Holds [id] [.shape s] used) (howns : p.Owns used)
    (f : Forest) : f.Grafts (p.plant f id).2 [(p.plant f id).1] [s] := by
  obtain ⟨roots, hroots, hgrafts⟩ := h.plantAll [s] rfl _ howns.length_le #[] f
  have hroot : roots = [(p.plant f id).1] := by
    rw [plantAll_cons] at hroots
    simpa [Pool.plantAll, Pool.plant] using hroots.symm
  rw [hroot] at hgrafts
  exact hgrafts

end Pool

end BraceExpansion
