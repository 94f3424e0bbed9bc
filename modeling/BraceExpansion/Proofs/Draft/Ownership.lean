import BraceExpansion.Draft.Pool
import BraceExpansion.Proofs.Shape
import Mathlib.Data.List.Perm.Basic
import Mathlib.Data.List.Nodup

/-!
# Which slots a pool uses, and for what

A pool is memory: drafts refer to each other by slots, slots are changed in place, and a released
slot comes back with something else in it.  Everything that is proved about stacks and compilers
rests on two statements about it.

**Ownership.**  `Pool.Owns p used` says that the slots in `used` and the free slots are together
all slots, each once.  So nothing that is in use is handed out again, and nothing is lost.

**Contents.**  `Pool.Holds p ids pieces used` says that the slots `ids` hold `pieces`, that is to
say plain trees and marks, and that `used` are exactly the slots this takes, members and all.  Lists
have shapes for members, so there is no mark inside a list.  `Pool.Holds.frame` is the frame rule: a
pool that agrees on `used` holds the same.
-/

namespace BraceExpansion

/-- A draft with everything below it: a finished structure, or a mark. -/
inductive Piece
  | shape (s : Shape)
  | mark (mark : Mark) (text : Bytes)

namespace Piece

/-- The draft of a piece that has no members. -/
def draft? : Piece → Option Draft
  | .shape (.leaf kind text) => some (.leaf kind text.toArray)
  | .shape (.range kind p) => some (.range kind p)
  | .shape (.list _ _) => none
  | .mark m text => some (.mark m text.toArray)

end Piece

namespace Pool

variable {p q : Pool} {used : List Nat}

/-! ## Ownership -/

/-- The slots in use and the free slots are all slots, each once. -/
def Owns (p : Pool) (used : List Nat) : Prop := (used ++ p.free).Perm (List.range p.slots.size)

lemma Owns.perm {used' : List Nat} (h : p.Owns used) (hperm : used'.Perm used) : p.Owns used' :=
  (hperm.append_right p.free).trans h

lemma Owns.nodup (h : p.Owns used) : (used ++ p.free).Nodup :=
  h.nodup_iff.mpr List.nodup_range

lemma Owns.nodup_used (h : p.Owns used) : used.Nodup := (List.nodup_append.mp h.nodup).1

lemma Owns.lt_size (h : p.Owns used) {id : Nat} (hid : id ∈ used) : id < p.slots.size :=
  List.mem_range.mp (h.subset (List.mem_append_left _ hid))

lemma Owns.free_lt_size (h : p.Owns used) {id : Nat} (hid : id ∈ p.free) : id < p.slots.size :=
  List.mem_range.mp (h.subset (List.mem_append_right _ hid))

lemma Owns.length_le (h : p.Owns used) : used.length ≤ p.slots.size := by
  have := h.length_eq
  simp only [List.length_append, List.length_range] at this
  omega

lemma owns_releaseAll (p : Pool) : p.releaseAll.Owns [] := by
  simp [Owns, releaseAll]

lemma owns_set {id : Nat} {d : Draft} : (p.set id d).Owns used ↔ p.Owns used := by
  simp [Owns, set]

lemma Owns.set (h : p.Owns used) (id : Nat) (d : Draft) : (p.set id d).Owns used := owns_set.mpr h

lemma Owns.release {id : Nat} (h : p.Owns (id :: used)) : (p.release id).Owns used :=
  List.perm_middle.trans h

@[simp] lemma get_release (p : Pool) (id j : Nat) : (p.release id).get j = p.get j := rfl

/-- What a new draft does to a pool. -/
lemma insert_eq (p : Pool) (d : Draft) :
    p.insert d = match p.free with
      | id :: free => (id, ⟨p.slots.setIfInBounds id d, free⟩)
      | [] => (p.slots.size, ⟨p.slots.push d, []⟩) := by
  obtain ⟨slots, free⟩ := p
  cases free <;> rfl

/-- A new draft stands in a slot that was not in use, and changes none that was. -/
lemma Owns.insert (h : p.Owns used) (d : Draft) :
    (p.insert d).2.Owns ((p.insert d).1 :: used) ∧ (p.insert d).2.get (p.insert d).1 = d ∧
      ∀ j ∈ used, (p.insert d).2.get j = p.get j := by
  rw [insert_eq]
  cases hfree : p.free with
  | cons id free =>
      have hid : id < p.slots.size := h.free_lt_size (by simp [hfree])
      refine ⟨?_, ?_, ?_⟩
      · have hperm : (id :: used ++ free).Perm (used ++ p.free) := by
          rw [hfree]; exact List.perm_middle.symm
        simpa [Owns] using hperm.trans h
      · exact get_set_self hid d
      · intro j hj
        refine get_set_of_ne (p := p) ?_ d
        rintro rfl
        exact (List.nodup_append.mp h.nodup).2.2 _ hj _ (by simp [hfree]) rfl
  | nil =>
      have hsize := h
      rw [Owns, hfree, List.append_nil] at hsize
      refine ⟨?_, ?_, ?_⟩
      · simp only [Owns, List.append_nil, Array.size_push, List.range_succ]
        exact (List.perm_append_singleton _ _).symm.trans (hsize.append_right _)
      · simp [get]
      · intro j hj
        have hlt := h.lt_size hj
        simp [get, Array.getElem_push_lt, hlt, Nat.lt_succ_of_lt hlt]

lemma modify_eq_set {id : Nat} (h : id < p.slots.size) (f : Draft → Draft) :
    p.modify id f = p.set id (f (p.get id)) := by
  have hslots : p.slots.modify id f = p.slots.setIfInBounds id (f (p.slots.getD id default)) := by
    apply Array.ext (by simp)
    intro i hi hi'
    rw [Array.getElem_modify, Array.getElem_setIfInBounds (by simpa using hi')]
    split
    next heq => subst heq; simp
    next hne => rfl
  rw [modify, set, get, hslots]

/-! ## Contents -/

/-- The slots `ids` hold `pieces`, and this takes the slots `used`. -/
inductive Holds (p : Pool) : List Nat → List Piece → List Nat → Prop
  | nil : Holds p [] [] []
  | single {id ids piece pieces used} (hdraft : piece.draft? = some (p.get id))
      (hrest : Holds p ids pieces used) : Holds p (id :: ids) (piece :: pieces) (id :: used)
  | list {id ids kind members children inner pieces used} (hdraft : p.get id = .list kind members)
      (hmembers : Holds p members (children.map .shape) inner) (hrest : Holds p ids pieces used) :
      Holds p (id :: ids) (.shape (.list kind children) :: pieces) (id :: (inner ++ used))

namespace Holds

variable {ids ids' : List Nat} {pieces pieces' : List Piece} {used' : List Nat}

/-- **The frame rule.**  What a pool holds depends on the slots that it takes, and on no other. -/
lemma frame (h : p.Holds ids pieces used) (hsame : ∀ j ∈ used, q.get j = p.get j) :
    q.Holds ids pieces used := by
  induction h with
  | nil => exact .nil
  | @single id ids piece pieces used hdraft hrest ih =>
      refine .single ?_ (ih fun j hj => hsame j (List.mem_cons_of_mem _ hj))
      rw [hdraft, hsame id List.mem_cons_self]
  | @list id ids kind members children inner pieces used hdraft hmembers hrest ihm ihr =>
      refine .list ?_ (ihm fun j hj => hsame j ?_) (ihr fun j hj => hsame j ?_)
      · rw [hsame id List.mem_cons_self, hdraft]
      · exact List.mem_cons_of_mem _ (List.mem_append_left _ hj)
      · exact List.mem_cons_of_mem _ (List.mem_append_right _ hj)

lemma length_eq (h : p.Holds ids pieces used) : ids.length = pieces.length := by
  induction h with
  | nil => rfl
  | single _ _ ih => simp [ih]
  | list _ _ _ _ ih => simp [ih]

lemma subset (h : p.Holds ids pieces used) : ids ⊆ used := by
  induction h with
  | nil => simp
  | single _ _ ih => exact List.cons_subset_cons _ ih
  | list _ _ _ _ ih =>
      exact List.cons_subset_cons _ (List.subset_append_of_subset_right _ ih)

lemma append (h : p.Holds ids pieces used) (h' : p.Holds ids' pieces' used') :
    p.Holds (ids ++ ids') (pieces ++ pieces') (used ++ used') := by
  induction h with
  | nil => exact h'
  | single hdraft _ ih => exact .single hdraft ih
  | list hdraft hmembers _ _ ih =>
      rw [List.cons_append, List.cons_append, List.cons_append, List.append_assoc]
      exact .list hdraft hmembers ih

/-- The first piece apart. -/
lemma uncons {piece : Piece} (h : p.Holds ids (piece :: pieces) used) :
    ∃ id rest here others, ids = id :: rest ∧ used = here ++ others ∧
      p.Holds [id] [piece] here ∧ p.Holds rest pieces others := by
  cases h with
  | @single id ids _ _ used hdraft hrest =>
      exact ⟨id, ids, [id], used, rfl, rfl, .single hdraft .nil, hrest⟩
  | @list id ids kind members children inner _ used hdraft hmembers hrest =>
      refine ⟨id, ids, id :: (inner ++ []), used, rfl, by simp, .list hdraft hmembers .nil, hrest⟩

/-- The pieces above a place and the pieces below it apart. -/
lemma split {upper lower : List Piece} (h : p.Holds ids (upper ++ lower) used) :
    ∃ above below usedAbove usedBelow, ids = above ++ below ∧ used = usedAbove ++ usedBelow ∧
      p.Holds above upper usedAbove ∧ p.Holds below lower usedBelow := by
  induction upper generalizing ids used with
  | nil => exact ⟨[], ids, [], used, rfl, rfl, .nil, h⟩
  | cons piece upper ih =>
      obtain ⟨id, rest, here, others, rfl, rfl, hhere, hrest⟩ := uncons h
      obtain ⟨above, below, usedAbove, usedBelow, rfl, rfl, habove, hbelow⟩ := ih hrest
      exact ⟨id :: above, below, here ++ usedAbove, usedBelow, rfl, by simp, hhere.append habove,
        hbelow⟩

lemma reverse (h : p.Holds ids pieces used) :
    ∃ used', used'.Perm used ∧ p.Holds ids.reverse pieces.reverse used' := by
  induction pieces generalizing ids used with
  | nil => cases h; exact ⟨[], .refl _, .nil⟩
  | cons piece pieces ih =>
      obtain ⟨id, rest, here, others, rfl, rfl, hhere, hrest⟩ := uncons h
      obtain ⟨used', hperm, hreverse⟩ := ih hrest
      refine ⟨used' ++ here, ?_, ?_⟩
      · exact List.perm_append_comm.trans (hperm.append_left here)
      · rw [List.reverse_cons, List.reverse_cons]
        exact hreverse.append hhere

/-- Without lists, only the slots themselves are taken. -/
lemma used_eq (h : p.Holds ids pieces used) (hflat : ∀ piece ∈ pieces, piece.draft? ≠ none) :
    used = ids := by
  induction h with
  | nil => rfl
  | single _ _ ih => rw [ih fun piece hp => hflat piece (List.mem_cons_of_mem _ hp)]
  | list _ _ _ _ _ => exact absurd rfl (hflat _ List.mem_cons_self)

end Holds

end Pool

end BraceExpansion
