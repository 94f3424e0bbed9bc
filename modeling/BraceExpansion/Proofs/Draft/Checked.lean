import BraceExpansion.Proofs.Draft.Demotion
import BraceExpansion.Proofs.Draft.Planting

/-!
# Stacks that look before they reach

The operations of pools and stacks are total: a slot or a position that does not exist reads as a
default, and what is written there is lost.  Here they are once more with nothing taken for granted.
Every access to a slot or to a position is checked, and so is every difference of positions; where
one fails, the result is `none`.

`WorkStack.Bounded` says that the slots on a stack and the free slots of its pool exist.  This is
enough for all of them: each lemma below says of one operation that on such a stack it goes through,
that it does what the unchecked operation does, and that the stack stays bounded.
-/

namespace BraceExpansion

/-- A fold of steps that go through where `P` holds of what is left, and keep it. -/
lemma foldlM_eq_some {σ α : Type} {f : σ → α → Option σ} {g : σ → α → σ} (P : σ → List α → Prop)
    (hstep : ∀ s x xs, P s (x :: xs) → f s x = some (g s x) ∧ P (g s x) xs) {s : σ} {xs : List α}
    (h : P s xs) : xs.foldlM f s = some (xs.foldl g s) ∧ P (xs.foldl g s) [] := by
  induction xs generalizing s with
  | nil => exact ⟨rfl, h⟩
  | cons x xs ih =>
      obtain ⟨hx, hP⟩ := hstep s x xs h
      rw [List.foldlM_cons, hx]
      exact ih hP

/-! ## Pools -/

namespace Pool

namespace Checked

def get (p : Pool) (id : Nat) : Option Draft := p.slots[id]?

def set (p : Pool) (id : Nat) (d : Draft) : Option Pool :=
  if id < p.slots.size then some (p.set id d) else none

def modify (p : Pool) (id : Nat) (f : Draft → Draft) : Option Pool := do
  let d ← get p id
  set p id (f d)

def insert : Pool → Draft → Option (Nat × Pool)
  | ⟨slots, id :: free⟩, d => do
    let pool ← set ⟨slots, free⟩ id d
    some (id, pool)
  | ⟨slots, []⟩, d => some (slots.size, ⟨slots.push d, []⟩)

end Checked

variable {p : Pool} {n id : Nat}

/-- A pool of `n` slots, with no others free. -/
structure Sized (p : Pool) (n : Nat) : Prop where
  size_eq : p.slots.size = n
  free_lt : ∀ id ∈ p.free, id < n

lemma Owns.sized {used : List Nat} (h : p.Owns used) : p.Sized p.slots.size :=
  ⟨rfl, fun _ hid => h.free_lt_size hid⟩

namespace Sized

lemma get_eq (h : p.Sized n) (hid : id < n) : Checked.get p id = some (p.get id) := by
  rw [← h.size_eq] at hid
  simp [Checked.get, Pool.get, hid]

lemma set_eq (h : p.Sized n) (hid : id < n) (d : Draft) :
    Checked.set p id d = some (p.set id d) := by
  rw [← h.size_eq] at hid
  rw [Checked.set, if_pos hid]

lemma modify_eq (h : p.Sized n) (hid : id < n) (f : Draft → Draft) :
    Checked.modify p id f = some (p.modify id f) := by
  have hlt : id < p.slots.size := by rwa [h.size_eq]
  rw [Checked.modify, h.get_eq hid, Pool.modify_eq_set hlt]
  exact h.set_eq hid _

lemma set (h : p.Sized n) (id : Nat) (d : Draft) : (p.set id d).Sized n :=
  ⟨by simp [Pool.set, h.size_eq], h.free_lt⟩

lemma modify (h : p.Sized n) (id : Nat) (f : Draft → Draft) : (p.modify id f).Sized n :=
  ⟨by simp [Pool.modify, h.size_eq], h.free_lt⟩

lemma release (h : p.Sized n) (hid : id < n) : (p.release id).Sized n := by
  refine ⟨h.size_eq, ?_⟩
  intro j hj
  rcases List.mem_cons.mp hj with rfl | hj
  · exact hid
  · exact h.free_lt j hj

lemma foldl_release (h : p.Sized n) (ids : List Nat) (hids : ∀ id ∈ ids, id < n) :
    (ids.foldl Pool.release p).Sized n := by
  induction ids generalizing p with
  | nil => exact h
  | cons id ids ih =>
      exact ih (h.release (hids id List.mem_cons_self)) fun j hj =>
        hids j (List.mem_cons_of_mem _ hj)

/-- A new draft goes into a slot that exists, or makes one. -/
lemma insert_eq (h : p.Sized n) (d : Draft) : Checked.insert p d = some (p.insert d) ∧
    ∃ m, n ≤ m ∧ (p.insert d).1 < m ∧ (p.insert d).2.Sized m := by
  obtain ⟨slots, free⟩ := p
  cases free with
  | nil =>
      refine ⟨rfl, n + 1, Nat.le_succ n, ?_, ?_⟩
      · have hsize : slots.size = n := h.size_eq
        simp only [Pool.insert]
        omega
      · refine ⟨?_, by simp [Pool.insert]⟩
        have hsize : slots.size = n := h.size_eq
        simp [Pool.insert, hsize]
  | cons id free =>
      have hid : id < n := h.free_lt id List.mem_cons_self
      have hrest : Sized ⟨slots, free⟩ n :=
        ⟨h.size_eq, fun j hj => h.free_lt j (List.mem_cons_of_mem _ hj)⟩
      refine ⟨?_, n, Nat.le_refl n, hid, hrest.set id d⟩
      rw [Checked.insert, hrest.set_eq hid]
      rfl

end Sized

end Pool

/-! ## Stacks -/

namespace WorkStack

namespace Checked

/-- The draft at a position. -/
def get (w : WorkStack) (i : Nat) : Option Draft := do
  let id ← w.items[i]?
  Pool.Checked.get w.pool id

/-- How many drafts there are from a position on. -/
def sizeFrom (w : WorkStack) (offset : Nat) : Option Nat :=
  if offset ≤ w.size then some (w.size - offset) else none

/-- The slots from a position on, and the slots below it. -/
def cut (w : WorkStack) (offset : Nat) : Option (List Nat × Array Nat) :=
  if offset ≤ w.size then some ((w.items.extract offset).toList, w.items.shrink offset) else none

def push (w : WorkStack) (d : Draft) : Option WorkStack := do
  let (id, pool) ← Pool.Checked.insert w.pool d
  some ⟨pool, w.items.push id⟩

def appendLiteral (w : WorkStack) (text : Bytes) : Option WorkStack :=
  match w.items.back? with
  | some top => do
    let d ← Pool.Checked.get w.pool top
    if d.isLiteral then
      let pool ← Pool.Checked.modify w.pool top (·.append text.toArray)
      some { w with pool := pool }
    else push w (.leaf .literal text.toArray)
  | none => push w (.leaf .literal text.toArray)

/-! ### Lists -/

/-- The members of a list of this kind, once it has taken up the draft in a slot. -/
def contribute (pool : Pool) (kind : ListKind) (members : List Nat) (id : Nat) :
    Option (List Nat) := do
  let d ← Pool.Checked.get pool id
  match d with
  | .mark _ _ => some members
  | .list k inner => some (members ++ if k = kind then inner else [id])
  | _ => some (members ++ [id])

def absorb (kind : ListKind) (pool : Pool) (id : Nat) : Option Pool := do
  let d ← Pool.Checked.get pool id
  match d with
  | .mark _ _ => some (pool.release id)
  | .list k _ =>
    if k = kind then
      let pool ← Pool.Checked.set pool id (.list k [])
      some (pool.release id)
    else some pool
  | _ => some pool

def gather (w : WorkStack) (kind : ListKind) (offset : Nat) : Option WorkStack := do
  let (id, pool) ← Pool.Checked.insert w.pool (.list kind [])
  let (taken, left) ← cut w offset
  let members ← taken.foldlM (contribute pool kind) []
  let pool ← taken.foldlM (absorb kind) pool
  let pool ← Pool.Checked.set pool id (.list kind members)
  some ⟨pool, left.push id⟩

def join (w : WorkStack) (offset : Nat) : Option WorkStack := do
  let size ← sizeFrom w offset
  match size with
  | 0 => push w (.leaf .empty #[])
  | 1 => some w
  | _ => gather w .concat offset

def aboveMark (w : WorkStack) : Nat → Option Nat
  | 0 => some 0
  | n + 1 => do
    let d ← get w n
    if d.isMark then some (n + 1) else aboveMark w n

def joinSegment (w : WorkStack) : Option WorkStack := do
  let offset ← aboveMark w w.size
  join w offset

/-! ### Back to text -/

/-- What is kept takes the place of what was there, so that there has to be one. -/
def keep (size : Nat) (kept : Array Nat) (id : Nat) : Option (Array Nat) :=
  if kept.size < size then some (kept.push id) else none

def Demotion.step (size : Nat) : Demotion → Nat → Option Demotion
  | ⟨pool, kept, run⟩, id => do
    let d ← Pool.Checked.get pool id
    match d.foldable?, run with
    | some text, some first =>
      let pool ← Pool.Checked.modify pool first (·.append text)
      some ⟨pool.release id, kept, some first⟩
    | some text, none =>
      let pool ← Pool.Checked.set pool id (.leaf .literal text)
      let kept ← keep size kept id
      some ⟨pool, kept, some id⟩
    | none, _ =>
      let kept ← keep size kept id
      some ⟨pool, kept, none⟩

def demotionStart (w : WorkStack) (offset : Nat) (joinBelow : Bool) : Option Nat :=
  if joinBelow && 0 < offset then do
    let d ← get w (offset - 1)
    some (if d.isLiteral then offset - 1 else offset)
  else some offset

def demote (w : WorkStack) (offset : Nat) (joinBelow : Bool) : Option WorkStack := do
  let start ← demotionStart w offset joinBelow
  let (upper, lower) ← cut w start
  let done ← upper.foldlM (Demotion.step w.size) ⟨w.pool, lower, none⟩
  some ⟨done.pool, done.kept⟩

/-! ### Ranges -/

/-- The drafts from a position on. -/
def draftsFrom (w : WorkStack) (offset : Nat) : Option (List Draft) := do
  let (upper, _) ← cut w offset
  upper.mapM (Pool.Checked.get w.pool)

def closeRange (w : WorkStack) (options : CompileOptions) (base : Nat) :
    Option (Option WorkStack) := do
  let drafts ← draftsFrom w base
  match readRange? options drafts with
  | none => some none
  | some (kind, progression) =>
    let (upper, lower) ← cut w base
    let w ← push ⟨upper.foldl Pool.release w.pool, lower⟩ (.range kind progression)
    some (some w)

end Checked

variable {w : WorkStack} {n i offset : Nat}

/-- All slots that the stack knows of exist. -/
def Bounded (w : WorkStack) : Prop := ∃ n, w.pool.Sized n ∧ ∀ id ∈ w.items.toList, id < n

/-- The same of a stack that is being turned into text, with `ids` left: there is room for all of
them. -/
structure Demotion.Fits (d : Demotion) (n size : Nat) (ids : List Nat) : Prop where
  pool : d.pool.Sized n
  kept : ∀ id ∈ d.kept.toList, id < n
  run : ∀ first, d.run = some first → first < n
  left : ∀ id ∈ ids, id < n
  room : d.kept.size + ids.length ≤ size

lemma Shows.bounded {pieces : List Piece} (h : w.Shows pieces) : w.Bounded := by
  obtain ⟨used, hholds, howns⟩ := h
  refine ⟨_, howns.sized, ?_⟩
  intro id hid
  exact howns.lt_size (hholds.subset (List.mem_reverse.mpr hid))

/-! ### Sizes -/

lemma aboveMark_le (w : WorkStack) (n : Nat) : w.aboveMark n ≤ n := by
  induction n with
  | zero => exact Nat.le_refl 0
  | succ n ih =>
      rw [aboveMark]
      split
      · exact Nat.le_refl _
      · omega

/-- What is above a mark is above all marks below that. -/
lemma lt_aboveMark (hmark : (w.get i).isMark = true) (hi : i < n) : i < w.aboveMark n := by
  induction n with
  | zero => omega
  | succ n ih =>
      rw [aboveMark]
      split
      · exact hi
      next hnot =>
        rcases Nat.lt_succ_iff_lt_or_eq.mp hi with hi | rfl
        · exact ih hi
        · exact absurd hmark hnot

lemma demotionStart_le (w : WorkStack) (offset : Nat) (joinBelow : Bool) :
    w.demotionStart offset joinBelow ≤ offset := by
  rw [demotionStart]
  split
  · omega
  · exact Nat.le_refl _

lemma size_push (w : WorkStack) (d : Draft) : (w.push d).size = w.size + 1 := by
  simp [push_eq, size]

/-- A join leaves one draft above what it does not touch. -/
lemma size_join (hoffset : offset ≤ w.size) : (w.join offset).size = offset + 1 := by
  have hgather : (w.gather .concat offset).size = offset + 1 := by
    have hmin : min offset w.items.size = offset := Nat.min_eq_left hoffset
    simp [gather_eq, size, hmin]
  cases hcount : w.size - offset with
  | zero =>
      simp only [join, hcount, size_push]
      omega
  | succ n =>
      cases n with
      | zero =>
          simp only [join, hcount]
          omega
      | succ n =>
          simp only [join, hcount]
          exact hgather

namespace Bounded

lemma lt_of_getElem? {id : Nat} (hitems : ∀ id ∈ w.items.toList, id < n)
    (hid : w.items[i]? = some id) : id < n :=
  hitems id (Array.mem_toList_iff.mpr (Array.mem_of_getElem? hid))

lemma get_eq (h : w.Bounded) (hi : i < w.size) : Checked.get w i = some (w.get i) := by
  obtain ⟨n, hsized, hitems⟩ := h
  have hlt : i < w.items.size := hi
  have hget : w.items[i]? = some w.items[i] := Array.getElem?_eq_getElem hlt
  have hgetD : w.items.getD i 0 = w.items[i] := by simp [hlt]
  rw [Checked.get, hget, WorkStack.get, hgetD]
  exact hsized.get_eq (lt_of_getElem? hitems hget)

lemma sizeFrom_eq (hoffset : offset ≤ w.size) :
    Checked.sizeFrom w offset = some (w.size - offset) := by
  rw [Checked.sizeFrom, if_pos hoffset]

lemma cut_eq (hoffset : offset ≤ w.size) : Checked.cut w offset
    = some ((w.items.extract offset).toList, w.items.shrink offset) := by
  rw [Checked.cut, if_pos hoffset]

lemma push (h : w.Bounded) (d : Draft) :
    Checked.push w d = some (w.push d) ∧ (w.push d).Bounded := by
  obtain ⟨n, hsized, hitems⟩ := h
  obtain ⟨hinsert, m, hle, hlt, hsized'⟩ := hsized.insert_eq d
  refine ⟨?_, m, hsized', ?_⟩
  · rw [Checked.push, hinsert]
    rfl
  · intro id hid
    rw [push_eq, Array.toList_push] at hid
    rcases List.mem_append.mp hid with hid | hid
    · exact Nat.lt_of_lt_of_le (hitems id hid) hle
    · rw [List.mem_singleton] at hid
      rwa [hid]

lemma appendLiteral (h : w.Bounded) (text : Bytes) :
    Checked.appendLiteral w text = some (w.appendLiteral text) := by
  rw [Checked.appendLiteral, WorkStack.appendLiteral]
  cases hback : w.items.back? with
  | none => exact (h.push _).1
  | some top =>
      obtain ⟨n, hsized, hitems⟩ := h
      have htop : top < n := hitems top (Array.mem_toList_iff.mpr (Array.mem_of_back? hback))
      simp only [hsized.get_eq htop, hsized.modify_eq htop, Option.bind_eq_bind, Option.bind_some]
      split
      · rfl
      · exact (Bounded.push ⟨n, hsized, hitems⟩ _).1

/-! ### Lists -/

lemma foldlM_contribute {p : Pool} {ids : List Nat} (h : p.Sized n) (hids : ∀ id ∈ ids, id < n)
    (kind : ListKind) : ids.foldlM (Checked.contribute p kind) []
      = some (ids.flatMap (contribution p kind)) := by
  have hstep : ∀ members id, id < n →
      Checked.contribute p kind members id = some (members ++ contribution p kind id) := by
    intro members id hid
    simp only [Checked.contribute, h.get_eq hid, Option.bind_eq_bind, Option.bind_some,
      contribution]
    cases p.get id with
    | mark m text => simp
    | _ => rfl
  rw [List.flatMap_eq_foldl]
  refine (foldlM_eq_some (fun _ ids => ∀ id ∈ ids, id < n) ?_ hids).1
  intro members id ids hids
  exact ⟨hstep members id (hids id List.mem_cons_self),
    fun j hj => hids j (List.mem_cons_of_mem _ hj)⟩

lemma foldlM_absorb {p : Pool} {ids : List Nat} (h : p.Sized n) (hids : ∀ id ∈ ids, id < n)
    (kind : ListKind) : ids.foldlM (Checked.absorb kind) p = some (ids.foldl (absorb kind) p) ∧
      (ids.foldl (absorb kind) p).Sized n := by
  have hstep : ∀ {p : Pool} {id : Nat}, p.Sized n → id < n →
      Checked.absorb kind p id = some (absorb kind p id) ∧ (absorb kind p id).Sized n := by
    intro p id h hid
    simp only [Checked.absorb, h.get_eq hid, h.set_eq hid, Option.bind_eq_bind, Option.bind_some,
      absorb]
    cases p.get id with
    | leaf k text => exact ⟨rfl, h⟩
    | range k p => exact ⟨rfl, h⟩
    | mark m text => exact ⟨rfl, h.release hid⟩
    | list k members =>
        by_cases hk : k = kind
        · simp only [hk, if_true]
          exact ⟨trivial, (h.set id _).release hid⟩
        · simp only [hk, if_false]
          exact ⟨trivial, h⟩
  have hfold := foldlM_eq_some (f := Checked.absorb kind) (g := absorb kind)
    (fun (p : Pool) ids => p.Sized n ∧ ∀ id ∈ ids, id < n) (fun p id ids hp => by
      obtain ⟨habsorb, hsized⟩ := hstep hp.1 (hp.2 id List.mem_cons_self)
      exact ⟨habsorb, hsized, fun j hj => hp.2 j (List.mem_cons_of_mem _ hj)⟩) ⟨h, hids⟩
  exact ⟨hfold.1, hfold.2.1⟩

/-- What is above a position, and what is below it, is on the stack. -/
lemma mem_of_cut {id : Nat} (hid : id ∈ (w.items.extract offset).toList ∨
    id ∈ (w.items.shrink offset).toList) : id ∈ w.items.toList := by
  rcases hid with hid | hid
  · rw [Array.toList_extract, List.extract_eq_take_drop] at hid
    exact List.mem_of_mem_drop (List.mem_of_mem_take hid)
  · rw [Array.toList_shrink] at hid
    exact List.mem_of_mem_take hid

lemma gather (h : w.Bounded) (kind : ListKind) (hoffset : offset ≤ w.size) :
    Checked.gather w kind offset = some (w.gather kind offset) ∧
      (w.gather kind offset).Bounded := by
  obtain ⟨n, hsized, hitems⟩ := h
  obtain ⟨hinsert, m, hle, hlt, hfresh⟩ := hsized.insert_eq (.list kind [])
  have htaken : ∀ id ∈ (w.items.extract offset).toList, id < m := by
    intro id hid
    exact Nat.lt_of_lt_of_le (hitems id (mem_of_cut (Or.inl hid))) hle
  have hmembers := foldlM_contribute hfresh htaken kind
  obtain ⟨habsorb, habsorbed⟩ := foldlM_absorb hfresh htaken kind
  rw [gather_eq]
  refine ⟨?_, m, habsorbed.set _ _, ?_⟩
  · simp only [Checked.gather, hinsert, cut_eq hoffset, hmembers, habsorb, habsorbed.set_eq hlt,
      Option.bind_eq_bind, Option.bind_some]
  · intro id hid
    rw [Array.toList_push] at hid
    rcases List.mem_append.mp hid with hid | hid
    · exact Nat.lt_of_lt_of_le (hitems id (mem_of_cut (Or.inr hid))) hle
    · rw [List.mem_singleton] at hid
      rwa [hid]

lemma join (h : w.Bounded) (hoffset : offset ≤ w.size) :
    Checked.join w offset = some (w.join offset) ∧ (w.join offset).Bounded := by
  simp only [Checked.join, WorkStack.join, sizeFrom_eq hoffset, Option.bind_eq_bind,
    Option.bind_some]
  match w.size - offset with
  | 0 => exact h.push _
  | 1 => exact ⟨rfl, h⟩
  | _ + 2 => exact h.gather .concat hoffset

lemma aboveMark_eq (h : w.Bounded) (hn : n ≤ w.size) :
    Checked.aboveMark w n = some (w.aboveMark n) := by
  induction n with
  | zero => rfl
  | succ n ih =>
      simp only [Checked.aboveMark, h.get_eq (show n < w.size by omega), WorkStack.aboveMark,
        Option.bind_eq_bind, Option.bind_some]
      split
      · rfl
      · exact ih (by omega)

lemma joinSegment (h : w.Bounded) :
    Checked.joinSegment w = some w.joinSegment ∧ w.joinSegment.Bounded := by
  have hjoin := h.join (aboveMark_le w w.size)
  rw [Checked.joinSegment, h.aboveMark_eq (Nat.le_refl _), WorkStack.joinSegment]
  exact hjoin

/-! ### Back to text -/

lemma step_eq {d : Demotion} {id size : Nat} {ids : List Nat} (h : d.Fits n size (id :: ids)) :
    Checked.Demotion.step size d id = some (d.step id) ∧ (d.step id).Fits n size ids := by
  obtain ⟨pool, kept, run⟩ := d
  obtain ⟨hpool, hkept, hrun, hleft, hroom⟩ := h
  simp only [List.length_cons] at hpool hkept hrun hroom
  have hid : id < n := hleft id List.mem_cons_self
  have hids : ∀ j ∈ ids, j < n := fun j hj => hleft j (List.mem_cons_of_mem _ hj)
  have hpush : ∀ j ∈ (kept.push id).toList, j < n := by
    intro j hj
    rw [Array.toList_push] at hj
    rcases List.mem_append.mp hj with hj | hj
    · exact hkept j hj
    · rw [List.mem_singleton] at hj
      rwa [hj]
  have hpushed : (kept.push id).size + ids.length ≤ size := by
    rw [Array.size_push]
    omega
  have hkeep : Checked.keep size kept id = some (kept.push id) :=
    if_pos (show kept.size < size by omega)
  simp only [Checked.Demotion.step, hpool.get_eq hid, hkeep, Option.bind_eq_bind,
    Option.bind_some, Demotion.step]
  cases (pool.get id).foldable? with
  | none => exact ⟨rfl, hpool, hpush, by simp, hids, hpushed⟩
  | some text =>
      cases run with
      | none =>
          simp only [hpool.set_eq hid, Option.bind_some]
          refine ⟨trivial, hpool.set _ _, hpush, ?_, hids, hpushed⟩
          rintro first ⟨⟩
          exact hid
      | some first =>
          simp only [hpool.modify_eq (hrun first rfl), Option.bind_some]
          refine ⟨trivial, (hpool.modify _ _).release hid, hkept, hrun, hids, ?_⟩
          dsimp only
          omega

lemma demotionStart_eq (h : w.Bounded) (hoffset : offset ≤ w.size) (joinBelow : Bool) :
    Checked.demotionStart w offset joinBelow = some (w.demotionStart offset joinBelow) := by
  rw [Checked.demotionStart, WorkStack.demotionStart]
  by_cases hcond : (joinBelow && decide (0 < offset)) = true
  · have hpositive : 0 < offset := by
      simp only [Bool.and_eq_true, decide_eq_true_eq] at hcond
      exact hcond.2
    simp only [hcond, if_true, h.get_eq (show offset - 1 < w.size by omega), Bool.true_and,
      Option.bind_eq_bind, Option.bind_some]
  · simp only [Bool.not_eq_true] at hcond
    simp only [hcond, Bool.false_and, Bool.false_eq_true, if_false]

lemma demote (h : w.Bounded) (hoffset : offset ≤ w.size) (joinBelow : Bool) :
    Checked.demote w offset joinBelow = some (w.demote offset joinBelow) ∧
      (w.demote offset joinBelow).Bounded := by
  have hstart := h.demotionStart_eq hoffset joinBelow
  have hle := Nat.le_trans (demotionStart_le w offset joinBelow) hoffset
  have hcut := cut_eq hle
  obtain ⟨n, hsized, hitems⟩ := h
  have hbefore : Demotion.Fits ⟨w.pool, w.items.shrink (w.demotionStart offset joinBelow), none⟩ n
      w.size (w.items.extract (w.demotionStart offset joinBelow)).toList := by
    refine ⟨hsized, ?_, by simp, ?_, ?_⟩
    · intro id hid
      exact hitems id (mem_of_cut (Or.inr hid))
    · intro id hid
      exact hitems id (mem_of_cut (Or.inl hid))
    · simp only [WorkStack.size] at hle ⊢
      simp
      omega
  have hdone := foldlM_eq_some (fun (d : Demotion) ids => d.Fits n w.size ids)
    (fun _ _ _ => step_eq) hbefore
  simp only [Array.foldl_toList] at hdone
  rw [demote_eq]
  refine ⟨?_, n, hdone.2.pool, hdone.2.kept⟩
  simp only [Checked.demote, hstart, hcut, hdone.1, Option.bind_eq_bind, Option.bind_some]

/-! ### Ranges -/

lemma draftsFrom_eq (h : w.Bounded) (hoffset : offset ≤ w.size) :
    Checked.draftsFrom w offset = some (w.draftsFrom offset) := by
  obtain ⟨n, hsized, hitems⟩ := h
  have hmap : ∀ ids : List Nat, (∀ id ∈ ids, id < n) →
      ids.mapM (Pool.Checked.get w.pool) = some (ids.map w.pool.get) := by
    intro ids hids
    induction ids with
    | nil => rfl
    | cons id ids ih =>
        rw [List.mapM_cons, hsized.get_eq (hids id List.mem_cons_self),
          ih fun j hj => hids j (List.mem_cons_of_mem _ hj)]
        rfl
  simp only [Checked.draftsFrom, cut_eq hoffset, Option.bind_eq_bind, Option.bind_some]
  exact hmap _ fun id hid => hitems id (mem_of_cut (Or.inl hid))

lemma closeRange_eq (h : w.Bounded) (options : CompileOptions) (hbase : offset ≤ w.size) :
    Checked.closeRange w options offset = some (w.closeRange? options offset) := by
  simp only [Checked.closeRange, h.draftsFrom_eq hbase, cut_eq hbase, Option.bind_eq_bind,
    Option.bind_some, closeRange?]
  cases readRange? options (w.draftsFrom offset) with
  | none => rfl
  | some range =>
      obtain ⟨n, hsized, hitems⟩ := h
      have hreleased := hsized.foldl_release (w.items.extract offset).toList
        fun id hid => hitems id (mem_of_cut (Or.inl hid))
      have hpush := Bounded.push (w := ⟨_, w.items.shrink offset⟩)
        ⟨n, hreleased, fun id hid => hitems id (mem_of_cut (Or.inr hid))⟩
        (.range range.1 range.2)
      simp only [Array.foldl_toList] at hpush ⊢
      simp only [hpush.1, Option.bind_some]

end Bounded

end WorkStack

/-! ## Planting -/

namespace Pool

namespace Checked

/-- The draft in a slot as a node.  There is no punctuation in it, and no chain of members is longer
than `depth`. -/
def plantWithin (p : Pool) (depth : Nat) (f : Forest) (id : Nat) : Option (Nat × Forest) :=
  match depth, get p id with
  | _, none => none
  | _, some (.leaf kind text) => some (f.leaf kind text.toList)
  | _, some (.mark _ _) => none
  | _, some (.range kind progression) => some (f.range kind progression)
  | 0, some (.list _ _) => none
  | depth + 1, some (.list kind members) => do
    let (planted, f) ← members.foldlM
      (fun (planted, f) member => do
        let (node, f) ← plantWithin p depth f member
        some (planted.push node, f))
      ((#[] : Array Nat), f)
    some (f.list kind planted.toList)

def plant (p : Pool) (f : Forest) (id : Nat) : Option (Nat × Forest) :=
  plantWithin p p.slots.size f id

/-- The drafts in several slots as nodes. -/
def plantAll (p : Pool) (depth : Nat) (start : Array Nat × Forest) (ids : List Nat) :
    Option (Array Nat × Forest) :=
  ids.foldlM
    (fun (planted, f) member => do
      let (node, f) ← plantWithin p depth f member
      some (planted.push node, f))
    start

end Checked

variable {p : Pool} {ids used : List Nat}

lemma plantAll_checked_cons {depth id : Nat} {planted : Array Nat} {f : Forest}
    (h : Checked.plantWithin p depth f id = some (p.plantWithin depth f id)) (ids : List Nat) :
    Checked.plantAll p depth (planted, f) (id :: ids)
      = Checked.plantAll p depth (planted.push (p.plantWithin depth f id).1,
          (p.plantWithin depth f id).2) ids := by
  simp only [Checked.plantAll, List.foldlM_cons, h]
  rfl

lemma plantWithin_checked_list {id depth : Nat} {kind : ListKind} {members : List Nat}
    (hid : id < p.slots.size) (hget : p.get id = .list kind members) {f : Forest}
    (h : Checked.plantAll p depth (#[], f) members = some (p.plantAll depth (#[], f) members)) :
    Checked.plantWithin p (depth + 1) f id = some (p.plantWithin (depth + 1) f id) := by
  have hslot : Checked.get p id = some (.list kind members) := by
    rw [← hget]
    simp [Checked.get, Pool.get, hid]
  rw [Checked.plantWithin.eq_def, hslot, plantWithin_list hget]
  show (Checked.plantAll p depth (#[], f) members).bind _ = _
  rw [h]
  rfl

lemma plantWithin_checked_single {id : Nat} {s : Shape} (hid : id < p.slots.size) (depth : Nat)
    (hdraft : Piece.draft? (.shape s) = some (p.get id)) (f : Forest) :
    Checked.plantWithin p depth f id = some (p.plantWithin depth f id) := by
  have hslot : Checked.get p id = some (p.get id) := by
    simp [Checked.get, Pool.get, hid]
  cases s with
  | leaf kind text =>
      rw [Checked.plantWithin.eq_def, hslot, plantWithin.eq_def, ← Option.some.inj hdraft]
  | range kind r =>
      rw [Checked.plantWithin.eq_def, hslot, plantWithin.eq_def, ← Option.some.inj hdraft]
  | list kind children => cases hdraft

/-- Structures are planted without fail. -/
lemma Holds.plantAll_checked {pieces : List Piece} (h : p.Holds ids pieces used)
    (hused : ∀ j ∈ used, j < p.slots.size) :
    ∀ (shapes : List Shape), pieces = shapes.map .shape → ∀ (depth : Nat), used.length ≤ depth →
      ∀ start, Checked.plantAll p depth start ids = some (p.plantAll depth start ids) := by
  induction h with
  | nil =>
      intro shapes _ depth _ start
      rfl
  | @single id ids piece pieces used hdraft hrest ih =>
      rintro shapes hshapes depth hdepth ⟨planted, f⟩
      cases shapes with
      | nil => cases hshapes
      | cons s shapes =>
          obtain ⟨rfl, htail⟩ := List.cons.inj hshapes
          rw [List.length_cons] at hdepth
          have hid := hused id List.mem_cons_self
          rw [plantAll_checked_cons (plantWithin_checked_single hid depth hdraft f), plantAll_cons]
          exact ih (fun j hj => hused j (List.mem_cons_of_mem _ hj)) shapes htail depth (by omega) _
  | @list id ids kind members children inner pieces used hget hmembers hrest ihm ihr =>
      rintro shapes hshapes depth hdepth ⟨planted, f⟩
      cases shapes with
      | nil => cases hshapes
      | cons s shapes =>
          rw [List.length_cons, List.length_append] at hdepth
          obtain ⟨depth, rfl⟩ : ∃ d, depth = d + 1 := ⟨depth - 1, by omega⟩
          have hid := hused id List.mem_cons_self
          have hinner := ihm (fun j hj => hused j (List.mem_cons_of_mem _
            (List.mem_append_left _ hj))) children rfl depth (by omega) (#[], f)
          rw [plantAll_checked_cons (plantWithin_checked_list hid hget hinner), plantAll_cons]
          exact ihr (fun j hj => hused j (List.mem_cons_of_mem _ (List.mem_append_right _ hj)))
            shapes (List.cons.inj hshapes).2 (depth + 1) (by omega) _

/-- **What is planted has no punctuation in it**, and all of it exists. -/
theorem Holds.plant_checked {id : Nat} {s : Shape} (h : p.Holds [id] [.shape s] used)
    (howns : p.Owns used) (f : Forest) : Checked.plant p f id = some (p.plant f id) := by
  have hused : ∀ j ∈ used, j < p.slots.size := fun j hj => howns.lt_size hj
  rw [Checked.plant, Pool.plant]
  cases h with
  | single hdraft _ => exact plantWithin_checked_single (hused id List.mem_cons_self) _ hdraft f
  | @list _ _ kind members children inner _ used hget hmembers _ =>
      have hlength := howns.length_le
      rw [List.length_cons, List.length_append] at hlength
      obtain ⟨depth, hdepth⟩ : ∃ d, p.slots.size = d + 1 := ⟨p.slots.size - 1, by omega⟩
      have hinner : ∀ j ∈ inner, j < p.slots.size := fun j hj =>
        hused j (List.mem_cons_of_mem _ (List.mem_append_left _ hj))
      rw [hdepth]
      exact plantWithin_checked_list (hused id List.mem_cons_self) hget
        (hmembers.plantAll_checked hinner children rfl depth (by omega) (#[], f))

end Pool

end BraceExpansion
