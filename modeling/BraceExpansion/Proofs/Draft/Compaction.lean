import BraceExpansion.Proofs.Draft.Grouping

/-!
# Compaction in place

`WorkStack.demote` builds what it keeps beside the stack, and a literal grows with every piece of text
that it takes up.  The same can be done in one array and with one change for each literal.

**The loop.**  `WorkStack.compact` reads the stack from position to position and writes what is kept
to a position further down.  The text that a literal will take up is collected in a buffer, and is
added to the literal when something else comes, or at the end.

**Both are the same.**  `Compaction.Follows` relates the loop to a demotion that has seen the same
drafts: the literal lacks what is in the buffer (`Compaction.flush`), and what has not been read has
not been written over.  One step keeps this up (`Compaction.Follows.step`), so the loop ends with the
stack of `demote`, whatever was in the buffer before (`WorkStack.compact_eq`).

**`WorkStack.compact_groups`** says what the loop does to a stack: it groups it, and doing so again
changes nothing.
-/

namespace BraceExpansion

/-! ## The loop -/

/-- A stack in which what is kept is being moved down. -/
structure Compaction where
  pool : Pool
  items : Array Nat
  /-- The position of the next draft that is kept. -/
  write : Nat
  /-- The literal on top of what is kept, if the next piece of text belongs to that. -/
  run : Option Nat
  /-- The text that this literal will take up. -/
  scratch : Buffer

namespace Compaction

/-- The pool with the text in the buffer added to the literal. -/
def flush (c : Compaction) : Pool :=
  match c.run with
  | some first => c.pool.modify first (·.append c.scratch)
  | none => c.pool

/-- The draft at the position `read`. -/
def step (c : Compaction) (read : Nat) : Compaction :=
  let id := c.items.getD read 0
  match (c.pool.get id).foldable?, c.run with
  | some text, some _ => { c with pool := c.pool.release id, scratch := c.scratch ++ text }
  | some text, none =>
    ⟨c.pool.set id (.leaf .literal text), c.items.setIfInBounds c.write id, c.write + 1, some id, #[]⟩
  | none, _ => ⟨c.flush, c.items.setIfInBounds c.write id, c.write + 1, none, c.scratch⟩

end Compaction

/-- From `offset` on, every longest run of literals and punctuation as one literal, in place.  With
the stack comes what is in the buffer then. -/
def WorkStack.compact (w : WorkStack) (offset : Nat) (joinBelow : Bool) (scratch : Buffer) :
    WorkStack × Buffer :=
  let start := w.demotionStart offset joinBelow
  let done := (List.range' start (w.size - start)).foldl Compaction.step
    ⟨w.pool, w.items, start, none, scratch⟩
  (⟨done.flush, done.items.shrink done.write⟩, done.scratch)

/-! ## Growing at once -/

namespace Draft

lemma append_empty (d : Draft) : d.append #[] = d := by
  cases d <;> simp [append]

lemma append_append (d : Draft) (text more : Buffer) :
    (d.append text).append more = d.append (text ++ more) := by
  cases d <;> simp [append, Array.append_assoc]

end Draft

namespace Pool

variable {p : Pool} {id other : Nat}

lemma get_modify_of_ne (h : id ≠ other) (f : Draft → Draft) :
    (p.modify id f).get other = p.get other := by
  simp [get, modify, Array.getD_eq_getD_getElem?, Array.getElem?_modify, h]

/-- A draft that grows twice grows by both texts. -/
lemma modify_append_append (p : Pool) (id : Nat) (text more : Buffer) :
    (p.modify id (·.append text)).modify id (·.append more)
      = p.modify id (·.append (text ++ more)) := by
  rw [modify, modify, modify]
  congr 1
  refine Array.ext (by simp) ?_
  intro i hi hi'
  simp only [Array.getElem_modify]
  split
  · exact Draft.append_append _ text more
  · rfl

lemma modify_append_empty (p : Pool) (id : Nat) : p.modify id (·.append #[]) = p := by
  obtain ⟨slots, free⟩ := p
  rw [modify]
  congr 1
  refine Array.ext (by simp) ?_
  intro i hi hi'
  rw [Array.getElem_modify]
  split
  · exact Draft.append_empty _
  · rfl

end Pool

/-! ## Both are the same -/

namespace Compaction

variable {c : Compaction} {d : WorkStack.Demotion} {read id : Nat} {ids : List Nat}

/-- A compaction has read the drafts below a position and not the drafts `ids`, and a demotion has
done the same. -/
structure Follows (c : Compaction) (read : Nat) (ids : List Nat) (d : WorkStack.Demotion) :
    Prop where
  pool_eq : d.pool = c.flush
  kept_eq : d.kept.toList = c.items.toList.take c.write
  run_eq : d.run = c.run
  write_le : c.write ≤ read
  unread : c.items.toList.drop read = ids
  apart : ∀ first, c.run = some first → first ∉ ids

/-- What is written does not reach what has not been read. -/
lemma toList_write (hwrite : c.write ≤ read) (hunread : c.items.toList.drop read = id :: ids) :
    (c.items.setIfInBounds c.write id).toList.take (c.write + 1)
      = c.items.toList.take c.write ++ [id] ∧
    (c.items.setIfInBounds c.write id).toList.drop (read + 1) = ids := by
  have hread : read < c.items.toList.length := by
    have hlength := congrArg List.length hunread
    rw [List.length_drop, List.length_cons] at hlength
    omega
  rw [Array.toList_setIfInBounds]
  refine ⟨?_, ?_⟩
  · rw [List.take_add_one, List.getElem?_set_self (by omega), List.take_set_of_le (Nat.le_refl _)]
    rfl
  · rw [List.drop_set_of_lt (by omega), ← List.drop_drop, hunread]
    rfl

lemma step_other (hid : c.items.getD read 0 = id) (h : (c.pool.get id).foldable? = none) :
    c.step read
      = ⟨c.flush, c.items.setIfInBounds c.write id, c.write + 1, none, c.scratch⟩ := by
  simp only [step, hid, h]

lemma step_first {text : Buffer} (hid : c.items.getD read 0 = id)
    (h : (c.pool.get id).foldable? = some text) (hrun : c.run = none) : c.step read
      = ⟨c.pool.set id (.leaf .literal text), c.items.setIfInBounds c.write id, c.write + 1, some id,
          #[]⟩ := by
  simp only [step, hid, h, hrun]

lemma step_more {text : Buffer} {first : Nat} (hid : c.items.getD read 0 = id)
    (h : (c.pool.get id).foldable? = some text) (hrun : c.run = some first) : c.step read
      = { c with pool := c.pool.release id, scratch := c.scratch ++ text } := by
  simp only [step, hid, h, hrun]

namespace Follows

/-- The text of a draft that has not been read is the same in both pools. -/
lemma foldable?_eq (h : c.Follows read (id :: ids) d) :
    (d.pool.get id).foldable? = (c.pool.get id).foldable? := by
  rw [h.pool_eq, flush]
  cases hrun : c.run with
  | none => rfl
  | some first =>
      have hne : first ≠ id := by
        rintro rfl
        exact h.apart first hrun List.mem_cons_self
      exact congrArg Draft.foldable? (Pool.get_modify_of_ne hne _)

/-- **One step keeps both together.** -/
lemma step (h : c.Follows read (id :: ids) d) (hnodup : (id :: ids).Nodup) :
    (c.step read).Follows (read + 1) ids (d.step id) := by
  have hfold := h.foldable?_eq
  have hnext : ∀ first, c.run = some first → first ∉ ids :=
    fun first hrun hmem => h.apart first hrun (List.mem_cons_of_mem _ hmem)
  obtain ⟨htake, hdrop⟩ := toList_write h.write_le h.unread
  have hid : c.items.getD read 0 = id := by
    have hitem : c.items.toList[read]? = some id := by
      rw [← List.head?_drop, h.unread]
      rfl
    rw [Array.getD_eq_getD_getElem?, ← Array.getElem?_toList, hitem]
    rfl
  obtain ⟨pool, kept, run⟩ := d
  obtain ⟨rfl, hkept, rfl, hwrite, hunread, -⟩ := h
  cases htext : (c.pool.get id).foldable? with
  | none =>
      rw [step_other hid htext, WorkStack.Demotion.step_other (hfold.trans htext)]
      refine ⟨rfl, ?_, rfl, Nat.succ_le_succ hwrite, hdrop, nofun⟩
      rw [Array.toList_push, hkept, htake]
  | some text =>
      cases hrun : c.run with
      | none =>
          rw [step_first hid htext hrun, WorkStack.Demotion.step_first (hfold.trans htext)]
          refine ⟨?_, ?_, rfl, Nat.succ_le_succ hwrite, hdrop, ?_⟩
          · have hflush : c.flush = c.pool := by rw [flush, hrun]
            rw [hflush]
            exact (Pool.modify_append_empty _ id).symm
          · rw [Array.toList_push, hkept, htake]
          · rintro first ⟨⟩
            exact (List.nodup_cons.mp hnodup).1
      | some first =>
          rw [step_more hid htext hrun, WorkStack.Demotion.step_more (hfold.trans htext)]
          refine ⟨?_, hkept, hrun.symm, Nat.le_succ_of_le hwrite, ?_, hnext⟩
          · have hflush : c.flush = c.pool.modify first (·.append c.scratch) := by rw [flush, hrun]
            rw [hflush, Pool.modify_append_append, flush, hrun]
            rfl
          · rw [← List.drop_drop, hunread]
            rfl

/-- The loop over what has not been read does what a demotion does. -/
lemma foldl (h : c.Follows read ids d) (hnodup : ids.Nodup) :
    ((List.range' read ids.length).foldl Compaction.step c).Follows (read + ids.length) []
      (ids.foldl WorkStack.Demotion.step d) := by
  induction ids generalizing c d read with
  | nil => exact h
  | cons id ids ih =>
      have hrest := ih (h.step hnodup) (List.nodup_cons.mp hnodup).2
      rw [Nat.add_right_comm, Nat.add_assoc] at hrest
      exact hrest

end Follows

end Compaction

namespace WorkStack

variable {w : WorkStack} {offset : Nat}

/-- **The loop ends with the stack of `demote`**, whatever is in the buffer. -/
theorem compact_eq (hnodup : w.items.toList.Nodup) (offset : Nat) (joinBelow : Bool)
    (scratch : Buffer) : (w.compact offset joinBelow scratch).1 = w.demote offset joinBelow := by
  have hfollows : Compaction.Follows
      ⟨w.pool, w.items, w.demotionStart offset joinBelow, none, scratch⟩
      (w.demotionStart offset joinBelow) (w.items.toList.drop (w.demotionStart offset joinBelow))
      ⟨w.pool, w.items.shrink (w.demotionStart offset joinBelow), none⟩ :=
    ⟨rfl, by simp, rfl, Nat.le_refl _, rfl, nofun⟩
  have hdone := hfollows.foldl (hnodup.sublist (List.drop_sublist _ _))
  rw [List.length_drop, Array.length_toList, ← foldl_extract] at hdone
  rw [compact, demote_eq, mk.injEq]
  refine ⟨hdone.pool_eq.symm, ?_⟩
  rw [← Array.toList_inj, hdone.kept_eq]
  simp [size]

/-- **The loop groups the upper part of a stack.**  What is in the buffer before makes no difference,
and a second time nothing changes. -/
theorem compact_groups (hnodup : w.items.toList.Nodup)
    (hbound : ∀ id ∈ w.items.toList, id < w.pool.slots.size) (hoffset : offset ≤ w.size)
    (joinBelow : Bool) (scratch scratch' : Buffer) :
    let after := (w.compact offset joinBelow scratch).1
    after = w.demote offset joinBelow ∧
      w.Groups (w.demotionStart offset joinBelow) after ∧
      (after.compact offset joinBelow scratch').1 = after := by
  have hstart := (w.demotionStart_le offset joinBelow).trans hoffset
  have hgroups := groups_demote hnodup hbound hstart
  rw [compact_eq hnodup offset joinBelow scratch]
  refine ⟨rfl, hgroups, ?_⟩
  rw [compact_eq (hnodup.sublist hgroups.sublist_items) offset joinBelow scratch']
  exact demote_demote hnodup hbound hoffset joinBelow

/-- Two stretches of text, the first of which begins below the offset, with an escape between them. -/
theorem compact_groups_two_stretches :
    let w : WorkStack := ⟨⟨#[.leaf .literal #[0x61], .mark .opening #[0x7B], .leaf .literal #[0x62],
      .leaf .escape #[0x5C, 0x7D], .mark .delimiter #[0x2C], .leaf .literal #[0x63], default], [6]⟩,
      #[0, 1, 2, 3, 4, 5]⟩
    let after := (w.compact 1 true #[0x21]).1
    w.items.toList.Nodup ∧ (∀ id ∈ w.items.toList, id < w.pool.slots.size) ∧ 1 ≤ w.size ∧
      after.entries = [⟨0, .leaf .literal #[0x61, 0x7B, 0x62]⟩, ⟨3, .leaf .escape #[0x5C, 0x7D]⟩,
        ⟨4, .leaf .literal #[0x2C, 0x63]⟩] ∧
      after.pool.free = [5, 2, 1, 6] ∧ (after.compact 1 true #[]).1 = after := by
  intro w after
  have hnodup : w.items.toList.Nodup := by decide
  have hbound : ∀ id ∈ w.items.toList, id < w.pool.slots.size := by decide
  have hoffset : 1 ≤ w.size := by decide
  obtain ⟨-, hgroups, hagain⟩ := compact_groups hnodup hbound hoffset true #[0x21] #[]
  have hstart : w.demotionStart 1 true = 0 := by decide +kernel
  rw [hstart] at hgroups
  refine ⟨hnodup, hbound, hoffset, ?_, ?_, hagain⟩
  · have hentries := hgroups.above
    rw [List.drop_zero] at hentries
    rw [hentries]
    decide +kernel
  · rw [hgroups.free_eq]
    decide +kernel

end WorkStack

end BraceExpansion
