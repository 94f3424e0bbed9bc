import BraceExpansion.Proofs.Compiler.Checked
import BraceExpansion.Proofs.Draft.Partition

/-!
# Slots are not lost

A compiler moves drafts between its stack, lists and the free slots, and never looks whether a slot
is still referred to.  It does not have to:

* A compiler that shows a reading has each slot in one place (`WorkStack.Shows.partitioned`).
* What a token releases has no members (`Compiler.spent_step`), nor has what the end of a pattern
  releases (`spent_finish`).
* All that is in use at the end becomes the tree (`Pool.Holds.perm_below`).

**`Compiler.compile_partitioned`** puts this together for a whole pattern.
-/

namespace BraceExpansion

namespace Compiler

variable {c : Compiler} {r : Reading} {stale : List Nat} {pieces : List Piece}

/-! ## One token -/

section

variable {options : CompileOptions} {work : WorkStack} {block : Block} {outer : List Block}
  {openQuote : Option Nat} {text : Bytes}

/-- A closing brace gives the separators and bounds of a range back, or the marks and segments that an
alternation takes up, or the text that runs together. -/
lemma spent_closed (hwork : work.Shows pieces) (hframes : Frames (block :: outer) work.kinds)
    (h : work.pool.Spent stale) : (closed options work block text).pool.Spent stale := by
  rw [closed]
  split
  · obtain ⟨pieces', hjoined⟩ := hwork.exists_join (work.aboveMark_le work.size)
    exact WorkStack.spent_gather hjoined (WorkStack.spent_joinSegment hwork h) .alternate block.base
  · split
    next w hclose =>
      split at hclose
      · have hopening : (work.get block.base).members = [] :=
          WorkStack.members_of_isMark (isMark_base hframes)
        exact WorkStack.spent_closeRange? h (base_lt_size hframes) hopening hclose
      · cases hclose
    next =>
      exact WorkStack.spent_appendLiteral (WorkStack.spent_demote h block.base true) text

/-- A comma turns separators back into text, and ends a segment. -/
lemma spent_delimiter (hwork : work.Shows pieces) (hframes : Frames (block :: outer) work.kinds)
    (h : work.pool.Spent stale) :
    (delimiter ⟨options, work, block :: outer, openQuote⟩ text).work.pool.Spent stale := by
  have hsegment : ∀ {w : WorkStack} {pieces : List Piece}, w.Shows pieces → w.pool.Spent stale →
      (w.joinSegment.push (.mark .delimiter text.toArray)).pool.Spent stale :=
    fun hw hspent => WorkStack.spent_push (WorkStack.spent_joinSegment hw hspent) rfl
  simp only [delimiter]
  split
  · have hlt := base_lt_size hframes
    obtain ⟨pieces', hdemoted⟩ := hwork.exists_demote_above (show block.base + 1 ≤ work.size by omega)
    exact hsegment hdemoted (WorkStack.spent_demote h _ false)
  · exact hsegment hwork h

end

/-- **What a token releases has no members.** -/
theorem spent_step (hshows : c.Shows r) (h : c.work.pool.Spent stale) (t : Token) :
    (c.step t).work.pool.Spent stale := by
  have hframes := hshows.frames
  have hwork := hshows.work
  obtain ⟨options, work, blocks, openQuote⟩ := c
  obtain ⟨kind, start, text⟩ := t
  have hliteral := WorkStack.spent_appendLiteral h text
  cases kind with
  | literal => exact hliteral
  | escape => exact WorkStack.spent_push h rfl
  | quote => exact WorkStack.spent_push h rfl
  | opening => exact WorkStack.spent_push h rfl
  | delimiter =>
      cases blocks with
      | nil => exact hliteral
      | cons block outer => exact spent_delimiter hwork hframes h
  | range =>
      cases blocks with
      | nil => exact hliteral
      | cons block outer =>
          simp only [step, rangeSeparator]
          split
          · exact hliteral
          · split
            · exact WorkStack.spent_push h rfl
            · exact hliteral
  | closing =>
      cases blocks with
      | nil => exact hliteral
      | cons block outer => exact spent_closed hwork hframes h

/-! ## The end of a pattern -/

/-- What the end of a pattern releases has no members. -/
lemma spent_finish (hshows : c.Shows r) (h : c.work.pool.Spent stale) :
    (c.settled.join 0).pool.Spent stale := by
  have hliteral : ∀ d : Draft, d.toLiteral.members = d.members := by
    intro d
    cases d <;> rfl
  refine WorkStack.spent_join hshows.settled ?_ 0
  simp only [settled]
  cases c.firstOpen? with
  | none =>
      cases c.openQuote with
      | none => exact h
      | some quote => exact h.modify hliteral _
  | some start =>
      refine WorkStack.spent_demote ?_ start true
      cases c.openQuote with
      | none => exact h
      | some quote => exact h.modify hliteral _

/-! ## Whole patterns -/

/-- What some tokens release has no members. -/
lemma spent_reads {s s' : Scanner} {ts : List Token} (hreads : s.Reads ts s') (hshows : c.Shows r)
    (hquote : r.quote.isSome = s.openQuote.isSome) (h : c.work.pool.Spent stale) :
    (ts.foldl step c).work.pool.Spent stale := by
  induction hreads generalizing c r with
  | nil => exact h
  | cons hnext hrest ih =>
      rcases Shows.reads (.cons hnext (.nil _)) hshows hquote with ⟨hstep, hquote'⟩
      exact ih hstep hquote' (spent_step hshows h _)

/-- All that is in use at the end becomes the tree, one node for each slot. -/
lemma finish_exports (h : c.Shows r) : ∃ top, (c.settled.join 0).items = #[top] ∧
    c.finish.1.size = (c.settled.join 0).pool.live.length ∧
      (c.finish.1.forest.preorder c.finish.1.root).order.toList.Perm
        (List.range c.finish.1.size) := by
  rcases h.joined_single with ⟨top, used, hitems, hholds, howns⟩
  have htop : (c.settled.join 0).items.getD 0 0 = top := by simp [hitems]
  have hsize := hholds.size_plant howns .empty
  have hnodup := h.perm_below.nodup_iff.mpr List.nodup_range
  refine ⟨top, hitems, ?_, ?_⟩
  · rw [finish_tree, htop, howns.perm_live.length_eq]
    exact hsize.trans (Nat.zero_add _)
  · rw [Forest.order_preorder hnodup]
    exact h.perm_below

/-- **Every slot of the pool is in one place**, at the start of a pattern, behind each of its tokens
and at its end, whatever the compiler has been used for: it is free, on the stack, or a member of one
list that is in use, and there once.  From any point `earlier` to any later one, no slot has been
released that had members, and at the end every slot that is in use has become a node of the tree,
which the root leads to. -/
theorem compile_partitioned (c : Compiler) {pattern : Bytes} {s s₁ s₂ : Scanner}
    {before after : List Token} (hs : Scanner.ofPattern c.options pattern = .ok s)
    (hbefore : s.Reads before s₁) (hafter : s₁.Reads after s₂) :
    let earlier := before.foldl step c.start
    let now := after.foldl step earlier
    now.work.Partitioned ∧ now.work.pool.Spent earlier.work.pool.free ∧
      (s₂.Ends → s₂.failure? = none →
        let last := now.settled.join 0
        last.Partitioned ∧ last.pool.Spent earlier.work.pool.free ∧
          ∃ top tree, last.items = #[top] ∧ (c.compile pattern).1 = .ok tree ∧
            tree.size = last.pool.live.length ∧
            (tree.forest.preorder tree.root).order.toList.Perm (List.range tree.size)) := by
  intro earlier now
  have hquote : (({} : Reading).quote.isSome) = s.openQuote.isSome := by
    rw [ofPattern_eq hs]
    rfl
  rcases Shows.reads hbefore c.shows_start hquote with ⟨hearlier, hquote₁⟩
  rcases Shows.reads hafter hearlier hquote₁ with ⟨hnow, -⟩
  have hspent := spent_reads hafter hearlier hquote₁ earlier.work.pool.spent_free
  refine ⟨hnow.work.partitioned, hspent, ?_⟩
  intro hends hfailure
  rcases finish_exports hnow with ⟨top, hitems, hsize, hreached⟩
  have hcompile : (c.compile pattern).1 = .ok now.finish.1 := by
    rw [compile_of_reads hs (hbefore.append hafter) hends, hfailure, List.foldl_append]
  exact ⟨hnow.joined.partitioned, spent_finish hnow hspent, top, _, hitems, hcompile, hsize,
    hreached⟩

/-- `{b,c}d` with a compiler that has given up `{a,'` with a block and a quote open: the four slots
of that are used again, one of them as a member of the alternation before the pattern ends. -/
theorem compile_partitioned_reused :
    let c : Compiler := [⟨.opening, 0, [0x7B]⟩, ⟨.literal, 1, [0x61]⟩, ⟨.delimiter, 2, [0x2C]⟩,
      ⟨.quote, 3, [0x27]⟩].foldl step (new { strict := true })
    let pattern : Bytes := [0x7B, 0x62, 0x2C, 0x63, 0x7D, 0x64]
    c.openQuote = some 3 ∧ c.blocks.length = 1 ∧ c.work.pool.slots.size = 4 ∧
      ∃ now : Compiler, now.work.Partitioned ∧ now.work.pool.Spent [] ∧
        now.work.items = #[4] ∧ now.work.pool.free = [2, 0] ∧ now.work.pool.live = [1, 3, 4] ∧
        (now.work.pool.get 4).members = [1, 3] ∧
        ∃ tree, (c.compile pattern).1 = .ok tree ∧ tree.size = 5 ∧
          (tree.forest.preorder tree.root).order.toList.Perm (List.range 5) := by
  intro c pattern
  have hs : Scanner.ofPattern c.options pattern = .ok ⟨c.options, pattern, 0, none⟩ := rfl
  have hbefore : Scanner.Reads ⟨c.options, pattern, 0, none⟩ [⟨.opening, 0, [0x7B]⟩,
      ⟨.literal, 1, [0x62]⟩, ⟨.delimiter, 2, [0x2C]⟩, ⟨.literal, 3, [0x63]⟩]
      ⟨c.options, [0x7D, 0x64], 4, none⟩ :=
    .cons rfl <| .cons rfl <| .cons rfl <| .cons rfl <| .nil _
  have hclosing : Scanner.Reads ⟨c.options, [0x7D, 0x64], 4, none⟩ [⟨.closing, 4, [0x7D]⟩]
      ⟨c.options, [0x64], 5, none⟩ := .cons rfl <| .nil _
  have hliteral : Scanner.Reads ⟨c.options, [0x64], 5, none⟩ [⟨.literal, 5, [0x64]⟩]
      ⟨c.options, [], 6, none⟩ := .cons rfl <| .nil _
  have hends : Scanner.Ends ⟨c.options, [], 6, none⟩ := by
    intro t ht
    cases ht
  rcases compile_partitioned c hs hbefore hclosing with ⟨hplaces, hspent, -⟩
  rcases compile_partitioned c hs hbefore (hclosing.append hliteral) with ⟨-, -, hend⟩
  rcases hend hends rfl with ⟨-, -, top, tree, -, hcompile, hsize, hreached⟩
  have hfive : tree.size = 5 := hsize.trans (by decide +kernel)
  rw [hfive] at hreached
  rw [show Pool.free _ = [] by decide +kernel] at hspent
  exact ⟨by decide +kernel, by decide +kernel, by decide +kernel, _, hplaces, hspent,
    by decide +kernel, by decide +kernel, by decide +kernel, by decide +kernel, tree, hcompile,
    hfive, hreached⟩

end Compiler

end BraceExpansion
