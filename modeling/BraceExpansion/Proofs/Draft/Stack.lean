import BraceExpansion.Draft.WorkStack
import BraceExpansion.Proofs.Draft.Piece

/-!
# The work stack as a list of pieces

`WorkStack.Shows w pieces` says that the stack `w` holds `pieces`, the last one first, and that no
slot is lost or used twice.  Each operation of the stack is an operation on that list, with no
slots in it:

* `shows_push`, `shows_appendLiteral` — `List.cons`, `Piece.appendText`;
* `shows_gather`, `shows_join`, `shows_joinSegment` — `Piece.gathered`, `Piece.joined`;
* `shows_demote` — `Piece.settle` from the bottom up;
* `shows_closeRange?` — `Piece.readRange?`.

Where an operation starts at a position, the list is split there: `upper ++ lower`, and the position
is `lower.length`.
-/

namespace BraceExpansion

namespace WorkStack

variable {w : WorkStack} {pieces upper lower : List Piece}

/-- The stack holds these pieces, the last one first, and every slot is accounted for. -/
def Shows (w : WorkStack) (pieces : List Piece) : Prop :=
  ∃ used, w.pool.Holds w.items.toList.reverse pieces used ∧ w.pool.Owns used

lemma Shows.size_eq (h : w.Shows pieces) : w.size = pieces.length := by
  obtain ⟨used, hholds, -⟩ := h
  simpa [size] using hholds.length_eq

lemma shows_clear (w : WorkStack) : w.clear.Shows [] :=
  ⟨[], .nil, Pool.owns_releaseAll w.pool⟩

/-- The slots above and below a position. -/
lemma Shows.split (h : w.Shows (upper ++ lower)) :
    ∃ above below usedAbove usedBelow, w.items = (below.reverse ++ above.reverse).toArray ∧
      below.length = lower.length ∧ w.pool.Holds above upper usedAbove ∧
      w.pool.Holds below lower usedBelow ∧ w.pool.Owns (usedAbove ++ usedBelow) := by
  obtain ⟨used, hholds, howns⟩ := h
  obtain ⟨above, below, usedAbove, usedBelow, hids, rfl, habove, hbelow⟩ := hholds.split
  refine ⟨above, below, usedAbove, usedBelow, ?_, hbelow.length_eq, habove, hbelow, howns⟩
  apply Array.toList_inj.1
  simpa using congrArg List.reverse hids

/-- The same, with the slots as the operations take them from the stack. -/
lemma Shows.cut (h : w.Shows (upper ++ lower)) :
    ∃ above below usedAbove usedBelow,
      (w.items.extract lower.length).toList = above.reverse ∧
      (w.items.shrink lower.length).toList = below.reverse ∧
      w.pool.Holds above upper usedAbove ∧ w.pool.Holds below lower usedBelow ∧
      w.pool.Owns (usedAbove ++ usedBelow) := by
  obtain ⟨above, below, usedAbove, usedBelow, hitems, hlength, hholds⟩ := h.split
  refine ⟨above, below, usedAbove, usedBelow, ?_, ?_, hholds⟩
  · rw [hitems, ← hlength]
    simp [List.take_of_length_le]
  · rw [hitems, ← hlength]
    simp

/-- The draft at a position is the top of the piece there. -/
lemma Shows.tops {piece : Piece} (h : w.Shows (upper ++ piece :: lower)) :
    (w.get lower.length).Tops piece := by
  obtain ⟨above, below, _, _, hitems, hlength, -, hbelow, -⟩ := h.split
  obtain ⟨id, rest, here, others, rfl, rfl, hhere, hrest⟩ := hbelow.uncons
  have hid : w.items.getD lower.length 0 = id := by
    have hlen : rest.length = lower.length := by simpa using hlength
    rw [hitems]
    simp [← hlen]
  rw [WorkStack.get, hid]
  exact hhere.tops

/-! ## More of the pattern -/

lemma push_eq (w : WorkStack) (d : Draft) :
    w.push d = ⟨(w.pool.insert d).2, w.items.push (w.pool.insert d).1⟩ := rfl

theorem shows_push {d : Draft} {piece : Piece} (hd : piece.draft? = some d) (h : w.Shows pieces) :
    (w.push d).Shows (piece :: pieces) := by
  obtain ⟨used, hholds, howns⟩ := h
  obtain ⟨howns', hget, hframe⟩ := howns.insert d
  refine ⟨(w.pool.insert d).1 :: used, ?_, howns'⟩
  rw [push_eq, Array.toList_push, List.reverse_append, List.reverse_singleton]
  exact .single (hd.trans (by rw [hget])) (hholds.frame hframe)

/-- The draft in the top slot replaced by another. -/
lemma shows_set_top {id : Nat} {rest : List Nat} {d : Draft} {piece : Piece}
    {here others : List Nat} (hids : w.items.toList.reverse = id :: rest)
    (hhere : here = [id]) (hrest : w.pool.Holds rest pieces others)
    (howns : w.pool.Owns (here ++ others)) (hd : piece.draft? = some d) :
    Shows { w with pool := w.pool.set id d } (piece :: pieces) := by
  subst hhere
  have hid : id < w.pool.slots.size := howns.lt_size (by simp)
  have hnotMem : id ∉ others := (List.nodup_cons.mp howns.nodup_used).1
  refine ⟨id :: others, ?_, howns.set id d⟩
  rw [hids]
  refine .single (hd.trans (by rw [Pool.get_set_self hid])) (hrest.frame ?_)
  intro j hj
  refine Pool.get_set_of_ne ?_ d
  rintro rfl
  exact hnotMem hj

/-- The draft at a position replaced by another that has no members either. -/
lemma shows_modify {piece : Piece} (piece' : Piece) {d : Draft} (f : Draft → Draft)
    (hpiece : piece.draft? = some d) (hpiece' : piece'.draft? = some (f d))
    (h : w.Shows (upper ++ piece :: lower)) :
    Shows { w with pool := w.pool.modify (w.items.getD lower.length 0) f }
      (upper ++ piece' :: lower) := by
  obtain ⟨above, below, usedAbove, usedBelow, hitems, hlength, habove, hbelow, howns⟩ := h.split
  obtain ⟨id, rest, here, others, rfl, rfl, hhere, hrest⟩ := hbelow.uncons
  have hid : w.items.getD lower.length 0 = id := by
    have hlen : rest.length = lower.length := by simpa using hlength
    rw [hitems]
    simp [← hlen]
  have hget : w.pool.get id = d := by
    cases hhere with
    | single hdraft _ => exact Option.some.inj (hdraft.symm.trans hpiece)
    | list _ _ _ => cases hpiece
  obtain rfl : here = [id] := hhere.used_eq (by simp [hpiece])
  have hlt : id < w.pool.slots.size := howns.lt_size (by simp)
  have hnodup := List.nodup_middle.mp howns.nodup_used
  have hframe : ∀ j ∈ usedAbove ++ others, (w.pool.set id (f d)).get j = w.pool.get j := by
    intro j hj
    refine Pool.get_set_of_ne ?_ _
    rintro rfl
    exact (List.nodup_cons.mp hnodup).1 hj
  rw [hid, Pool.modify_eq_set hlt, hget]
  refine ⟨usedAbove ++ id :: others, ?_, howns.set _ _⟩
  have hids : w.items.toList.reverse = above ++ id :: rest := by simp [hitems]
  dsimp only
  rw [hids]
  refine (habove.frame fun j hj => hframe j (List.mem_append_left _ hj)).append ?_
  refine .single (by rw [hpiece', Pool.get_set_self hlt]) (hrest.frame ?_)
  exact fun j hj => hframe j (List.mem_append_right _ hj)

theorem shows_appendLiteral (h : w.Shows pieces) (text : Bytes) :
    (w.appendLiteral text).Shows (Piece.appendText pieces text) := by
  have hpush : ∀ {pieces}, w.Shows pieces → (∀ piece ∈ pieces.head?, piece.isLiteral = false) →
      (w.push (.leaf .literal text.toArray)).Shows (Piece.appendText pieces text) := by
    intro pieces h hhead
    rw [Piece.appendText_of_not_literal hhead]
    exact shows_push rfl h
  rw [appendLiteral]
  cases pieces with
  | nil =>
      have hback : w.items.back? = none := by
        have hsize : w.items.size = 0 := h.size_eq
        simp [Array.back?, hsize]
      rw [hback]
      exact hpush h (by simp)
  | cons piece rest =>
      obtain ⟨used, hholds, howns⟩ := h
      obtain ⟨id, ids, here, others, hids, rfl, hhere, hrest⟩ := hholds.uncons
      have hback : w.items.back? = some id := by
        rw [← Array.getLast?_toList, ← List.head?_reverse, hids]
        rfl
      have htops := hhere.tops
      simp only [hback, htops.isLiteral_eq]
      split
      next hliteral =>
        match piece, hliteral with
        | .shape (.leaf .literal before), _ =>
          have hget : w.pool.get id = .leaf .literal before.toArray := by
            cases hhere with
            | single hdraft _ => exact (Option.some.inj hdraft).symm
          have hid : id < w.pool.slots.size :=
            howns.lt_size (List.mem_append_left _ (hhere.subset (by simp)))
          rw [Pool.modify_eq_set hid, hget]
          refine shows_set_top hids (hhere.used_eq ?_) hrest howns ?_
          · simp [Piece.draft?]
          · simp [Piece.draft?, Draft.append]
      next hliteral =>
        refine hpush ⟨_, hholds, howns⟩ ?_
        simpa using hliteral

/-! ## Lists -/

lemma contribution_tops {p : Pool} {kind : ListKind} {id : Nat} :
    contribution p kind id = match p.get id with
      | .mark _ _ => []
      | .list k members => if k = kind then members else [id]
      | _ => [id] := rfl

/-- Taking up one piece moves its contribution, frees the rest, and changes nothing else. -/
lemma holds_absorb (kind : ListKind) {p : Pool} {id : Nat} {piece : Piece} {here others : List Nat}
    (h : p.Holds [id] [piece] here) (howns : p.Owns (here ++ others)) :
    ∃ kept, (absorb kind p id).Holds (contribution p kind id)
        ((Piece.contribution kind piece).map .shape) kept ∧
      (absorb kind p id).Owns (kept ++ others) ∧
      ∀ j ∈ others, (absorb kind p id).get j = p.get j := by
  cases h with
  | @single _ _ _ _ _ hdraft hnil =>
      cases hnil
      match piece, hdraft with
      | .mark m text, hdraft =>
        have hget : p.get id = .mark m text.toArray := (Option.some.inj hdraft).symm
        refine ⟨[], ?_, ?_, ?_⟩
        · simp only [contribution, hget, Piece.contribution]; exact .nil
        · simp only [absorb, hget]; exact howns.release
        · intro j _; simp only [absorb, hget, Pool.get_release]
      | .shape (.leaf k text), hdraft =>
        have hget : p.get id = .leaf k text.toArray := (Option.some.inj hdraft).symm
        refine ⟨[id], ?_, ?_, ?_⟩
        · simp only [contribution, absorb, hget, Piece.contribution, Shape.splice]
          exact .single hdraft .nil
        · simp only [absorb, hget]; exact howns
        · intro j _; simp only [absorb, hget]
      | .shape (.range k r), hdraft =>
        have hget : p.get id = .range k r := (Option.some.inj hdraft).symm
        refine ⟨[id], ?_, ?_, ?_⟩
        · simp only [contribution, absorb, hget, Piece.contribution, Shape.splice]
          exact .single hdraft .nil
        · simp only [absorb, hget]; exact howns
        · intro j _; simp only [absorb, hget]
  | @list _ _ k members children inner _ _ hget hmembers hnil =>
      cases hnil
      by_cases hk : k = kind
      · rw [List.append_nil] at howns
        have hid : id < p.slots.size := howns.lt_size (by simp)
        have hnotMem : id ∉ inner ++ others := (List.nodup_cons.mp howns.nodup_used).1
        have hframe : ∀ j ∈ inner ++ others,
            ((p.set id (.list k [])).release id).get j = p.get j := by
          intro j hj
          rw [Pool.get_release]
          refine Pool.get_set_of_ne ?_ _
          rintro rfl
          exact hnotMem hj
        subst hk
        refine ⟨inner, ?_, ?_, ?_⟩
        · simp only [contribution, absorb, hget, Piece.contribution, Shape.splice, if_true]
          exact hmembers.frame fun j hj => hframe j (List.mem_append_left _ hj)
        · simp only [absorb, hget, if_true]
          exact (howns.set id _).release
        · intro j hj
          simp only [absorb, hget, if_true]
          exact hframe j (List.mem_append_right _ hj)
      · refine ⟨id :: (inner ++ []), ?_, ?_, ?_⟩
        · simp only [contribution, absorb, hget, Piece.contribution, Shape.splice, hk, if_false]
          exact .list hget hmembers .nil
        · simp only [absorb, hget, hk, if_false]
          exact howns
        · intro j _; simp only [absorb, hget, hk, if_false]

/-- Taking up the pieces in some slots moves their contributions and frees the rest. -/
lemma holds_foldl_absorb (kind : ListKind) {p : Pool} {ids : List Nat} {used other : List Nat}
    (h : p.Holds ids pieces used) (howns : p.Owns (used ++ other)) :
    ∃ used', (ids.foldl (absorb kind) p).Holds (ids.flatMap (contribution p kind))
        ((pieces.flatMap (Piece.contribution kind)).map .shape) used' ∧
      (ids.foldl (absorb kind) p).Owns (used' ++ other) ∧
      ∀ j ∈ other, (ids.foldl (absorb kind) p).get j = p.get j := by
  induction pieces generalizing p ids used other with
  | nil => cases h; exact ⟨[], .nil, howns, fun _ _ => rfl⟩
  | cons piece pieces ih =>
      rcases h.uncons with ⟨id, rest, here, others, rfl, rfl, hhere, hrest⟩
      rw [List.append_assoc] at howns
      rcases holds_absorb kind hhere howns with ⟨kept, hkept, howns', hsame⟩
      have hrest' : (absorb kind p id).Holds rest pieces others :=
        hrest.frame fun j hj => hsame j (List.mem_append_left _ hj)
      have hmove : (others ++ (kept ++ other)).Perm (kept ++ (others ++ other)) := by
        rw [← List.append_assoc, ← List.append_assoc]
        exact List.perm_append_comm.append_right other
      rcases ih hrest' (howns'.perm hmove) with ⟨used', hused', howns'', hsame'⟩
      have hcontribution : rest.flatMap (contribution (absorb kind p id) kind)
          = rest.flatMap (contribution p kind) := by
        refine List.flatMap_congr ?_
        intro j hj
        rw [contribution_tops, contribution_tops,
          hsame j (List.mem_append_left _ (hrest.subset hj))]
      rw [hcontribution] at hused'
      have hkept' := hkept.frame fun j hj => hsame' j (List.mem_append_left _ hj)
      refine ⟨kept ++ used', ?_, ?_, ?_⟩
      · rw [List.foldl_cons, List.flatMap_cons, List.flatMap_cons, List.map_append]
        exact hkept'.append hused'
      · rw [List.foldl_cons]
        refine howns''.perm ?_
        rw [← List.append_assoc]
        exact List.perm_append_comm.append_right other
      · intro j hj
        rw [List.foldl_cons, hsame' j (List.mem_append_right _ hj),
          hsame j (List.mem_append_right _ hj)]

lemma gather_eq (w : WorkStack) (kind : ListKind) (offset : Nat) :
    w.gather kind offset =
      let fresh := w.pool.insert (.list kind [])
      let taken := (w.items.extract offset).toList
      ⟨(taken.foldl (absorb kind) fresh.2).set fresh.1
        (.list kind (taken.flatMap (contribution fresh.2 kind))),
        (w.items.shrink offset).push fresh.1⟩ := rfl

theorem shows_gather (kind : ListKind) (h : w.Shows (upper ++ lower)) :
    (w.gather kind lower.length).Shows (.shape (Piece.gathered kind upper) :: lower) := by
  obtain ⟨above, below, usedAbove, usedBelow, htaken, hleft, habove, hbelow, howns⟩ := h.cut
  obtain ⟨howns₁, hget₁, hframe₁⟩ := howns.insert (.list kind [])
  set fresh := w.pool.insert (.list kind [])
  obtain ⟨usedAbove', hperm, habove'⟩ := habove.reverse
  have habove₁ : fresh.2.Holds above.reverse upper.reverse usedAbove' :=
    habove'.frame fun j hj => hframe₁ j (List.mem_append_left _ (hperm.subset hj))
  have hbelow₁ : fresh.2.Holds below lower usedBelow :=
    hbelow.frame fun j hj => hframe₁ j (List.mem_append_right _ hj)
  have howns₁' : fresh.2.Owns (usedAbove' ++ (fresh.1 :: usedBelow)) := by
    refine howns₁.perm ?_
    exact List.perm_middle.trans ((hperm.append_right usedBelow).cons _)
  obtain ⟨members, hmembers, howns₂, hframe₂⟩ := holds_foldl_absorb kind habove₁ howns₁'
  set absorbed := above.reverse.foldl (absorb kind) fresh.2
  have hbelow₂ : absorbed.Holds below lower usedBelow :=
    hbelow₁.frame fun j hj => hframe₂ j (List.mem_cons_of_mem _ hj)
  have howns₂' : absorbed.Owns (fresh.1 :: (members ++ usedBelow)) :=
    howns₂.perm List.perm_middle.symm
  have hfresh : fresh.1 < absorbed.slots.size := howns₂'.lt_size List.mem_cons_self
  have hframe₃ : ∀ j ∈ members ++ usedBelow,
      (absorbed.set fresh.1 (.list kind (above.reverse.flatMap (contribution fresh.2 kind)))).get j
        = absorbed.get j := by
    intro j hj
    refine Pool.get_set_of_ne ?_ _
    rintro rfl
    exact (List.nodup_cons.mp howns₂'.nodup_used).1 hj
  refine ⟨fresh.1 :: (members ++ usedBelow), ?_, ?_⟩
  · rw [gather_eq]
    simp only [htaken]
    rw [Array.toList_push, hleft, List.reverse_append, List.reverse_reverse]
    refine .list (Pool.get_set_self hfresh _) (hmembers.frame ?_) (hbelow₂.frame ?_)
    · intro j hj; exact hframe₃ j (List.mem_append_left _ hj)
    · intro j hj; exact hframe₃ j (List.mem_append_right _ hj)
  · rw [gather_eq]
    simp only [htaken]
    exact howns₂'.set _ _

theorem shows_join (h : w.Shows (upper ++ lower)) :
    (w.join lower.length).Shows (Piece.joined upper :: lower) := by
  have hsize : w.size - lower.length = upper.length := by
    rw [h.size_eq, List.length_append]; omega
  rw [join, hsize]
  match upper, h with
  | [], h => exact shows_push rfl h
  | [piece], h => exact h
  | first :: second :: rest, h => exact shows_gather .concat h

/-! ## The last mark -/

lemma aboveMark_eq {seg : List Piece} (hseg : ∀ piece ∈ seg, piece.isMark = false)
    (hlower : ∀ piece ∈ lower.head?, piece.isMark = true) :
    ∀ upper, w.Shows (upper ++ (seg ++ lower)) → w.aboveMark (seg ++ lower).length = lower.length := by
  induction seg with
  | nil =>
      intro upper h
      cases lower with
      | nil => rfl
      | cons piece lower =>
          have hmark : (w.get lower.length).isMark = true := by
            rw [h.tops.isMark_eq]
            exact hlower piece rfl
          rw [List.nil_append, List.length_cons, aboveMark, hmark]
          rfl
  | cons piece seg ih =>
      intro upper h
      have htops : (w.get (seg ++ lower).length).Tops piece := Shows.tops h
      have hmark : (w.get (seg ++ lower).length).isMark = false := by
        rw [htops.isMark_eq]
        exact hseg piece List.mem_cons_self
      rw [List.cons_append, List.length_cons, aboveMark, hmark]
      exact ih (fun q hq => hseg q (List.mem_cons_of_mem _ hq)) (upper ++ [piece])
        (by simpa using h)

theorem shows_joinSegment {seg : List Piece} (hseg : ∀ piece ∈ seg, piece.isMark = false)
    (hlower : ∀ piece ∈ lower.head?, piece.isMark = true) (h : w.Shows (seg ++ lower)) :
    w.joinSegment.Shows (Piece.joined seg :: lower) := by
  have habove := aboveMark_eq hseg hlower [] h
  rw [joinSegment, h.size_eq, habove]
  exact shows_join h

end WorkStack

end BraceExpansion
