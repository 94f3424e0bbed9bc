import BraceExpansion.Proofs.Draft.Demotion
import Mathlib.Logic.Relation

/-!
# Where the slots of a pool are

**Places.**  A slot is free, on the stack, or a member of a list that is in use.
`WorkStack.Partitioned` says that every slot is in exactly one of these places, and there once, and
that nothing is in use but what the stack leads to.  Every stack that shows pieces is partitioned
(**`WorkStack.Shows.partitioned`**): the slots that its pieces take are the stack and their members.

**Releases.**  Slots that were free at the start of a pattern hold what earlier patterns have left in
them, lists with members too.  `Pool.Spent p stale` looks back to a time when `stale` was free: what
has been released since then has no members, so that nothing was lost with it, and the other free
slots have not been used since.  Each operation of the stack keeps this up:
`spent_push`, `spent_appendLiteral`, `spent_gather`, `spent_joinSegment`, `spent_demote`,
`spent_closeRange?`.
-/

namespace BraceExpansion

namespace Pool

variable {p q : Pool} {ids used stale : List Nat} {pieces : List Piece} {id j : Nat} {d : Draft}

/-! ## Places -/

/-- The slots that are not free. -/
def live (p : Pool) : List Nat := (List.range p.slots.size).filter fun id => id ∉ p.free

/-- One slot leads to another, from a list to a member and on. -/
def Reaches (p : Pool) : Nat → Nat → Prop :=
  Relation.ReflTransGen fun i j => j ∈ (p.get i).members

/-- What is in use is what is not free. -/
lemma Owns.perm_live (h : p.Owns used) : p.live.Perm used := by
  have hnodup : p.live.Nodup := List.nodup_range.filter _
  rw [List.perm_ext_iff_of_nodup hnodup h.nodup_used]
  intro id
  have hmem : id ∈ used ++ p.free ↔ id ∈ List.range p.slots.size := h.mem_iff
  have hdisjoint : id ∈ used → id ∉ p.free := fun hused hfree =>
    (List.nodup_append.mp h.nodup).2.2 id hused id hfree rfl
  simp only [List.mem_append, List.mem_range] at hmem
  simp only [live, List.mem_filter, List.mem_range, decide_eq_true_eq]
  tauto

lemma members_of_draft? {piece : Piece} (h : piece.draft? = some d) : d.members = [] := by
  match piece, h with
  | .shape (.leaf kind text), h => cases h; rfl
  | .shape (.range kind r), h => cases h; rfl
  | .mark m text, h => cases h; rfl

/-- The slots that pieces take are their own and those of the members. -/
lemma Holds.perm_members (h : p.Holds ids pieces used) :
    (ids ++ used.flatMap fun id => (p.get id).members).Perm used := by
  induction h with
  | nil => exact .refl _
  | single hdraft _ ih =>
      rw [List.flatMap_cons, members_of_draft? hdraft]
      exact ih.cons _
  | @list id ids kind members children inner pieces used hget _ _ ihm ihr =>
      have hmembers : (p.get id).members = members := by rw [hget]; rfl
      rw [List.flatMap_cons, hmembers, List.flatMap_append, List.cons_append]
      refine List.Perm.cons _ ?_
      rw [List.perm_iff_count] at ihm ihr ⊢
      intro a
      have hinner := ihm a
      have hrest := ihr a
      simp only [List.count_append] at hinner hrest ⊢
      omega

/-- The slots that pieces take are reached from them. -/
lemma Holds.reached (h : p.Holds ids pieces used) :
    ∀ j ∈ used, ∃ i ∈ ids, p.Reaches i j := by
  induction h with
  | nil => simp
  | single _ _ ih =>
      intro j hj
      rcases List.mem_cons.mp hj with rfl | hj
      · exact ⟨j, List.mem_cons_self, .refl⟩
      · obtain ⟨i, hi, hreaches⟩ := ih j hj
        exact ⟨i, List.mem_cons_of_mem _ hi, hreaches⟩
  | @list id ids kind members children inner pieces used hget _ _ ihm ihr =>
      intro j hj
      rcases List.mem_cons.mp hj with rfl | hj
      · exact ⟨j, List.mem_cons_self, .refl⟩
      rcases List.mem_append.mp hj with hj | hj
      · obtain ⟨i, hi, hreaches⟩ := ihm j hj
        refine ⟨id, List.mem_cons_self, .head ?_ hreaches⟩
        rw [hget]
        exact hi
      · obtain ⟨i, hi, hreaches⟩ := ihr j hj
        exact ⟨i, List.mem_cons_of_mem _ hi, hreaches⟩

/-! ## Releases -/

/-- Since the time when `stale` was free, only slots without members have been released.  The last
slot to be released is the next to be used, so what has stayed free is at the end. -/
def Spent (p : Pool) (stale : List Nat) : Prop :=
  ∃ spent rest, p.free = spent ++ rest ∧ rest <:+ stale ∧ ∀ id ∈ spent, (p.get id).members = []

lemma spent_free (p : Pool) : p.Spent p.free := ⟨[], p.free, rfl, List.suffix_refl _, by simp⟩

/-- A draft without members adds none. -/
lemma members_get_set (hd : d.members = []) (h : id = j ∨ (p.get j).members = []) :
    ((p.set id d).get j).members = [] := by
  by_cases hid : id = j
  · subst hid
    by_cases hlt : id < p.slots.size
    · rw [get_set_self hlt, hd]
    · simp [get, Pool.set, hlt, default, Draft.members]
  · rw [get_set_of_ne hid]
    exact h.resolve_left hid

/-- A change that keeps the members of drafts keeps those of slots. -/
lemma members_get_modify {f : Draft → Draft} (hf : ∀ d, (f d).members = d.members) (p : Pool)
    (id j : Nat) : ((p.modify id f).get j).members = (p.get j).members := by
  by_cases hlt : id < p.slots.size
  · rw [modify_eq_set hlt]
    by_cases hid : id = j
    · subst hid
      rw [get_set_self hlt, hf]
    · rw [get_set_of_ne hid]
  · have hsame : p.slots.modify id f = p.slots := by
      apply Array.ext (by simp)
      intro i hi hi'
      have hne : id ≠ i := by omega
      simp [Array.getElem_modify, hne]
    rw [modify, hsame]

namespace Spent

/-- A change of drafts, with the same slots free. -/
lemma of_members (h : p.Spent stale) (hfree : q.free = p.free)
    (hmembers : ∀ j ∈ p.free, (p.get j).members = [] → (q.get j).members = []) :
    q.Spent stale := by
  obtain ⟨spent, rest, heq, hrest, hspent⟩ := h
  refine ⟨spent, rest, hfree.trans heq, hrest, ?_⟩
  intro j hj
  exact hmembers j (heq ▸ List.mem_append_left _ hj) (hspent j hj)

lemma set (h : p.Spent stale) (hd : d.members = []) (id : Nat) : (p.set id d).Spent stale :=
  h.of_members rfl fun _ _ hj => members_get_set hd (Or.inr hj)

lemma modify (h : p.Spent stale) {f : Draft → Draft} (hf : ∀ d, (f d).members = d.members)
    (id : Nat) : (p.modify id f).Spent stale :=
  h.of_members rfl fun j _ hj => (members_get_modify hf p id j).trans hj

lemma release (h : p.Spent stale) (hid : (p.get id).members = []) : (p.release id).Spent stale := by
  obtain ⟨spent, rest, heq, hrest, hspent⟩ := h
  refine ⟨id :: spent, rest, congrArg (id :: ·) heq, hrest, ?_⟩
  intro j hj
  rw [get_release]
  rcases List.mem_cons.mp hj with rfl | hj
  · exact hid
  · exact hspent j hj

lemma foldl_release (h : p.Spent stale) {ids : List Nat}
    (hids : ∀ id ∈ ids, (p.get id).members = []) : (ids.foldl Pool.release p).Spent stale := by
  induction ids generalizing p with
  | nil => exact h
  | cons id ids ih =>
      refine ih (h.release (hids id List.mem_cons_self)) ?_
      intro j hj
      rw [get_release]
      exact hids j (List.mem_cons_of_mem _ hj)

lemma insert (h : p.Spent stale) (hd : d.members = []) : (p.insert d).2.Spent stale := by
  obtain ⟨spent, rest, heq, hrest, hspent⟩ := h
  rw [insert_eq]
  cases spent with
  | cons id spent =>
      rw [heq]
      refine ⟨spent, rest, rfl, hrest, ?_⟩
      intro j hj
      exact members_get_set hd (Or.inr (hspent j (List.mem_cons_of_mem _ hj)))
  | nil =>
      cases rest with
      | cons id rest =>
          rw [heq]
          exact ⟨[], rest, rfl, (List.suffix_cons id rest).trans hrest, by simp⟩
      | nil =>
          rw [heq]
          exact ⟨[], [], rfl, List.nil_suffix, by simp⟩

end Spent

end Pool

namespace WorkStack

variable {w w' : WorkStack} {pieces : List Piece} {stale : List Nat} {offset base : Nat}

/-! ## Stacks and their places -/

/-- Every slot is free, on the stack or a member of a list in use, in one of these places alone and
there once; and the stack leads to all that is in use. -/
structure Partitioned (w : WorkStack) : Prop where
  places : (w.pool.free ++ w.items.toList ++
    w.pool.live.flatMap fun id => (w.pool.get id).members).Perm (List.range w.pool.slots.size)
  reached : ∀ id ∈ w.pool.live, ∃ top ∈ w.items.toList, w.pool.Reaches top id

/-- **A stack that shows pieces is partitioned.** -/
theorem Shows.partitioned (h : w.Shows pieces) : w.Partitioned := by
  obtain ⟨used, hholds, howns⟩ := h
  have hlive := howns.perm_live
  refine ⟨?_, ?_⟩
  · have hmembers : (w.items.toList ++
        w.pool.live.flatMap fun id => (w.pool.get id).members).Perm used :=
      ((List.reverse_perm _).symm.append (hlive.flatMap_right _)).trans hholds.perm_members
    rw [List.append_assoc]
    exact (hmembers.append_left _).trans (List.perm_append_comm.trans howns)
  · intro id hid
    obtain ⟨top, htop, hreaches⟩ := hholds.reached id (hlive.subset hid)
    exact ⟨top, List.mem_reverse.mp htop, hreaches⟩

/-- A place on a stack. -/
lemma exists_split (h : w.Shows pieces) (hoffset : offset ≤ w.size) :
    ∃ upper lower, pieces = upper ++ lower ∧ lower.length = offset := by
  rw [h.size_eq] at hoffset
  refine ⟨pieces.take (pieces.length - offset), pieces.drop (pieces.length - offset),
    (List.take_append_drop _ _).symm, ?_⟩
  rw [List.length_drop]
  omega

lemma Shows.exists_join (h : w.Shows pieces) (hoffset : offset ≤ w.size) :
    ∃ pieces', (w.join offset).Shows pieces' := by
  obtain ⟨upper, lower, rfl, rfl⟩ := exists_split h hoffset
  exact ⟨_, shows_join h⟩

lemma Shows.exists_demote_above (h : w.Shows pieces) (hoffset : offset ≤ w.size) :
    ∃ pieces', (w.demote offset false).Shows pieces' := by
  obtain ⟨upper, lower, rfl, rfl⟩ := exists_split h hoffset
  exact ⟨_, shows_demote_above h⟩

/-! ## What the operations release -/

lemma spent_push (h : w.pool.Spent stale) {d : Draft} (hd : d.members = []) :
    (w.push d).pool.Spent stale := by
  rw [push_eq]
  exact h.insert hd

lemma members_append (text : Buffer) (d : Draft) : (d.append text).members = d.members := by
  cases d <;> rfl

lemma spent_appendLiteral (h : w.pool.Spent stale) (text : Bytes) :
    (w.appendLiteral text).pool.Spent stale := by
  rw [appendLiteral]
  split
  · split
    · exact h.modify (members_append _) _
    · exact spent_push h rfl
  · exact spent_push h rfl

lemma spent_absorb {p : Pool} (h : p.Spent stale) (kind : ListKind) (id : Nat) :
    (absorb kind p id).Spent stale := by
  rw [absorb]
  split
  next hget => exact h.release (by rw [hget]; rfl)
  next hget =>
    split
    · exact (h.set rfl id).release (Pool.members_get_set rfl (Or.inl rfl))
    · exact h
  next => exact h

/-- What a list takes up is what it frees. -/
lemma mem_free_foldl_absorb {p : Pool} {ids : List Nat} {kind : ListKind} {j : Nat}
    (hj : j ∈ (ids.foldl (absorb kind) p).free) : j ∈ p.free ∨ j ∈ ids := by
  induction ids generalizing p with
  | nil => exact Or.inl hj
  | cons id ids ih =>
      have habsorb : ∀ {j}, j ∈ (absorb kind p id).free → j ∈ p.free ∨ j = id := by
        intro j hj
        rw [absorb] at hj
        split at hj
        · exact (List.mem_cons.mp hj).symm
        · split at hj
          · exact (List.mem_cons.mp hj).symm
          · exact Or.inl hj
        · exact Or.inl hj
      rcases ih hj with hj | hj
      · rcases habsorb hj with hj | rfl
        · exact Or.inl hj
        · exact Or.inr List.mem_cons_self
      · exact Or.inr (List.mem_cons_of_mem _ hj)

lemma spent_gather (hw : w.Shows pieces) (h : w.pool.Spent stale) (kind : ListKind) (offset : Nat) :
    (w.gather kind offset).pool.Spent stale := by
  obtain ⟨used, hholds, howns⟩ := hw
  obtain ⟨howns', -, -⟩ := howns.insert (.list kind [])
  rw [gather_eq]
  have hfold : ((w.items.extract offset).toList.foldl (absorb kind)
      (w.pool.insert (.list kind [])).2).Spent stale := by
    have hspent : ∀ {ids : List Nat} {p : Pool}, p.Spent stale →
        (ids.foldl (absorb kind) p).Spent stale := by
      intro ids
      induction ids with
      | nil => exact id
      | cons id ids ih => exact fun hp => ih (spent_absorb hp kind id)
    exact hspent (h.insert rfl)
  -- the new list is in use, so its members are not lost
  have hfresh : (w.pool.insert (.list kind [])).1 ∉ used :=
    (List.nodup_cons.mp howns'.nodup_used).1
  refine hfold.of_members rfl ?_
  intro j hj hnone
  have hne : (w.pool.insert (.list kind [])).1 ≠ j := by
    rintro rfl
    rcases mem_free_foldl_absorb hj with hj | hj
    · exact (List.nodup_append.mp howns'.nodup).2.2 _ List.mem_cons_self _ hj rfl
    · refine hfresh (hholds.subset ?_)
      rw [Array.toList_extract, List.extract_eq_take_drop] at hj
      exact List.mem_reverse.mpr (List.mem_of_mem_drop (List.mem_of_mem_take hj))
  rwa [Pool.get_set_of_ne hne]

lemma spent_join (hw : w.Shows pieces) (h : w.pool.Spent stale) (offset : Nat) :
    (w.join offset).pool.Spent stale := by
  rw [join]
  split
  · exact spent_push h rfl
  · exact h
  · exact spent_gather hw h .concat offset

lemma spent_joinSegment (hw : w.Shows pieces) (h : w.pool.Spent stale) :
    w.joinSegment.pool.Spent stale := spent_join hw h _

lemma members_of_isMark {d : Draft} (h : d.isMark = true) : d.members = [] := by
  cases d with
  | mark m text => rfl
  | _ => cases h

/-- What takes part in a run of text has no members. -/
lemma members_of_foldable? {d : Draft} {text : Buffer} (h : d.foldable? = some text) :
    d.members = [] := by
  cases d with
  | list kind members => cases h
  | _ => rfl

lemma spent_demotion_step {d : Demotion} (h : d.pool.Spent stale) (id : Nat) :
    (d.step id).pool.Spent stale := by
  obtain ⟨pool, kept, run⟩ := d
  cases hfold : (pool.get id).foldable? with
  | none =>
      simp only [Demotion.step, hfold]
      exact h
  | some text =>
      cases run with
      | none =>
          simp only [Demotion.step, hfold]
          exact h.set rfl id
      | some first =>
          simp only [Demotion.step, hfold]
          refine (h.modify (members_append _) first).release ?_
          rw [Pool.members_get_modify (members_append _)]
          exact members_of_foldable? hfold

lemma spent_demote (h : w.pool.Spent stale) (offset : Nat) (joinBelow : Bool) :
    (w.demote offset joinBelow).pool.Spent stale := by
  have hspent : ∀ {ids : List Nat} {d : Demotion}, d.pool.Spent stale →
      (ids.foldl Demotion.step d).pool.Spent stale := by
    intro ids
    induction ids with
    | nil => exact id
    | cons id ids ih => exact fun hd => ih (spent_demotion_step hd id)
  rw [demote_eq]
  simp only [← Array.foldl_toList]
  exact hspent h

/-- What is read as a range has no members, but for the mark that opens the block. -/
lemma members_of_readRange? {options : CompileOptions} {first : Draft} {rest : List Draft}
    (h : (readRange? options (first :: rest)).isSome) : ∀ d ∈ rest, d.members = [] := by
  have hbound : ∀ {d : Draft}, d.boundText?.isSome → d.members = [] := by
    intro d hd
    cases d with
    | list kind members => cases hd
    | _ => rfl
  have hbounds : ∀ {a b : Draft} (step : Int64), (do
      Progression.ofTexts? options (← a.boundText?) (← b.boundText?) step).isSome →
      a.members = [] ∧ b.members = [] := by
    intro a b step hsome
    cases ha : a.boundText? with
    | none => simp [ha] at hsome
    | some x =>
        cases hb : b.boundText? with
        | none => simp [ha, hb] at hsome
        | some y => exact ⟨hbound (by simp [ha]), hbound (by simp [hb])⟩
  rw [readRange?.eq_def] at h
  split at h
  next heq =>
    cases heq
    simpa [Draft.members] using hbounds 0 h
  next a _ b _ step heq =>
    cases heq
    cases hstep : Decimal.read? step.toList with
    | none => simp [hstep] at h
    | some n =>
        rw [hstep] at h
        simpa [Draft.members] using hbounds n h
  next => cases h

/-- The draft at a position, and those above it. -/
lemma draftsFrom_eq_cons (hbase : base < w.size) :
    ∃ rest, w.draftsFrom base = w.get base :: rest := by
  have hlt : base < w.items.toList.length := hbase
  refine ⟨(w.items.toList.drop (base + 1)).map w.pool.get, ?_⟩
  have hdrop : (w.items.extract base).toList = w.items.toList.drop base := by
    simp [List.take_of_length_le]
  rw [draftsFrom, hdrop, List.drop_eq_getElem_cons hlt, List.map_cons, WorkStack.get]
  simp [show base < w.items.size from hbase]

lemma spent_closeRange? {options : CompileOptions} (h : w.pool.Spent stale) (hbase : base < w.size)
    (hopening : (w.get base).members = []) (hclose : w.closeRange? options base = some w') :
    w'.pool.Spent stale := by
  rw [closeRange?] at hclose
  split at hclose
  · cases hclose
  next kind p hread =>
    obtain ⟨rest, hrest⟩ := draftsFrom_eq_cons hbase
    rw [hrest] at hread
    have hmembers := members_of_readRange? (by rw [hread]; rfl)
    have hall : ∀ id ∈ (w.items.extract base).toList, (w.pool.get id).members = [] := by
      intro id hid
      have hmem : w.pool.get id ∈ w.draftsFrom base := List.mem_map_of_mem hid
      rw [hrest] at hmem
      rcases List.mem_cons.mp hmem with heq | hmem
      · rw [heq, hopening]
      · exact hmembers _ hmem
    obtain rfl := Option.some.inj hclose
    rw [← Array.foldl_toList]
    exact spent_push (w := ⟨_, _⟩) (h.foldl_release hall) rfl

end WorkStack

end BraceExpansion
