import BraceExpansion.Proofs.Draft.Stack

/-!
# Blocks that come to nothing, and blocks that become ranges

Text in place of punctuation is made in one pass from the bottom up that changes slots while it
reads them.  `Demotion.Shows` is the invariant of the pass: what it has done is on the stack, and
what comes next is still where it was.  It follows that `demote` is `Piece.settle`, piece after
piece (`WorkStack.shows_demote`), and that what a block is read as depends on its pieces alone
(`WorkStack.shows_closeRange?`).
-/

namespace BraceExpansion

namespace WorkStack

variable {w : WorkStack} {pieces upper lower : List Piece}

/-! ## Back to text -/

/-- A demotion has turned into `done` what stood above `lower`, and the slots `other` of what comes
next are untouched.  A run is open exactly when the next text belongs to the literal on top. -/
structure Demotion.Shows (d : Demotion) (done lower : List Piece) (other : List Nat) : Prop where
  holds : ∃ used, d.pool.Holds d.kept.toList.reverse (done ++ lower) used ∧
    d.pool.Owns (used ++ other)
  resting : d.run = none → ∀ piece ∈ done.head?, piece.isLiteral = false
  running : ∀ first, d.run = some first →
    d.kept.toList.reverse.head? = some first ∧
      ∃ before below, done = .shape (.leaf .literal before) :: below

lemma Demotion.shows_keep {d : Demotion} {done : List Piece} {other here : List Nat} {id : Nat}
    {piece : Piece} (h : d.Shows done lower (here ++ other)) (hhere : d.pool.Holds [id] [piece] here)
    (hliteral : piece.isLiteral = false) :
    Demotion.Shows ⟨d.pool, d.kept.push id, none⟩ (piece :: done) lower other := by
  obtain ⟨used, hholds, howns⟩ := h.holds
  refine ⟨⟨here ++ used, ?_, ?_⟩, ?_, ?_⟩
  · simpa using hhere.append hholds
  · refine howns.perm ?_
    rw [← List.append_assoc]
    exact List.perm_append_comm.append_right other
  · intro _ p hp
    cases hp
    exact hliteral
  · intro first hfirst
    cases hfirst

lemma Demotion.shows_open {d : Demotion} {done : List Piece} {other : List Nat} {id : Nat}
    (h : d.Shows done lower (id :: other)) (hrun : d.run = none) (text : Bytes) :
    Demotion.Shows ⟨d.pool.set id (.leaf .literal text.toArray), d.kept.push id, some id⟩
      (Piece.appendText done text) lower other := by
  obtain ⟨used, hholds, howns⟩ := h.holds
  have hperm : (id :: used ++ other).Perm (used ++ id :: other) := List.perm_middle.symm
  have howns' := howns.perm hperm
  have hid : id < d.pool.slots.size := howns'.lt_size List.mem_cons_self
  have hnotMem : id ∉ used ++ other := (List.nodup_cons.mp howns'.nodup_used).1
  rw [Piece.appendText_of_not_literal (h.resting hrun)]
  refine ⟨⟨id :: used, ?_, howns'.set _ _⟩, ?_, ?_⟩
  · rw [Array.toList_push, List.reverse_append]
    refine .single (by rw [Pool.get_set_self hid]; rfl) (hholds.frame ?_)
    intro j hj
    refine Pool.get_set_of_ne ?_ _
    rintro rfl
    exact hnotMem (List.mem_append_left _ hj)
  · intro hnone
    cases hnone
  · intro first hfirst
    cases hfirst
    exact ⟨by simp, text, done, rfl⟩

lemma Demotion.shows_extend {d : Demotion} {done : List Piece} {other : List Nat} {id first : Nat}
    (h : d.Shows done lower (id :: other)) (hrun : d.run = some first) (text : Bytes) :
    Demotion.Shows ⟨(d.pool.modify first (·.append text.toArray)).release id, d.kept, some first⟩
      (Piece.appendText done text) lower other ∧
    ∀ j ∈ other, ((d.pool.modify first (·.append text.toArray)).release id).get j
      = d.pool.get j := by
  obtain ⟨used, hholds, howns⟩ := h.holds
  obtain ⟨hhead, before, below, rfl⟩ := h.running first hrun
  obtain ⟨top, rest, here, others, hids, rfl, hhere, hrest⟩ := hholds.uncons
  obtain rfl : top = first := by simpa [hids] using hhead
  have hget : d.pool.get top = .leaf .literal before.toArray := by
    cases hhere with
    | single hdraft _ => exact (Option.some.inj hdraft).symm
  obtain rfl : here = [top] := hhere.used_eq (by simp [Piece.draft?])
  have htop : top < d.pool.slots.size := howns.lt_size (by simp)
  have hnotMem : top ∉ others ++ id :: other := (List.nodup_cons.mp howns.nodup_used).1
  have hframe : ∀ j ∈ others ++ id :: other,
      (d.pool.set top (.leaf .literal (before ++ text).toArray)).get j = d.pool.get j := by
    intro j hj
    refine Pool.get_set_of_ne ?_ _
    rintro rfl
    exact hnotMem hj
  have hset : d.pool.modify top (·.append text.toArray)
      = d.pool.set top (.leaf .literal (before ++ text).toArray) := by
    rw [Pool.modify_eq_set htop, hget]
    simp [Draft.append]
  rw [hset]
  refine ⟨⟨⟨top :: others, ?_, ?_⟩, ?_, ?_⟩, ?_⟩
  · dsimp only
    rw [hids]
    refine .single (by rw [Pool.get_release, Pool.get_set_self htop]; rfl) (hrest.frame ?_)
    intro j hj
    exact hframe j (List.mem_append_left _ hj)
  · refine ((howns.set _ _).perm ?_).release
    exact List.perm_middle.symm
  · intro hnone
    cases hnone
  · intro first hfirst
    cases hfirst
    exact ⟨hhead, before ++ text, below, rfl⟩
  · intro j hj
    exact hframe j (List.mem_append_right _ (List.mem_cons_of_mem _ hj))

/-- One step of a demotion settles one piece. -/
lemma Demotion.shows_step {d : Demotion} {done : List Piece} {other here : List Nat} {id : Nat}
    {piece : Piece} (h : d.Shows done lower (here ++ other))
    (hhere : d.pool.Holds [id] [piece] here) :
    (d.step id).Shows (piece.settle done) lower other ∧
      ∀ j ∈ other, (d.step id).pool.get j = d.pool.get j := by
  obtain ⟨pool, kept, run⟩ := d
  have hfold : (pool.get id).foldable? = piece.text?.map List.toArray := hhere.tops.foldable?_eq
  cases htext : piece.text? with
  | none =>
      have hstep : Demotion.step ⟨pool, kept, run⟩ id = ⟨pool, kept.push id, none⟩ := by
        simp only [step, hfold, htext, Option.map_none]
      rw [hstep, Piece.settle, htext]
      exact ⟨shows_keep h hhere (Piece.isLiteral_of_text?_eq_none htext), fun _ _ => rfl⟩
  | some text =>
      have hflat : piece.draft? ≠ none := Piece.draft?_ne_none_of_text? htext
      obtain rfl : here = [id] := hhere.used_eq (by simpa using hflat)
      rw [Piece.settle, htext]
      cases run with
      | none =>
          have hstep : Demotion.step ⟨pool, kept, none⟩ id
              = ⟨pool.set id (.leaf .literal text.toArray), kept.push id, some id⟩ := by
            simp only [step, hfold, htext, Option.map_some]
          rw [hstep]
          refine ⟨shows_open h rfl text, ?_⟩
          intro j hj
          obtain ⟨used, -, howns⟩ := h.holds
          have hnodup := (List.nodup_append.mp howns.nodup_used).2.1
          refine Pool.get_set_of_ne ?_ _
          rintro rfl
          exact (List.nodup_cons.mp hnodup).1 hj
      | some first =>
          have hstep : Demotion.step ⟨pool, kept, some first⟩ id
              = ⟨(pool.modify first (·.append text.toArray)).release id, kept, some first⟩ := by
            simp only [step, hfold, htext, Option.map_some]
          rw [hstep]
          exact shows_extend h rfl text

/-- A whole demotion settles one piece after the other, from the bottom up. -/
lemma Demotion.shows_foldl {d : Demotion} {done pieces : List Piece} {ids used other : List Nat}
    (h : d.Shows done lower (used ++ other)) (hholds : d.pool.Holds ids pieces used) :
    (ids.foldl Demotion.step d).Shows (pieces.foldl (fun done p => p.settle done) done) lower
      other := by
  induction pieces generalizing d done ids used with
  | nil => cases hholds; exact h
  | cons piece pieces ih =>
      obtain ⟨id, rest, here, others, rfl, rfl, hhere, hrest⟩ := hholds.uncons
      rw [List.append_assoc] at h
      obtain ⟨hstep, hframe⟩ := shows_step h hhere
      rw [List.foldl_cons, List.foldl_cons]
      exact ih hstep (hrest.frame fun j hj => hframe j (List.mem_append_left _ hj))

lemma shows_demotion (h : w.Shows (upper ++ lower)) {pieces : List Piece}
    (hpieces : upper.foldr Piece.settle [] ++ lower = pieces) :
    let done := (w.items.extract lower.length).foldl Demotion.step
      ⟨w.pool, w.items.shrink lower.length, none⟩
    WorkStack.Shows ⟨done.pool, done.kept⟩ pieces := by
  obtain ⟨above, below, usedAbove, usedBelow, htaken, hleft, habove, hbelow, howns⟩ := h.cut
  obtain ⟨usedAbove', hperm, habove'⟩ := habove.reverse
  have hstart : Demotion.Shows ⟨w.pool, w.items.shrink lower.length, none⟩ [] lower
      (usedAbove' ++ []) := by
    refine ⟨⟨usedBelow, ?_, ?_⟩, ?_, ?_⟩
    · dsimp only
      rw [hleft, List.reverse_reverse]
      exact hbelow
    · refine howns.perm ?_
      rw [List.append_nil]
      exact List.perm_append_comm.trans (hperm.append_right usedBelow)
    · simp
    · intro first hfirst
      cases hfirst
  have hdone := Demotion.shows_foldl hstart habove'
  obtain ⟨used, hused, howned⟩ := hdone.holds
  intro done
  have hdoneEq : done = above.reverse.foldl Demotion.step
      ⟨w.pool, w.items.shrink lower.length, none⟩ := by
    rw [← htaken, Array.foldl_toList]
  rw [hdoneEq, ← hpieces, ← List.foldl_reverse]
  exact ⟨used, hused, by simpa using howned⟩

lemma demote_eq (w : WorkStack) (offset : Nat) (joinBelow : Bool) :
    w.demote offset joinBelow =
      let start := w.demotionStart offset joinBelow
      let done := (w.items.extract start).foldl Demotion.step
        ⟨w.pool, w.items.shrink start, none⟩
      ⟨done.pool, done.kept⟩ := rfl

/-- What stands above a position becomes text, apart from what is below. -/
theorem shows_demote_above (h : w.Shows (upper ++ lower)) :
    (w.demote lower.length false).Shows (upper.foldr Piece.settle [] ++ lower) := by
  have hstart : w.demotionStart lower.length false = lower.length := by
    simp [demotionStart]
  rw [demote_eq, hstart]
  exact shows_demotion h rfl

/-- What stands above a position becomes text, together with a literal just below. -/
theorem shows_demote (h : w.Shows (upper ++ lower)) :
    (w.demote lower.length true).Shows (upper.foldr Piece.settle lower) := by
  rw [demote_eq]
  match lower, h with
  | [], h => exact shows_demotion h (by simp)
  | piece :: below, h =>
    have hget : (w.get below.length).Tops piece := h.tops
    cases hliteral : piece.isLiteral with
    | true =>
        have hstart : w.demotionStart (piece :: below).length true = below.length := by
          simp [demotionStart, hget.isLiteral_eq, hliteral]
        rw [hstart]
        have hsplit : w.Shows ((upper ++ [piece]) ++ below) := by simpa using h
        refine shows_demotion hsplit ?_
        match piece, hliteral with
        | .shape (.leaf .literal text), _ =>
          rw [List.foldr_append, ← Piece.foldr_settle_append (by simp [Piece.settle, Piece.text?,
            Piece.appendText])]
          rfl
    | false =>
        have hstart : w.demotionStart (piece :: below).length true = (piece :: below).length := by
          simp [demotionStart, hget.isLiteral_eq, hliteral]
        rw [hstart]
        refine shows_demotion h ?_
        rw [← Piece.foldr_settle_append (by simpa using hliteral), List.nil_append]

/-! ## Ranges -/

lemma owns_foldl_release {p : Pool} {ids used : List Nat} (h : p.Owns (ids ++ used)) :
    (ids.foldl Pool.release p).Owns used ∧ ∀ j, (ids.foldl Pool.release p).get j = p.get j := by
  induction ids generalizing p with
  | nil => exact ⟨h, fun _ => rfl⟩
  | cons id ids ih =>
      obtain ⟨howns, hget⟩ := ih (p := p.release id) (Pool.Owns.release h)
      exact ⟨howns, hget⟩

lemma draftsFrom_tops {opening : Piece} (h : w.Shows (upper ++ opening :: lower)) :
    List.Forall₂ Draft.Tops (w.draftsFrom lower.length) (opening :: upper.reverse) := by
  have hsplit : w.Shows ((upper ++ [opening]) ++ lower) := by simpa using h
  obtain ⟨above, -, usedAbove, -, htaken, -, habove, -, -⟩ := hsplit.cut
  obtain ⟨_, -, hreverse⟩ := habove.reverse
  have htops := hreverse.tops_all
  rw [List.reverse_append, List.reverse_singleton] at htops
  rw [draftsFrom, htaken]
  exact htops

/-- A block becomes a range exactly when its pieces are read as one. -/
theorem shows_closeRange? (options : CompileOptions) {opening : Piece}
    (hopening : opening.draft? ≠ none) (h : w.Shows (upper ++ opening :: lower)) :
    match Piece.readRange? options upper.reverse with
    | some (kind, p) => ∃ w', w.closeRange? options lower.length = some w' ∧
        w'.Shows (.shape (.range kind p) :: lower)
    | none => w.closeRange? options lower.length = none := by
  have hread := Draft.readRange?_eq options (draftsFrom_tops h)
  cases hrange : Piece.readRange? options upper.reverse with
  | none => simp only [closeRange?, hread, hrange]
  | some range =>
      obtain ⟨kind, p⟩ := range
      have hflat : ∀ piece ∈ upper.reverse, piece.draft? ≠ none :=
        Piece.readRange?_flat (by rw [hrange]; rfl)
      have hsplit : w.Shows ((upper ++ [opening]) ++ lower) := by simpa using h
      obtain ⟨above, below, usedAbove, usedBelow, htaken, hleft, habove, hbelow, howns⟩ :=
        hsplit.cut
      have hused : usedAbove = above := by
        refine habove.used_eq ?_
        intro piece hpiece
        rcases List.mem_append.mp hpiece with hpiece | hpiece
        · exact hflat piece (List.mem_reverse.mpr hpiece)
        · rw [List.mem_singleton] at hpiece
          exact hpiece ▸ hopening
      have hfree : (w.items.extract lower.length).foldl Pool.release w.pool
          = above.reverse.foldl Pool.release w.pool := by
        rw [← htaken, Array.foldl_toList]
      have howns' : w.pool.Owns (above.reverse ++ usedBelow) :=
        howns.perm (by rw [hused]; exact (List.reverse_perm above).append_right usedBelow)
      obtain ⟨howned, hget⟩ := owns_foldl_release howns'
      refine ⟨_, by simp only [closeRange?, hread, hrange]; rfl, ?_⟩
      refine shows_push rfl ⟨usedBelow, ?_, ?_⟩
      · dsimp only
        rw [hfree, hleft, List.reverse_reverse]
        exact hbelow.frame fun j _ => hget j
      · dsimp only
        rw [hfree]
        exact howned

end WorkStack

end BraceExpansion
