import BraceExpansion.Proofs.Reading.State

/-!
# What holds of every shape

The shapes of a reading come from tokens, from ranges, and from shapes that were there before.  So a
property that these three keep holds of all of them.

**Properties.**  `Shape.Kept R D` is about two properties: `R` of the shapes in rows, and `D` of what
rows are joined into, which need not go into a row again.  `Token.Yields R` is what tokens have to
do for them.

**Runs.**  `Level.Every R` and `Reading.Every R` say that `R` holds of all shapes in all rows.  A token
keeps this up (`every_step`), so a run does, and at the end `D` holds of the whole pattern
(**`Reading.every_joined`**), if only closed blocks are joined or `D` is as good as `R`.
-/

namespace BraceExpansion

/-- What rows are made of has `R`, and what they are joined into has `D`. -/
structure Shape.Kept (R D : Shape → Prop) : Prop where
  joined : ∀ row, (∀ s ∈ row, R s) → D (joined (fuse row))
  choice : ∀ shapes, 2 ≤ shapes.length → (∀ s ∈ shapes, D s) → R (gathered .alternate shapes)
  range : ∀ options first last step kind p,
    Progression.ofTexts? options first last step = some (kind, p) → R (.range kind p)

/-- What a token adds to a row has `R`. -/
structure Token.Yields (R : Shape → Prop) (t : Token) : Prop where
  text : R (.text t.text)
  escape : t.kind = .escape → R (.leaf .escape t.text)
  quote : t.kind = .quote → R (.leaf .quote t.text)

/-- A range in a block is made from two texts. -/
lemma Piece.ofTexts?_of_readRange? {options : CompileOptions} {pieces : List Piece}
    {kind : RangeKind} {p : Progression} (h : readRange? options pieces = some (kind, p)) :
    ∃ first last step, Progression.ofTexts? options first last step = some (kind, p) := by
  rw [readRange?.eq_def] at h
  split at h
  · simp only [Option.bind_eq_bind, Option.bind_eq_some_iff] at h
    rcases h with ⟨_, -, _, -, h⟩
    exact ⟨_, _, _, h⟩
  · simp only [Option.bind_eq_bind, Option.bind_eq_some_iff] at h
    rcases h with ⟨_, -, _, -, _, -, h⟩
    exact ⟨_, _, _, h⟩
  · cases h

variable {R D : Shape → Prop} {more : List Shape}

namespace Level

variable {l : Level} {text : Bytes}

/-- `R` holds of all shapes of a level, and of its punctuation as text. -/
structure Every (R : Shape → Prop) (l : Level) : Prop where
  opening : R (.text l.opening)
  alternatives : ∀ a ∈ l.alternatives, (∀ s ∈ a.1, R s) ∧ R (.text a.2)
  bounds : ∀ b ∈ l.bounds, (∀ s ∈ b.1, R s) ∧ R (.text b.2)
  current : ∀ s ∈ l.current, R s

namespace Every

lemma start (h : R (.text text)) : Every R { opening := text } := ⟨h, by simp, by simp, by simp⟩

lemma segment (h : l.Every R) : ∀ s ∈ l.segment, R s := by
  intro s hs
  rw [Level.segment, List.mem_append, List.mem_flatMap] at hs
  rcases hs with ⟨b, hb, hs⟩ | hs
  · obtain ⟨hrow, htext⟩ := h.bounds b (List.mem_reverse.mp hb)
    rcases List.mem_append.mp hs with hs | hs
    · exact hrow s hs
    · rw [List.mem_singleton.mp hs]
      exact htext
  · exact h.current s hs

/-- A block as text, where its alternatives may stand in a row. -/
lemma row (h : l.Every R) (halternatives : ∀ a ∈ l.alternatives, R (Shape.joined (fuse a.1))) :
    ∀ s ∈ l.row, R s := by
  intro s hs
  rw [Level.row, List.cons_append, List.mem_cons, List.mem_append, List.mem_flatMap] at hs
  rcases hs with rfl | ⟨a, ha, hs⟩ | hs
  · exact h.opening
  · have ha := List.mem_reverse.mp ha
    rcases List.mem_cons.mp hs with rfl | hs
    · exact halternatives a ha
    · rw [List.mem_singleton.mp hs]
      exact (h.alternatives a ha).2
  · exact h.segment s hs

lemma add (h : l.Every R) (hmore : ∀ s ∈ more, R s) : (l.add more).Every R := by
  refine ⟨h.opening, h.alternatives, h.bounds, ?_⟩
  intro s hs
  rcases List.mem_append.mp hs with hs | hs
  · exact h.current s hs
  · exact hmore s hs

lemma comma (h : l.Every R) (htext : R (.text text)) : (l.comma text).Every R := by
  refine ⟨h.opening, ?_, by simp [Level.comma], by simp [Level.comma]⟩
  intro a ha
  rcases List.mem_cons.mp ha with rfl | ha
  · exact ⟨h.segment, htext⟩
  · exact h.alternatives a ha

lemma separate (h : l.Every R) (htext : R (.text text)) : (l.separate text).Every R := by
  have hmore : ∀ s ∈ [Shape.text text], R s := by simpa using htext
  rw [Level.separate]
  split
  · exact h.add hmore
  · split
    · refine ⟨h.opening, h.alternatives, ?_, by simp⟩
      intro b hb
      rcases List.mem_cons.mp hb with rfl | hb
      · exact ⟨h.current, htext⟩
      · exact h.bounds b hb
    · exact add ⟨h.opening, h.alternatives, h.bounds, h.current⟩ hmore

/-- What a closed block comes to.  It is joined only if it is an alternation. -/
lemma close (hkept : Shape.Kept R D) (h : l.Every R) (htext : R (.text text))
    (options : CompileOptions) : ∀ s ∈ l.close options text, R s := by
  rw [Level.close]
  split
  next hnone =>
    rw [List.isEmpty_iff] at hnone
    split
    next kind p hrange =>
      rw [range?] at hrange
      split at hrange
      · intro s hs
        rw [List.mem_singleton.mp hs]
        obtain ⟨first, last, step, htexts⟩ := Piece.ofTexts?_of_readRange? hrange
        exact hkept.range options first last step kind p htexts
      · cases hrange
    · intro s hs
      rcases List.mem_append.mp hs with hs | hs
      · exact h.row (by simp [hnone]) s hs
      · rw [List.mem_singleton.mp hs]
        exact htext
  next hsome =>
    intro s hs
    rw [List.mem_singleton.mp hs]
    refine hkept.choice _ ?_ ?_
    · have hne : l.alternatives ≠ [] := by simpa using hsome
      have hpos := List.length_pos_iff.mpr hne
      rw [List.length_cons, List.length_map]
      omega
    · intro u hu
      rcases List.mem_cons.mp hu with rfl | hu
      · exact hkept.joined _ h.current
      · rcases List.mem_map.mp hu with ⟨a, ha, rfl⟩
        exact hkept.joined _ (h.alternatives a ha).1

end Every

end Level

namespace Reading

variable {r : Reading} {text : Bytes} {t : Token}

/-- `R` holds of all shapes of a reading, and of its punctuation as text. -/
structure Every (R : Shape → Prop) (r : Reading) : Prop where
  ground : ∀ s ∈ r.ground, R s
  levels : ∀ l ∈ r.levels, l.Every R
  quote : ∀ q ∈ r.quote, R (.leaf .quote q.1) ∧ R (.text q.1) ∧ ∀ s ∈ q.2, R s

namespace Every

lemma add (h : r.Every R) (hmore : ∀ s ∈ more, R s) : (r.add more).Every R := by
  have happend : ∀ {before : List Shape}, (∀ s ∈ before, R s) → ∀ s ∈ before ++ more, R s := by
    intro before hbefore s hs
    rcases List.mem_append.mp hs with hs | hs
    · exact hbefore s hs
    · exact hmore s hs
  match r, h with
  | ⟨_, _, some (text, inside)⟩, h =>
    refine ⟨h.ground, h.levels, ?_⟩
    rintro q ⟨⟩
    obtain ⟨hquote, htext, hinside⟩ := h.quote (text, inside) rfl
    exact ⟨hquote, htext, happend hinside⟩
  | ⟨_, l :: outer, none⟩, h =>
    refine ⟨h.ground, ?_, h.quote⟩
    intro k hk
    rcases List.mem_cons.mp hk with rfl | hk
    · exact (h.levels l List.mem_cons_self).add hmore
    · exact h.levels k (List.mem_cons_of_mem _ hk)
  | ⟨_, [], none⟩, h => exact ⟨happend h.ground, h.levels, h.quote⟩

lemma toggle (h : r.Every R) (hquote : R (.leaf .quote text)) (htext : R (.text text)) :
    (r.toggle text).Every R := by
  obtain ⟨ground, levels, quote⟩ := r
  cases quote with
  | none =>
      refine ⟨h.ground, h.levels, ?_⟩
      rintro q ⟨⟩
      exact ⟨hquote, htext, by simp⟩
  | some quote =>
      refine add (r := ⟨ground, levels, none⟩) ⟨h.ground, h.levels, by simp⟩ ?_
      obtain ⟨hopening, -, hinside⟩ := h.quote quote rfl
      intro s hs
      simp only [List.mem_cons, List.mem_append, List.not_mem_nil, or_false] at hs
      rcases hs with rfl | hs | rfl
      · exact hopening
      · exact hinside s hs
      · exact hquote

end Every

lemma every_step (hkept : Shape.Kept R D) (h : r.Every R) (ht : t.Yields R)
    (options : CompileOptions) : (r.step options t).Every R := by
  obtain ⟨ground, levels, quote⟩ := r
  have hlevels : ∀ {k l : Level} {outer : List Level}, levels = l :: outer → k.Every R →
      ∀ j ∈ k :: outer, j.Every R := by
    rintro k l outer rfl hk j hj
    rcases List.mem_cons.mp hj with rfl | hj
    · exact hk
    · exact h.levels j (List.mem_cons_of_mem _ hj)
  rw [step]
  split
  next hkind => exact h.add (by simpa using ht.escape hkind)
  next hkind => exact h.toggle (ht.quote hkind) ht.text
  · refine ⟨h.ground, ?_, h.quote⟩
    intro l hl
    rcases List.mem_cons.mp hl with rfl | hl
    · exact Level.Every.start ht.text
    · exact h.levels l hl
  next l outer _ heq =>
    refine ⟨h.ground, hlevels heq ?_, h.quote⟩
    exact (h.levels l (by rw [heq]; exact List.mem_cons_self)).comma ht.text
  next l outer _ heq =>
    refine ⟨h.ground, hlevels heq ?_, h.quote⟩
    exact (h.levels l (by rw [heq]; exact List.mem_cons_self)).separate ht.text
  next l outer _ heq =>
    refine Every.add (r := ⟨ground, outer, quote⟩) ⟨h.ground, ?_, h.quote⟩ ?_
    · intro k hk
      exact h.levels k (by rw [heq]; exact List.mem_cons_of_mem _ hk)
    · exact (h.levels l (by rw [heq]; exact List.mem_cons_self)).close hkept ht.text options
  · exact h.add (by simpa using ht.text)

lemma every_foldl (hkept : Shape.Kept R D) (options : CompileOptions) {ts : List Token}
    (hts : ∀ t ∈ ts, t.Yields R) (h : r.Every R) : (ts.foldl (step options) r).Every R := by
  induction ts generalizing r with
  | nil => exact h
  | cons t ts ih =>
      refine ih (fun u hu => hts u (List.mem_cons_of_mem _ hu)) ?_
      exact every_step hkept h (hts t List.mem_cons_self) options

/-- Everything that has been read, where what is joined in open blocks may stand in a row. -/
lemma Every.row (hkept : Shape.Kept R D) (h : r.Every R)
    (hopen : (∀ s, D s → R s) ∨ r.levels = []) : ∀ s ∈ r.row, R s := by
  intro s hs
  rw [Reading.row, List.mem_append, List.mem_append, List.mem_flatMap] at hs
  rcases hs with (hs | ⟨l, hl, hs⟩) | hs
  · exact h.ground s hs
  · have hl := List.mem_reverse.mp hl
    rcases hopen with hopen | hnone
    · refine (h.levels l hl).row ?_ s hs
      intro a ha
      exact hopen _ (hkept.joined _ ((h.levels l hl).alternatives a ha).1)
    · rw [hnone] at hl
      cases hl
  · split at hs
    · cases hs
    next text inside hquote =>
      obtain ⟨-, htext, hinside⟩ := h.quote (text, inside) hquote
      rcases List.mem_cons.mp hs with rfl | hs
      · exact htext
      · exact hinside s hs

/-- **What holds of the parts of a pattern holds of the whole.** -/
theorem every_joined (hkept : Shape.Kept R D) (options : CompileOptions) {ts : List Token}
    (hts : ∀ t ∈ ts, t.Yields R)
    (hopen : (∀ s, D s → R s) ∨ (ts.foldl (step options) {}).levels = []) :
    D (Shape.joined (fuse (ts.foldl (step options) {}).row)) := by
  have hstart : Every R {} := ⟨by simp, by simp, by simp⟩
  exact hkept.joined _ ((every_foldl hkept options hts hstart).row hkept hopen)

end Reading

end BraceExpansion
