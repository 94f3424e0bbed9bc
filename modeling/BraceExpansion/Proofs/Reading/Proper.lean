import BraceExpansion.Proofs.Reading.Every

/-!
# Readings are proper

No empty sequence arises while a pattern is read, and no range but from two bounds.  Rows keep this
up (`Shape.kept_proper`), so it holds of what a pattern is in the end (**`Reading.proper_foldl`**).
-/

namespace BraceExpansion

namespace Shape

variable {row : List Shape}

@[simp] lemma proper_leaf (kind : LeafKind) (t : Bytes) : (leaf kind t).Proper := by simp [Proper]

lemma proper_splice {kind : ListKind} {s : Shape} (h : s.Proper) : ∀ u ∈ s.splice kind, u.Proper := by
  rcases splice_cases kind s with ⟨children, rfl, hsplice⟩ | ⟨-, hsplice⟩
  · rw [Proper] at h
    rw [hsplice]
    exact h.2
  · rw [hsplice]
    simpa using h

/-- A sequence adds something to a sequence. -/
lemma splice_ne_nil {s : Shape} (h : s.Proper) : s.splice .concat ≠ [] := by
  rcases splice_cases .concat s with ⟨children, rfl, hsplice⟩ | ⟨-, hsplice⟩
  · rw [Proper] at h
    rw [hsplice]
    exact h.1 rfl
  · rw [hsplice]
    exact List.cons_ne_nil _ _

lemma proper_gathered (kind : ListKind) (h : ∀ s ∈ row, s.Proper) (hne : row ≠ []) :
    (gathered kind row).Proper := by
  rw [gathered, Proper]
  refine ⟨?_, ?_⟩
  · rintro rfl
    rcases List.exists_mem_of_ne_nil row hne with ⟨s, hs⟩
    simp only [ne_eq, List.flatMap_eq_nil_iff, List.mem_reverse, not_forall]
    exact ⟨s, hs, splice_ne_nil (h s hs)⟩
  · intro u hu
    rcases List.mem_flatMap.mp hu with ⟨s, hs, hu⟩
    exact proper_splice (h s (List.mem_reverse.mp hs)) u hu

lemma proper_joined (h : ∀ s ∈ row, s.Proper) : (joined row).Proper := by
  match row, h with
  | [], _ => exact proper_leaf .empty []
  | [s], h => exact h s List.mem_cons_self
  | s :: t :: rest, h => exact proper_gathered .concat h (List.cons_ne_nil _ _)

lemma proper_joined_fuse (h : ∀ s ∈ row, s.Proper) : (joined (fuse row)).Proper :=
  proper_joined (forall_fuse (fun _ _ _ _ => proper_leaf _ _) h)

end Shape

/-- A range that can be read lies between two bounds. -/
lemma Progression.bounded_of_ofTexts? {options : CompileOptions} {first last : Bytes}
    {step : Int64} {kind : RangeKind} {p : Progression}
    (h : ofTexts? options first last step = some (kind, p)) : p.Bounded := by
  simp only [ofTexts?, Option.bind_eq_bind, Option.bind_eq_some_iff, Option.pure_def,
    Option.some.injEq, Prod.mk.injEq] at h
  rcases h with ⟨bounds, -, p', hp, -, rfl⟩
  exact ⟨_, _, _, _, hp⟩

/-- Proper shapes are joined into proper shapes. -/
lemma Shape.kept_proper : Kept Proper Proper where
  joined _ := proper_joined_fuse
  choice shapes hlength hall := by
    refine proper_gathered .alternate hall ?_
    rintro rfl
    exact absurd hlength (by simp)
  range _ _ _ _ _ _ h := by
    rw [Proper]
    exact Progression.bounded_of_ofTexts? h

/-- **What a pattern is in the end is proper.** -/
theorem Reading.proper_foldl (options : CompileOptions) (ts : List Token) :
    (Shape.joined (fuse (ts.foldl (step options) {}).row)).Proper := by
  refine every_joined Shape.kept_proper options ?_ (Or.inl fun _ => id)
  intro t _
  exact ⟨Shape.proper_leaf _ _, fun _ => Shape.proper_leaf _ _, fun _ => Shape.proper_leaf _ _⟩

end BraceExpansion
