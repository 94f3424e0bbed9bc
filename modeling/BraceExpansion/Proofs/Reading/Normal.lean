import BraceExpansion.Proofs.Progression
import BraceExpansion.Proofs.Progression.Endpoints
import BraceExpansion.Proofs.Reading.Proper
import BraceExpansion.Proofs.Token.Stream

/-!
# Readings are in normal form

**Normal shapes.**  A shape is `Normal` if every list in it has two members or more and none of its own
kind, and the leaves and ranges in it look as tokens and bounds look.  What is joined from normal
shapes is normal (`Shape.kept_normal`).

**Crisp shapes.**  A shape is `Crisp` if no sequence in it has an empty leaf in it or two literals side by
side.  Rows are made of crisp shapes that are neither empty leaves nor sequences, as long as no block
turns into text behind a comma; so what closed blocks are joined into is crisp (`Shape.kept_crisp`).
-/

namespace BraceExpansion

/-! ## Leaves and ranges -/

/-- What the text of a leaf looks like. -/
def LeafKind.Spells (kind : LeafKind) (value : Bytes) : Prop :=
  match kind with
  | .empty => value = []
  | .literal => value ≠ []
  | .escape => ∃ element, value = Ascii.backslash :: element ∧ Utf8.IsElement element
  | .quote => ∃ b, Ascii.isQuote b = true ∧ value = [b]

/-- The values of a range lie between two bounds.  Characters are not filled up with zeros, and have
the numbers of characters. -/
def RangeKind.Admits (kind : RangeKind) (p : Progression) : Prop :=
  p.Bounded ∧ (kind = .char → p.width = 0 ∧ ∀ v ∈ p.values, 0 ≤ v.toInt ∧ v.toInt ≤ 0x10FFFF)

/-- Numbers of characters are small. -/
lemma Bounds.toInt_character (c : Char) : 0 ≤ (Int64.ofNat c.toNat).toInt ∧
    (Int64.ofNat c.toNat).toInt ≤ 0x10FFFF := by
  have hvalid : c.toNat.isValidChar := c.valid
  rw [Nat.isValidChar] at hvalid
  rw [Int64.toInt_ofNat_of_lt (by omega)]
  omega

/-- What two texts bound is a range as it should be. -/
lemma Progression.admits_of_ofTexts? {options : CompileOptions} {first last : Bytes}
    {step : Int64} {kind : RangeKind} {p : Progression}
    (h : ofTexts? options first last step = some (kind, p)) : kind.Admits p := by
  refine ⟨bounded_of_ofTexts? h, ?_⟩
  rintro rfl
  obtain ⟨-, c, d, -, -, -, hp⟩ := ofTexts?_char_iff.mp h
  have hc := Bounds.toInt_character c
  have hd := Bounds.toInt_character d
  refine ⟨(between?_bounds hp).2.1, ?_⟩
  intro v hv
  have hv := between?_values hp v hv
  omega

namespace Shape

variable {row : List Shape} {s : Shape} {kind : ListKind}

def isEmpty : Shape → Bool
  | .leaf .empty _ => true
  | _ => false

/-! ## Normal shapes -/

/-- Lists have two members or more, and none of their own kind. -/
def Normal : Shape → Prop
  | .leaf kind value => kind.Spells value
  | .range kind p => kind.Admits p
  | .list kind children =>
    2 ≤ children.length ∧ ∀ c ∈ children, c.isList kind = false ∧ Normal c

lemma normal_leaf {kind : LeafKind} {value : Bytes} (h : kind.Spells value) :
    (leaf kind value).Normal := by
  rw [Normal]
  exact h

lemma normal_text {t : Bytes} : (text t).Normal ↔ t ≠ [] := by
  rw [Normal, LeafKind.Spells]

/-- What a normal shape adds to a list. -/
lemma Normal.splice (h : s.Normal) (kind : ListKind) :
    s.splice kind ≠ [] ∧ ∀ u ∈ s.splice kind, u.isList kind = false ∧ u.Normal := by
  rcases splice_cases kind s with ⟨children, rfl, hsplice⟩ | ⟨hnot, hsplice⟩
  · rw [Normal] at h
    rw [hsplice]
    refine ⟨?_, h.2⟩
    rintro rfl
    exact absurd h.1 (by simp)
  · rw [hsplice]
    refine ⟨List.cons_ne_nil _ _, ?_⟩
    intro u hu
    rw [List.mem_singleton.mp hu]
    exact ⟨hnot, h⟩

lemma normal_gathered (hlength : 2 ≤ row.length) (h : ∀ s ∈ row, s.Normal) :
    (gathered kind row).Normal := by
  have hle : ∀ {shapes : List Shape}, (∀ s ∈ shapes, s.Normal) →
      shapes.length ≤ (shapes.flatMap (Shape.splice kind)).length := by
    intro shapes hshapes
    induction shapes with
    | nil => simp
    | cons s shapes ih =>
        obtain ⟨hs, hrest⟩ := List.forall_mem_cons.mp hshapes
        have hpos := List.length_pos_iff.mpr (hs.splice kind).1
        have htail := ih hrest
        rw [List.flatMap_cons, List.length_append, List.length_cons]
        omega
  have hreverse : ∀ s ∈ row.reverse, s.Normal := fun s hs => h s (List.mem_reverse.mp hs)
  rw [gathered, Normal]
  refine ⟨?_, ?_⟩
  · have hrow := hle hreverse
    rw [List.length_reverse] at hrow
    omega
  · intro u hu
    rcases List.mem_flatMap.mp hu with ⟨s, hs, hu⟩
    exact ((hreverse s hs).splice kind).2 u hu

lemma normal_joined (h : ∀ s ∈ row, s.Normal) : (joined row).Normal := by
  match row, h with
  | [], _ => exact normal_leaf rfl
  | [s], h => exact h s List.mem_cons_self
  | s :: t :: rest, h => exact normal_gathered (by simp) h

/-- **Normal shapes are joined into normal shapes.** -/
lemma kept_normal : Kept Normal Normal where
  joined row h := by
    refine normal_joined (forall_fuse ?_ h)
    intro t u ht _
    rw [normal_text] at ht ⊢
    exact List.append_ne_nil_of_left_ne_nil ht u
  choice _ hlength h := normal_gathered hlength h
  range _ _ _ _ _ _ h := by
    rw [Normal]
    exact Progression.admits_of_ofTexts? h

/-! ## Crisp shapes -/

/-- No sequence has an empty leaf in it, or two literals side by side. -/
def Crisp : Shape → Prop
  | .leaf _ _ => True
  | .range _ _ => True
  | .list kind children =>
    (kind = .concat → (∀ c ∈ children, c.isEmpty = false) ∧
      children.IsChain fun s t => ¬ (s.isLiteral = true ∧ t.isLiteral = true)) ∧
    ∀ c ∈ children, Crisp c

/-- A crisp shape that may stand in a sequence. -/
structure Inline (s : Shape) : Prop where
  crisp : s.Crisp
  not_empty : s.isEmpty = false
  not_concat : s.isList .concat = false

lemma inline_leaf {kind : LeafKind} (value : Bytes) (h : kind ≠ .empty) :
    (leaf kind value).Inline := by
  refine ⟨by rw [Crisp]; trivial, ?_, rfl⟩
  cases kind with
  | empty => exact absurd rfl h
  | _ => rfl

/-- A fused row that may stand in a sequence is one. -/
lemma crisp_joined (h : ∀ s ∈ row, s.Inline)
    (hapart : row.IsChain fun s t => ¬ (s.isLiteral = true ∧ t.isLiteral = true)) :
    (joined row).Crisp := by
  have hsplice : ∀ s ∈ row, s.splice .concat = [s] := by
    intro s hs
    rcases splice_cases .concat s with ⟨children, rfl, -⟩ | ⟨-, hsplice⟩
    · have hnot := (h _ hs).not_concat
      simp [isList] at hnot
    · exact hsplice
  match row, h, hapart, hsplice with
  | [], _, _, _ => rw [joined, Crisp]; trivial
  | [s], h, _, _ => exact (h s List.mem_cons_self).crisp
  | s :: t :: rest, h, hapart, hsplice =>
    have hmembers : (s :: t :: rest).reverse.flatMap (Shape.splice .concat)
        = (s :: t :: rest).reverse := by
      calc (s :: t :: rest).reverse.flatMap (Shape.splice .concat)
          = (s :: t :: rest).reverse.flatMap fun u => [u] :=
            List.flatMap_congr fun u hu => hsplice u (List.mem_reverse.mp hu)
        _ = (s :: t :: rest).reverse := by simp
    rw [joined, gathered, hmembers, Crisp]
    · refine ⟨fun _ => ⟨?_, ?_⟩, ?_⟩
      · intro c hc
        exact (h c (List.mem_reverse.mp hc)).not_empty
      · rw [List.isChain_reverse]
        refine hapart.imp ?_
        rintro u v hapart ⟨hv, hu⟩
        exact hapart ⟨hu, hv⟩
      · intro c hc
        exact (h c (List.mem_reverse.mp hc)).crisp
    all_goals simp

/-- **Closed blocks are joined into crisp shapes.** -/
lemma kept_crisp : Kept Inline Crisp where
  joined row h :=
    crisp_joined (forall_fuse (fun _ _ _ _ => inline_leaf _ (by simp)) h) (isChain_fuse row)
  choice shapes _ h := by
    refine ⟨?_, rfl, rfl⟩
    rw [gathered, Crisp]
    refine ⟨by simp, ?_⟩
    intro c hc
    rcases List.mem_flatMap.mp hc with ⟨s, hs, hc⟩
    have hs := h s (List.mem_reverse.mp hs)
    rcases splice_cases .alternate s with ⟨children, rfl, hsplice⟩ | ⟨-, hsplice⟩
    · rw [Crisp] at hs
      rw [hsplice] at hc
      exact hs.2 c hc
    · rw [hsplice, List.mem_singleton] at hc
      rw [hc]
      exact hs
  range _ _ _ _ _ _ _ := ⟨by rw [Crisp]; trivial, rfl, rfl⟩

end Shape

end BraceExpansion
