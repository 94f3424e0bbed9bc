import BraceExpansion.Forest.Outline
import BraceExpansion.Pattern
import BraceExpansion.Proofs.Forest.Unfolding

/-!
# Outlines of shapes

The dump of a tree is made in one descent through a forest.  It says nothing about numbers, so it can
be made from the shape alone, and from less: a tree of labels.

**Printing.**  `Outline` is such a tree, and `Shape.outline` that of a shape.  Its lines have a depth
each, and the dump of a node is these lines as text (`Forest.toList_dump`).

**Reading.**  A line ends at its line feed, and its depth is the number of blanks before the dash.
What stands deeper than a line belongs to it.  So outlines that are printed alike are equal, if no
label has a line feed in it: **`Outline.eq_of_printed_eq`**.
-/

namespace BraceExpansion

/-- Labels, each above those of its parts. -/
inductive Outline
  | node (label : String) (parts : List Outline)

namespace Outline

@[elab_as_elim, induction_eliminator]
theorem induction {motive : Outline → Prop}
    (node : ∀ label parts, (∀ o ∈ parts, motive o) → motive (.node label parts)) : ∀ o, motive o
  | .node label parts => node label parts fun o _ => induction node o

/-- The lines of an outline whose first line has this depth. -/
def lines (depth : Nat) : Outline → List (Nat × String)
  | .node label parts => (depth, label) :: parts.flatMap (lines (depth + 1))

/-- One line as text. -/
def printedLine (line : Nat × String) : List Char :=
  List.replicate (2 * line.1) ' ' ++ '-' :: ' ' :: line.2.toList ++ ['\n']

/-- An outline as text. -/
def printed (o : Outline) : List Char := (o.lines 0).flatMap printedLine

end Outline

namespace Shape

/-- What a line says about a shape. -/
def label : Shape → String
  | .leaf kind value => (Node.leaf kind value).label
  | .range kind p => (Node.range kind p).label
  | .list kind _ => (Node.list kind []).label

/-- What the lines say about a shape and its parts. -/
def outline : Shape → Outline
  | .leaf kind value => .node (label (.leaf kind value)) []
  | .range kind p => .node (label (.range kind p)) []
  | .list kind children => .node (label (.list kind children)) (children.map outline)

end Shape

/-! ## Printing -/

namespace Forest

variable {f : Forest} {id depth : Nat}

lemma outline_shape (f : Forest) (id : Nat) : (f.shape id).outline
    = .node (f.node id).label ((f.node id).children.map fun c => (f.shape c).outline) := by
  cases hnode : f.node id with
  | leaf kind value => rw [shape_leaf hnode, Shape.outline]; rfl
  | range kind p => rw [shape_range hnode, Shape.outline]; rfl
  | list kind children => rw [shape_list hnode, Shape.outline, List.map_map]; rfl

lemma lines_shape (f : Forest) (id depth : Nat) : (f.shape id).outline.lines depth
    = (depth, (f.node id).label) ::
        (f.node id).children.flatMap fun c => (f.shape c).outline.lines (depth + 1) := by
  rw [outline_shape, Outline.lines, List.flatMap_map]

lemma outlineFrom_eq (f : Forest) (id depth : Nat) (above : Array (Nat × String)) :
    f.outlineFrom id depth above = (f.node id).children.foldl
      (fun lines c => f.outlineFrom c (depth + 1) lines) (above.push (depth, (f.node id).label)) := by
  rw [outlineFrom]
  exact List.foldl_attach (f := fun lines c => f.outlineFrom c (depth + 1) lines)

/-- The descent adds the lines of the shape. -/
lemma toList_outlineFrom (f : Forest) (id depth : Nat) (above : Array (Nat × String)) :
    (f.outlineFrom id depth above).toList = above.toList ++ (f.shape id).outline.lines depth := by
  induction id using Nat.strongRecOn generalizing depth above with
  | ind id ih =>
      have hall : ∀ (cs : List Nat) (above : Array (Nat × String)),
          (∀ c ∈ cs, c ∈ (f.node id).children) →
            (cs.foldl (fun lines c => f.outlineFrom c (depth + 1) lines) above).toList
              = above.toList ++ cs.flatMap fun c => (f.shape c).outline.lines (depth + 1) := by
        intro cs
        induction cs with
        | nil => simp
        | cons c cs ihcs =>
            intro above hcs
            obtain ⟨hc, hcs⟩ := List.forall_mem_cons.mp hcs
            rw [List.foldl_cons, ihcs _ hcs, ih c (f.child_lt hc), List.flatMap_cons,
              List.append_assoc]
      rw [outlineFrom_eq, hall _ _ fun _ hc => hc, lines_shape]
      simp

lemma toList_pushn (text : String) (c : Char) (n : Nat) :
    (text.pushn c n).toList = text.toList ++ List.replicate n c := by
  induction n with
  | zero => exact (List.append_nil _).symm
  | succ n ih =>
      have hpush : text.pushn c (n + 1) = (text.pushn c n).push c := rfl
      rw [hpush, String.toList_push, ih, List.replicate_succ', List.append_assoc]

/-- **A dump shows the outline of a shape**, and neither the number of a node nor its link. -/
theorem toList_dump (f : Forest) (id : Nat) :
    (f.dump id).toList = (f.shape id).outline.printed := by
  have hfold : ∀ (lines : List (Nat × String)) (text : String),
      (lines.foldl (fun text line => (text.pushn ' ' (2 * line.1) ++ "- " ++ line.2).push '\n')
        text).toList = text.toList ++ lines.flatMap Outline.printedLine := by
    intro lines
    induction lines with
    | nil => simp
    | cons line lines ih =>
        intro text
        rw [List.foldl_cons, ih, List.flatMap_cons, Outline.printedLine]
        simp [toList_pushn]
  have hlines : (f.outline id).toList = (f.shape id).outline.lines 0 := by
    rw [outline, toList_outlineFrom]
    rfl
  rw [dump, ← Array.foldl_toList, hlines, Outline.printed]
  exact hfold _ ""

end Forest

/-! ## Reading -/

/-- Two texts that are followed by what cannot stand in them are told from what follows. -/
lemma append_inj_of_stop {α : Type} {p : α → Bool} {x y u v : List α} (hx : ∀ a ∈ x, p a = true)
    (hy : ∀ a ∈ y, p a = true) (hu : ∀ a ∈ u.head?, p a = false) (hv : ∀ a ∈ v.head?, p a = false)
    (h : x ++ u = y ++ v) : x = y ∧ u = v := by
  have hstop : ∀ {u : List α}, (∀ a ∈ u.head?, p a = false) → u.takeWhile p = [] := by
    intro u hu
    cases u with
    | nil => rfl
    | cons a u => exact List.takeWhile_cons_of_neg (by simpa using hu)
  have hfront := congrArg (List.takeWhile p) h
  rw [List.takeWhile_append_of_pos hx, List.takeWhile_append_of_pos hy, hstop hu, hstop hv,
    List.append_nil, List.append_nil] at hfront
  rw [hfront] at h
  exact ⟨hfront, List.append_cancel_left h⟩

namespace Outline

variable {o o' : Outline} {depth : Nat} {after after' : List (Nat × String)}

/-- No label has a line feed in it. -/
def Flat : Outline → Prop
  | .node label parts => '\n' ∉ label.toList ∧ ∀ o ∈ parts, Flat o

lemma Flat.lines (h : o.Flat) : ∀ line ∈ o.lines depth, '\n' ∉ line.2.toList := by
  induction o generalizing depth with
  | node label parts ih =>
      rw [Flat] at h
      rw [Outline.lines]
      refine List.forall_mem_cons.mpr ⟨h.1, ?_⟩
      intro line hline
      obtain ⟨o, ho, hline⟩ := List.mem_flatMap.mp hline
      exact ih o ho (h.2 o ho) line hline

/-- A line ends at its line feed, and the blanks in front of the dash tell its depth. -/
lemma printedLine_inj {line line' : Nat × String} {text text' : List Char}
    (hline : '\n' ∉ line.2.toList) (hline' : '\n' ∉ line'.2.toList)
    (h : printedLine line ++ text = printedLine line' ++ text') : line = line' ∧ text = text' := by
  rw [printedLine, printedLine, List.append_assoc, List.append_assoc, List.append_assoc,
    List.append_assoc] at h
  obtain ⟨hblanks, hrest⟩ := append_inj_of_stop (p := (· == ' '))
    (by simp +contextual) (by simp +contextual) (by simp) (by simp) h
  obtain ⟨hlabel, htext⟩ := append_inj_of_stop (p := (· != '\n'))
    (fun c hc => bne_iff_ne.mpr fun heq => hline (heq ▸ hc))
    (fun c hc => bne_iff_ne.mpr fun heq => hline' (heq ▸ hc)) (by simp) (by simp)
    (List.cons.inj (List.cons.inj hrest).2).2
  have hdepth : 2 * line.1 = 2 * line'.1 := by simpa using congrArg List.length hblanks
  exact ⟨Prod.ext (by omega) (String.toList_inj.mp hlabel), by simpa using htext⟩

/-- Lines are told from their text. -/
lemma lines_eq_of_printed_eq {lines lines' : List (Nat × String)}
    (hlines : ∀ line ∈ lines, '\n' ∉ line.2.toList)
    (hlines' : ∀ line ∈ lines', '\n' ∉ line.2.toList)
    (h : lines.flatMap printedLine = lines'.flatMap printedLine) : lines = lines' := by
  have hne : ∀ (line : Nat × String) (text : List Char), printedLine line ++ text ≠ [] := by
    simp [printedLine]
  induction lines generalizing lines' with
  | nil =>
      cases lines' with
      | nil => rfl
      | cons line' lines' => exact absurd h.symm (hne _ _)
  | cons line lines ih =>
      cases lines' with
      | nil => exact absurd h (hne _ _)
      | cons line' lines' =>
          obtain ⟨hline, hmore⟩ := List.forall_mem_cons.mp hlines
          obtain ⟨hline', hmore'⟩ := List.forall_mem_cons.mp hlines'
          rw [List.flatMap_cons, List.flatMap_cons] at h
          obtain ⟨rfl, hrest⟩ := printedLine_inj hline hline' h
          rw [ih hmore hmore' hrest]

/-- No line is deeper than this where an outline may end. -/
def EndsAt (depth : Nat) (after : List (Nat × String)) : Prop := ∀ line ∈ after.head?, line.1 ≤ depth

lemma exists_lines_cons (depth : Nat) (o : Outline) (os : List Outline) (after : List (Nat × String)) :
    ∃ label rest, (o :: os).flatMap (lines depth) ++ after = (depth, label) :: rest := by
  obtain ⟨label, parts⟩ := o
  exact ⟨label, _, by rw [List.flatMap_cons, lines, List.cons_append, List.cons_append]⟩

/-- Before what may end an outline there may be more outlines one step deeper. -/
lemma EndsAt.parts (h : EndsAt depth after) (os : List Outline) :
    EndsAt (depth + 1) (os.flatMap (lines (depth + 1)) ++ after) := by
  intro line hline
  cases os with
  | nil => exact Nat.le_succ_of_le (h line hline)
  | cons o os =>
      obtain ⟨label, rest, hlines⟩ := exists_lines_cons (depth + 1) o os after
      rw [hlines] at hline
      obtain rfl := Option.some.inj hline
      exact Nat.le_refl _

/-- A part is deeper than what may come behind all parts. -/
lemma EndsAt.ne_parts (h : EndsAt depth after) (o : Outline) (os : List Outline) :
    after ≠ (o :: os).flatMap (lines (depth + 1)) ++ after' := by
  obtain ⟨label, rest, hlines⟩ := exists_lines_cons (depth + 1) o os after'
  rintro rfl
  rw [hlines] at h
  exact absurd (h (depth + 1, label) rfl) (Nat.not_succ_le_self depth)

/-- Parts are told from their lines if each one is. -/
lemma parts_inj {os os' : List Outline} (hafter : EndsAt depth after) (hafter' : EndsAt depth after')
    (hall : ∀ o ∈ os, ∀ {o' : Outline} {after after' : List (Nat × String)},
      EndsAt (depth + 1) after → EndsAt (depth + 1) after' →
        o.lines (depth + 1) ++ after = o'.lines (depth + 1) ++ after' → o = o' ∧ after = after')
    (h : os.flatMap (lines (depth + 1)) ++ after = os'.flatMap (lines (depth + 1)) ++ after') :
    os = os' ∧ after = after' := by
  induction os generalizing os' with
  | nil =>
      cases os' with
      | nil => exact ⟨rfl, h⟩
      | cons o' os' => exact absurd h (hafter.ne_parts o' os')
  | cons o os ih =>
      cases os' with
      | nil => exact absurd h.symm (hafter'.ne_parts o os)
      | cons o' os' =>
          obtain ⟨ho, hos⟩ := List.forall_mem_cons.mp hall
          rw [List.flatMap_cons, List.flatMap_cons, List.append_assoc, List.append_assoc] at h
          obtain ⟨rfl, hrest⟩ := ho (hafter.parts os) (hafter'.parts os') h
          obtain ⟨rfl, hend⟩ := ih hos hrest
          exact ⟨rfl, hend⟩

/-- **An outline is told from its lines**, and ends where a line is not deeper than its first. -/
theorem lines_inj (hafter : EndsAt depth after) (hafter' : EndsAt depth after')
    (h : o.lines depth ++ after = o'.lines depth ++ after') : o = o' ∧ after = after' := by
  induction o generalizing o' depth after after' with
  | node label parts ih =>
      obtain ⟨label', parts'⟩ := o'
      rw [lines, lines, List.cons_append, List.cons_append, List.cons.injEq, Prod.mk.injEq] at h
      obtain ⟨⟨-, rfl⟩, hrest⟩ := h
      obtain ⟨rfl, hend⟩ := parts_inj hafter hafter' (fun o ho => ih o ho) hrest
      exact ⟨rfl, hend⟩

/-- **Outlines that are printed alike are equal.** -/
theorem eq_of_printed_eq (ho : o.Flat) (ho' : o'.Flat) (h : o.printed = o'.printed) : o = o' := by
  have hlines : o.lines 0 ++ [] = o'.lines 0 ++ [] := by
    rw [List.append_nil, List.append_nil]
    exact lines_eq_of_printed_eq ho.lines ho'.lines h
  exact (lines_inj (by simp [EndsAt]) (by simp [EndsAt]) hlines).1

end Outline

end BraceExpansion
