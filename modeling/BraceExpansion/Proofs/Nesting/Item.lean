import BraceExpansion.Progression.Endpoints
import BraceExpansion.Proofs.Reading.Row
import BraceExpansion.Proofs.Token.Stream

/-!
# Matching braces

The structure of a pattern, read off its tokens with nothing but a stack of open braces: a closing
brace is paired with the latest opening brace that is still unpaired, if there is one.

* `Item` — a token that is not paired, or a closed block with everything inside it.
* `nest` — the items of a list of tokens.  Of a brace that is never closed, only the brace itself
  is an item; what stands behind it is on the same footing as what stands before it.
* `Item.range?` — whether what is inside a block is written like a range, and which range it is.

This is the yardstick that the compiler is measured by, so it says nothing about stacks of drafts,
counters or rollbacks.
-/

namespace BraceExpansion

/-- A token, or a closed block with what is inside it. -/
inductive Item
  | token (t : Token)
  | block (opening : Token) (body : List Item) (closing : Token)

namespace Item

def isComma : Item → Bool
  | .token t => t.kind = .delimiter
  | .block _ _ _ => false

/-- What stands between the commas of a block. -/
def alternatives (body : List Item) : List (List Item) := body.splitOnP isComma

lemma mem_of_mem_alternatives {body piece : List Item} {i : Item}
    (hpiece : piece ∈ alternatives body) (hi : i ∈ piece) : i ∈ body := by
  induction body generalizing piece with
  | nil =>
      rw [alternatives, List.splitOnP_nil, List.mem_singleton] at hpiece
      rw [hpiece] at hi
      exact hi
  | cons j body ih =>
      rw [alternatives, List.splitOnP_cons_eq_if_modifyHead] at hpiece
      split at hpiece
      · rcases List.mem_cons.mp hpiece with rfl | hpiece
        · cases hi
        · exact List.mem_cons_of_mem _ (ih hpiece hi)
      · obtain ⟨first, others, hsplit⟩ :=
          List.exists_cons_of_ne_nil (List.splitOnP_ne_nil isComma body)
        rw [hsplit, List.modifyHead_cons] at hpiece
        rw [alternatives, hsplit] at ih
        rcases List.mem_cons.mp hpiece with rfl | hpiece
        · rcases List.mem_cons.mp hi with rfl | hi
          · exact List.mem_cons_self
          · exact List.mem_cons_of_mem _ (ih List.mem_cons_self hi)
        · exact List.mem_cons_of_mem _ (ih (List.mem_cons_of_mem _ hpiece) hi)

lemma alternatives_comma {i : Item} (h : i.isComma = true) (body : List Item) :
    alternatives (body ++ [i]) = alternatives body ++ [[]] := by
  rw [alternatives, List.splitOnP_append_cons body [] h]
  rfl

/-- What is not a comma belongs to the last alternative. -/
lemma alternatives_concat {i : Item} (h : i.isComma = false) (body : List Item) :
    ∃ finished last, alternatives body = finished ++ [last] ∧
      alternatives (body ++ [i]) = finished ++ [last ++ [i]] := by
  induction body with
  | nil => exact ⟨[], [], rfl, by simp [alternatives, List.splitOnP_cons_eq_if_modifyHead, h]⟩
  | cons j body ih =>
      obtain ⟨finished, last, hbody, hmore⟩ := ih
      rw [alternatives] at hbody hmore
      cases hj : j.isComma with
      | true =>
          refine ⟨[] :: finished, last, ?_, ?_⟩
          · simp [alternatives, List.splitOnP_cons_eq_if_modifyHead, hj, hbody]
          · simp [alternatives, List.splitOnP_cons_eq_if_modifyHead, hj, hmore]
      | false =>
          cases finished with
          | nil =>
              refine ⟨[], j :: last, ?_, ?_⟩
              · simp [alternatives, List.splitOnP_cons_eq_if_modifyHead, hj, hbody]
              · simp [alternatives, List.splitOnP_cons_eq_if_modifyHead, hj, hmore]
          | cons first finished =>
              refine ⟨(j :: first) :: finished, last, ?_, ?_⟩
              · simp [alternatives, List.splitOnP_cons_eq_if_modifyHead, hj, hbody]
              · simp [alternatives, List.splitOnP_cons_eq_if_modifyHead, hj, hmore]

end Item

/-! ## Pairing -/

/-- Items up to some token. -/
structure Nesting where
  /-- What stands outside all open braces. -/
  ground : List Item := []
  /-- The open braces, the innermost first, each with what stands directly behind it. -/
  levels : List (Token × List Item) := []

namespace Nesting

def add (n : Nesting) (i : Item) : Nesting :=
  match n with
  | ⟨ground, (opening, body) :: outer⟩ => ⟨ground, (opening, body ++ [i]) :: outer⟩
  | ⟨ground, []⟩ => ⟨ground ++ [i], []⟩

/-- One token. -/
def step (n : Nesting) (t : Token) : Nesting :=
  match t.kind, n.levels with
  | .opening, levels => { n with levels := (t, []) :: levels }
  | .closing, (opening, body) :: outer => { n with levels := outer }.add (.block opening body t)
  | _, _ => n.add (.token t)

/-- All items, where a brace that is still open is one by itself. -/
def items (n : Nesting) : List Item :=
  n.ground ++ n.levels.reverse.flatMap fun level => .token level.1 :: level.2

end Nesting

/-- The items of a list of tokens. -/
def nest (ts : List Token) : Nesting := ts.foldl Nesting.step {}

/-! ## Ranges -/

/-- The text of a token as the bound of a range. -/
def Token.bound? (t : Token) : Option Bytes :=
  match t.kind with
  | .literal => some t.text
  | .escape => some (t.text.drop 1)
  | _ => none

/-- What a token stands for by itself. -/
def Token.shape (t : Token) : Shape :=
  match t.kind with
  | .escape => .leaf .escape t.text
  | .quote => .leaf .quote t.text
  | _ => .text t.text

/-- The range that is written inside a block: two bounds, and a step if there is one. -/
def Item.range? (options : CompileOptions) : List Item → Option (RangeKind × Progression)
  | [.token first, .token dots, .token last] =>
    if dots.kind = .range then do
      Progression.ofTexts? options (← first.bound?) (← last.bound?) 0
    else none
  | [.token first, .token dots, .token last, .token more, .token step] =>
    if dots.kind = .range ∧ more.kind = .range ∧ step.kind = .literal then do
      let step ← Decimal.read? step.text
      Progression.ofTexts? options (← first.bound?) (← last.bound?) step
    else none
  | _ => none

end BraceExpansion
