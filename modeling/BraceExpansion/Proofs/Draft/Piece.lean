import BraceExpansion.Draft.WorkStack
import BraceExpansion.Proofs.Draft.Ownership

/-!
# Pieces

What the operations of the work stack do, said of pieces and without slots.  A stack of pieces is a
list with the last piece first.

`Draft.Tops` relates a draft to a piece that it is the top of: everything the compiler asks of a
draft, it could as well ask of the piece.
-/

namespace BraceExpansion

/-- What a structure adds to a list: its members if it is such a list, and itself if not. -/
def Shape.splice (kind : ListKind) : Shape → List Shape
  | .list k children => if k = kind then children else [.list k children]
  | s => [s]

namespace Piece

/-! ## Operations on pieces -/

def isMark : Piece → Bool
  | .mark _ _ => true
  | _ => false

def isLiteral : Piece → Bool
  | .shape (.leaf .literal _) => true
  | _ => false

/-- The text of a piece that may become part of a literal. -/
def text? : Piece → Option Bytes
  | .shape (.leaf .literal text) => some text
  | .mark _ text => some text
  | _ => none

/-- The text a piece stands for as the bound of a range. -/
def boundText? : Piece → Option Bytes
  | .shape (.leaf .literal text) => some text
  | .shape (.leaf .escape text) => some (text.drop 1)
  | _ => none

/-- More literal text above a stack of pieces. -/
def appendText : List Piece → Bytes → List Piece
  | .shape (.leaf .literal before) :: below, text =>
    .shape (.leaf .literal (before ++ text)) :: below
  | below, text => .shape (.leaf .literal text) :: below

/-- A piece above others, once marks are text. -/
def settle (piece : Piece) (below : List Piece) : List Piece :=
  match piece.text? with
  | some text => appendText below text
  | none => piece :: below

/-- What a piece adds to a list: a mark nothing, and a list of the same kind its members. -/
def contribution (kind : ListKind) : Piece → List Shape
  | .mark _ _ => []
  | .shape s => s.splice kind

/-- Pieces as one list. -/
def gathered (kind : ListKind) (pieces : List Piece) : Shape :=
  .list kind (pieces.reverse.flatMap (contribution kind))

/-- Pieces as one piece. -/
def joined : List Piece → Piece
  | [] => .shape (.leaf .empty [])
  | [piece] => piece
  | pieces => .shape (gathered .concat pieces)

/-- The range that the pieces of a block stand for, read from the bottom up. -/
def readRange? (options : CompileOptions) : List Piece → Option (RangeKind × Progression)
  | [first, .mark .range _, last] => do
    Progression.ofTexts? options (← first.boundText?) (← last.boundText?) 0
  | [first, .mark .range _, last, .mark .range _, .shape (.leaf .literal step)] => do
    let step ← Decimal.read? step
    Progression.ofTexts? options (← first.boundText?) (← last.boundText?) step
  | _ => none

@[simp] lemma appendText_literal (before text : Bytes) (below : List Piece) :
    appendText (.shape (.leaf .literal before) :: below) text
      = .shape (.leaf .literal (before ++ text)) :: below := rfl

lemma appendText_of_not_literal {below : List Piece}
    (h : ∀ piece ∈ below.head?, piece.isLiteral = false) (text : Bytes) :
    appendText below text = .shape (.leaf .literal text) :: below := by
  match below with
  | [] => rfl
  | .mark _ _ :: _ => rfl
  | .shape (.range _ _) :: _ => rfl
  | .shape (.list _ _) :: _ => rfl
  | .shape (.leaf .empty _) :: _ => rfl
  | .shape (.leaf .escape _) :: _ => rfl
  | .shape (.leaf .quote _) :: _ => rfl
  | .shape (.leaf .literal _) :: _ => simp [isLiteral] at h

lemma isLiteral_of_text?_eq_none {piece : Piece} (h : piece.text? = none) :
    piece.isLiteral = false := by
  match piece, h with
  | .shape (.range _ _), _ => rfl
  | .shape (.list _ _), _ => rfl
  | .shape (.leaf .empty _), _ => rfl
  | .shape (.leaf .escape _), _ => rfl
  | .shape (.leaf .quote _), _ => rfl

lemma draft?_ne_none_of_text? {piece : Piece} {text : Bytes} (h : piece.text? = some text) :
    piece.draft? ≠ none := by
  match piece, h with
  | .mark _ _, _ => exact Option.some_ne_none _
  | .shape (.leaf .literal _), _ => exact Option.some_ne_none _

lemma exists_literal {piece : Piece} (h : piece.isLiteral = true) :
    ∃ t, piece = .shape (.leaf .literal t) := by
  match piece, h with
  | .shape (.leaf .literal t), _ => exact ⟨t, rfl⟩

/-- There is a literal on top, or there is none. -/
lemma appendText_cases (below : List Piece) :
    (∃ before rest, below = .shape (.leaf .literal before) :: rest) ∨
      ∀ piece ∈ below.head?, piece.isLiteral = false := by
  cases below with
  | nil => exact Or.inr (by simp)
  | cons piece rest =>
      cases hliteral : piece.isLiteral with
      | false => exact Or.inr (by simpa using hliteral)
      | true =>
          rcases exists_literal hliteral with ⟨before, rfl⟩
          exact Or.inl ⟨before, rest, rfl⟩

lemma appendText_ne_nil (below : List Piece) (text : Bytes) : appendText below text ≠ [] := by
  rcases appendText_cases below with ⟨before, rest, rfl⟩ | hbelow
  · simp
  · simp [appendText_of_not_literal hbelow]

lemma appendText_append {done lower : List Piece}
    (h : done = [] → ∀ piece ∈ lower.head?, piece.isLiteral = false) (text : Bytes) :
    appendText (done ++ lower) text = appendText done text ++ lower := by
  rcases appendText_cases done with ⟨before, rest, rfl⟩ | hdone
  · simp
  · rw [appendText_of_not_literal hdone, appendText_of_not_literal, List.cons_append]
    cases done with
    | nil => exact h rfl
    | cons piece rest => exact hdone

/-- What is settled onto `done` does not reach what is below it. -/
lemma foldr_settle_append {done lower : List Piece}
    (h : done = [] → ∀ piece ∈ lower.head?, piece.isLiteral = false) (upper : List Piece) :
    upper.foldr settle (done ++ lower) = upper.foldr settle done ++ lower := by
  induction upper with
  | nil => rfl
  | cons piece upper ih =>
      rw [List.foldr_cons, List.foldr_cons, ih, settle, settle]
      have hreach : upper.foldr settle done = [] →
          ∀ piece ∈ lower.head?, piece.isLiteral = false := by
        intro hnil
        refine h ?_
        cases upper with
        | nil => exact hnil
        | cons q upper =>
            rw [List.foldr_cons, settle] at hnil
            cases htext : q.text? with
            | none => simp [htext] at hnil
            | some text =>
                rw [htext] at hnil
                exact absurd hnil (appendText_ne_nil _ _)
      cases piece.text? with
      | none => rfl
      | some text => exact appendText_append hreach text

lemma flat_of_boundText? {piece : Piece} (h : piece.boundText?.isSome) : piece.draft? ≠ none := by
  match piece, h with
  | .shape (.leaf _ _), _ => simp [draft?]

/-- A range is read from pieces that have no members. -/
lemma readRange?_flat {options : CompileOptions} {pieces : List Piece}
    (h : (readRange? options pieces).isSome) : ∀ piece ∈ pieces, piece.draft? ≠ none := by
  have hbounds : ∀ {a b : Piece} (step : Int64), (do
      Progression.ofTexts? options (← a.boundText?) (← b.boundText?) step).isSome →
      a.draft? ≠ none ∧ b.draft? ≠ none := by
    intro a b step hsome
    cases ha : a.boundText? with
    | none => simp [ha] at hsome
    | some x =>
        cases hb : b.boundText? with
        | none => simp [ha, hb] at hsome
        | some y => exact ⟨flat_of_boundText? (by simp [ha]), flat_of_boundText? (by simp [hb])⟩
  unfold readRange? at h
  split at h
  next first _ last =>
    obtain ⟨hfirst, hlast⟩ := hbounds 0 h
    simpa [draft?] using ⟨hfirst, hlast⟩
  next first _ last _ step =>
    cases hstep : Decimal.read? step with
    | none => simp [hstep] at h
    | some n =>
        rw [hstep] at h
        obtain ⟨hfirst, hlast⟩ := hbounds n h
        simpa [draft?] using ⟨hfirst, hlast⟩
  next => cases h

end Piece

/-! ## Drafts and pieces -/

/-- A draft that is the top of a piece. -/
inductive Draft.Tops : Draft → Piece → Prop
  | leaf (kind text) : Tops (.leaf kind (List.toArray text)) (.shape (.leaf kind text))
  | range (kind p) : Tops (.range kind p) (.shape (.range kind p))
  | mark (m text) : Tops (.mark m (List.toArray text)) (.mark m text)
  | list (kind members children) : Tops (.list kind members) (.shape (.list kind children))

namespace Draft.Tops

variable {d : Draft} {piece : Piece}

lemma of_draft? (h : piece.draft? = some d) : d.Tops piece := by
  match piece, h with
  | .shape (.leaf kind text), h => cases h; exact .leaf kind text
  | .shape (.range kind p), h => cases h; exact .range kind p
  | .mark m text, h => cases h; exact .mark m text

lemma isLiteral_eq (h : d.Tops piece) : d.isLiteral = piece.isLiteral := by
  cases h with
  | leaf kind text => cases kind <;> rfl
  | _ => rfl

lemma isMark_eq (h : d.Tops piece) : d.isMark = piece.isMark := by
  cases h <;> rfl

lemma foldable?_eq (h : d.Tops piece) : d.foldable? = piece.text?.map List.toArray := by
  cases h with
  | leaf kind text => cases kind <;> rfl
  | _ => rfl

lemma boundText?_eq (h : d.Tops piece) : d.boundText? = piece.boundText? := by
  cases h with
  | leaf kind text => cases kind <;> rfl
  | _ => rfl

end Draft.Tops

/-- A range is read from the drafts of a block as from its pieces. -/
lemma Draft.readRange?_eq (options : CompileOptions) {drafts : List Draft} {opening : Piece}
    {pieces : List Piece} (h : List.Forall₂ Draft.Tops drafts (opening :: pieces)) :
    WorkStack.readRange? options drafts = Piece.readRange? options pieces := by
  rcases h with _ | ⟨-, _ | ⟨hfirst, _ | ⟨hmark, h⟩⟩⟩
  · rfl
  · rfl
  rcases hmark with _ | _ | m | _
  · rfl
  · rfl
  · cases m with
    | opening => rfl
    | delimiter => rfl
    | range =>
        rcases h with _ | ⟨hlast, h⟩
        · rfl
        rcases h with _ | ⟨hmark, h⟩
        · simp only [WorkStack.readRange?, Piece.readRange?, hfirst.boundText?_eq,
            hlast.boundText?_eq]
        rcases hmark with _ | _ | m | _
        · rfl
        · rfl
        · rcases h with _ | ⟨hstep, h⟩
          · cases m <;> rfl
          rcases h with _ | ⟨hmore, h⟩
          · rcases hstep with kind | _ | _ | _
            · cases m <;> cases kind <;>
                simp only [WorkStack.readRange?, Piece.readRange?, hfirst.boundText?_eq,
                  hlast.boundText?_eq]
            · cases m <;> rfl
            · cases m <;> rfl
            · cases m <;> rfl
          · rcases hstep with kind | _ | _ | _
            · cases m <;> cases kind <;> rfl
            · cases m <;> rfl
            · cases m <;> rfl
            · cases m <;> rfl
        · rfl
  · rfl

lemma Pool.Holds.tops {p : Pool} {id : Nat} {piece : Piece} {used : List Nat}
    (h : p.Holds [id] [piece] used) : (p.get id).Tops piece := by
  cases h with
  | single hdraft _ => exact .of_draft? hdraft
  | list hdraft _ _ => rw [hdraft]; exact .list _ _ _

lemma Pool.Holds.tops_all {p : Pool} {ids : List Nat} {pieces : List Piece} {used : List Nat}
    (h : p.Holds ids pieces used) : List.Forall₂ Draft.Tops (ids.map p.get) pieces := by
  induction h with
  | nil => exact .nil
  | single hdraft _ ih => exact .cons (.of_draft? hdraft) ih
  | list hdraft _ _ _ ih => exact .cons (by rw [hdraft]; exact .list _ _ _) ih

end BraceExpansion
