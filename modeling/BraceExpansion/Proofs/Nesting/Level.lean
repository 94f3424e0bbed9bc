import BraceExpansion.Proofs.Nesting.Item
import BraceExpansion.Proofs.Reading.State

/-!
# What a level makes of items

`Item.row` is what the compiler should make of an item, read off its structure: an alternation of
the rows between the commas, the range that is written there, or text.

`Level.take` is what a level does with an item, and `Level.read` with all items of a block.  What
one item can do is said once (`Level.take_cases`); the rest follows by induction on the items.

* `Level.segments_read` — the rows of a level are the rows of its alternatives.
* `Level.whole_read` — together they are the row of all its items.
* `Level.bounds_read` — without commas, the bounds of a level and what is behind them are a division
  of its items at range tokens.
-/

namespace BraceExpansion

namespace Item

/-- The shapes of an item in a row. -/
def row (options : CompileOptions) : Item → List Shape
  | .token t => [t.shape]
  | .block opening body closing =>
    if body.any isComma then
      [Shape.gathered .alternate ((alternatives body).attach.map fun piece =>
        Shape.joined (fuse (piece.1.attach.flatMap fun i =>
          have := List.sizeOf_lt_of_mem (mem_of_mem_alternatives piece.2 i.2)
          row options i.1))).reverse]
    else
      match range? options body with
      | some (kind, p) => [.range kind p]
      | none => .text opening.text :: ((body.flatMap fun i => row options i) ++ [.text closing.text])
termination_by i => i

lemma row_token (options : CompileOptions) (t : Token) : row options (.token t) = [t.shape] := by
  rw [row]

lemma row_block (options : CompileOptions) (opening closing : Token) (body : List Item) :
    row options (.block opening body closing) =
      if body.any isComma then
        [Shape.gathered .alternate ((alternatives body).map fun piece =>
          Shape.joined (fuse (piece.flatMap (row options)))).reverse]
      else
        match range? options body with
        | some (kind, p) => [.range kind p]
        | none => .text opening.text :: (body.flatMap (row options) ++ [.text closing.text]) := by
  rw [row]
  simp

end Item

namespace Level

variable {options : CompileOptions} {l : Level} {items : List Item} {i : Item} {opening : Bytes}

/-- One item. -/
def take (options : CompileOptions) (l : Level) (i : Item) : Level :=
  match i with
  | .token t =>
    match t.kind with
    | .delimiter => l.comma t.text
    | .range => l.separate t.text
    | _ => l.add [t.shape]
  | i => l.add (i.row options)

/-- The items of a block. -/
def read (options : CompileOptions) (opening : Bytes) (items : List Item) : Level :=
  items.foldl (take options) { opening }

lemma read_concat (options : CompileOptions) (opening : Bytes) (items : List Item) (i : Item) :
    read options opening (items ++ [i]) = (read options opening items).take options i := by
  rw [read, List.foldl_append]
  rfl

/-- **What one item can do**: end an alternative, end a bound, or add to what is there. -/
lemma take_cases (options : CompileOptions) (l : Level) (i : Item) :
    (∃ t, i = .token t ∧ t.kind = .delimiter ∧ l.take options i = l.comma t.text) ∨
    (∃ t, i = .token t ∧ t.kind = .range ∧ l.alternatives = [] ∧
      l.take options i = { l with bounds := (l.current, t.text) :: l.bounds, current := [] }) ∨
    (i.isComma = false ∧ ∃ ranging, l.take options i =
      { l with current := l.current ++ i.row options, ranging := ranging }) := by
  cases i with
  | block opening body closing => exact Or.inr (Or.inr ⟨rfl, l.ranging, rfl⟩)
  | token t =>
      rw [Item.row_token]
      cases hkind : t.kind with
      | delimiter => exact Or.inl ⟨t, rfl, hkind, by simp only [take, hkind]⟩
      | range =>
          have htext : t.shape = .text t.text := by simp only [Token.shape, hkind]
          have hcomma : (Item.token t).isComma = false := by simp [Item.isComma, hkind]
          right
          simp only [take, hkind, separate, htext]
          split
          · exact Or.inr ⟨hcomma, l.ranging, rfl⟩
          next hcond =>
            have halternatives : l.alternatives = [] := by
              simp only [Bool.or_eq_true, Bool.not_eq_true', List.isEmpty_eq_false_iff, not_or,
                not_not, ne_eq] at hcond
              exact hcond.1.1
            split
            · exact Or.inl ⟨t, rfl, hkind, halternatives, rfl⟩
            · exact Or.inr ⟨hcomma, false, rfl⟩
      | literal => exact Or.inr (Or.inr ⟨by simp [Item.isComma, hkind], l.ranging, by
          simp only [take, hkind]; rfl⟩)
      | escape => exact Or.inr (Or.inr ⟨by simp [Item.isComma, hkind], l.ranging, by
          simp only [take, hkind]; rfl⟩)
      | quote => exact Or.inr (Or.inr ⟨by simp [Item.isComma, hkind], l.ranging, by
          simp only [take, hkind]; rfl⟩)
      | opening => exact Or.inr (Or.inr ⟨by simp [Item.isComma, hkind], l.ranging, by
          simp only [take, hkind]; rfl⟩)
      | closing => exact Or.inr (Or.inr ⟨by simp [Item.isComma, hkind], l.ranging, by
          simp only [take, hkind]; rfl⟩)

/-! ## All items -/

lemma opening_read (options : CompileOptions) (opening : Bytes) (items : List Item) :
    (read options opening items).opening = opening := by
  induction items using List.reverseRecOn with
  | nil => rfl
  | append_singleton items i ih =>
      rw [read_concat]
      rcases take_cases options (read options opening items) i with
        ⟨t, -, -, htake⟩ | ⟨t, -, -, -, htake⟩ | ⟨-, ranging, htake⟩
      · rw [htake]; exact ih
      · rw [htake]; exact ih
      · rw [htake]; exact ih

lemma isEmpty_read (options : CompileOptions) (opening : Bytes) (items : List Item) :
    (read options opening items).alternatives.isEmpty = !items.any Item.isComma := by
  induction items using List.reverseRecOn with
  | nil => rfl
  | append_singleton items i ih =>
      rw [read_concat, List.any_append, List.any_cons, List.any_nil, Bool.or_false, Bool.not_or]
      rcases take_cases options (read options opening items) i with
        ⟨t, rfl, hkind, htake⟩ | ⟨t, rfl, hkind, -, htake⟩ | ⟨hcomma, ranging, htake⟩
      · rw [htake]
        simp [comma, Item.isComma, hkind]
      · rw [htake]
        simpa [Item.isComma, hkind] using ih
      · rw [htake, hcomma]
        simpa using ih

lemma divided_read (options : CompileOptions) (opening : Bytes) (items : List Item) :
    (read options opening items).Divided := by
  induction items using List.reverseRecOn with
  | nil => exact divided_opening opening
  | append_singleton items i ih =>
      rw [read_concat]
      cases i with
      | block o body c => exact divided_add ih _
      | token t =>
          rw [take]
          split
          · exact divided_comma _ _
          · exact divided_separate ih _
          · exact divided_add ih _

/-- The rows of a level are the rows of its alternatives. -/
lemma segments_read (options : CompileOptions) (opening : Bytes) (items : List Item) :
    (read options opening items).alternatives.reverse.map Prod.fst ++
        [(read options opening items).segment]
      = (Item.alternatives items).map fun piece => piece.flatMap (Item.row options) := by
  induction items using List.reverseRecOn with
  | nil => rfl
  | append_singleton items i ih =>
      rw [read_concat]
      rcases take_cases options (read options opening items) i with
        ⟨t, rfl, hkind, htake⟩ | ⟨t, rfl, hkind, -, htake⟩ | ⟨hcomma, ranging, htake⟩
      · rw [htake, Item.alternatives_comma (by simp [Item.isComma, hkind]), List.map_append, ← ih]
        simp [comma, segment]
      · obtain ⟨finished, last, hitems, hmore⟩ :=
          Item.alternatives_concat (i := .token t) (by simp [Item.isComma, hkind]) items
        rw [hitems, List.map_append] at ih
        obtain ⟨hfinished, hlast⟩ := List.append_inj' ih rfl
        rw [htake, hmore, List.map_append, ← hfinished]
        simp only [List.map_cons, List.map_nil, List.cons.injEq, and_true] at hlast
        simp [segment, ← hlast, Item.row_token, Token.shape, hkind]
      · obtain ⟨finished, last, hitems, hmore⟩ := Item.alternatives_concat hcomma items
        rw [hitems, List.map_append] at ih
        obtain ⟨hfinished, hlast⟩ := List.append_inj' ih rfl
        rw [htake, hmore, List.map_append, ← hfinished]
        simp only [List.map_cons, List.map_nil, List.cons.injEq, and_true] at hlast
        simp [segment, ← hlast]

/-- Together they are the row of all items. -/
lemma whole_read (options : CompileOptions) (opening : Bytes) (items : List Item) :
    ((read options opening items).alternatives.reverse.flatMap fun a => a.1 ++ [.text a.2]) ++
        (read options opening items).segment = items.flatMap (Item.row options) := by
  induction items using List.reverseRecOn with
  | nil => rfl
  | append_singleton items i ih =>
      rw [read_concat, List.flatMap_append, ← ih]
      rcases take_cases options (read options opening items) i with
        ⟨t, rfl, hkind, htake⟩ | ⟨t, rfl, hkind, -, htake⟩ | ⟨hcomma, ranging, htake⟩
      · rw [htake]
        simp [comma, segment, Item.row_token, Token.shape, hkind]
      · rw [htake]
        simp [segment, Item.row_token, Token.shape, hkind]
      · rw [htake]
        simp [segment]

/-- Items divided at range tokens, as the bounds of a level are. -/
lemma bounds_read (options : CompileOptions) (opening : Bytes) (items : List Item)
    (hcomma : items.any Item.isComma = false) :
    ∃ parts : List (List Item × Token), ∃ last : List Item,
      items = (parts.flatMap fun part => part.1 ++ [.token part.2]) ++ last ∧
      (∀ part ∈ parts, part.2.kind = .range) ∧
      (read options opening items).bounds.reverse
        = parts.map (fun part => (part.1.flatMap (Item.row options), part.2.text)) ∧
      (read options opening items).current = last.flatMap (Item.row options) := by
  induction items using List.reverseRecOn with
  | nil => exact ⟨[], [], rfl, by simp, rfl, rfl⟩
  | append_singleton items i ih =>
      rw [List.any_append, Bool.or_eq_false_iff, List.any_cons, List.any_nil, Bool.or_false]
        at hcomma
      obtain ⟨parts, last, hitems, hkinds, hbounds, hcurrent⟩ := ih hcomma.1
      rw [read_concat]
      rcases take_cases options (read options opening items) i with
        ⟨t, rfl, hkind, -⟩ | ⟨t, rfl, hkind, -, htake⟩ | ⟨-, ranging, htake⟩
      · simp [Item.isComma, hkind] at hcomma
      · refine ⟨parts ++ [(last, t)], [], ?_, ?_, ?_, ?_⟩
        · rw [hitems]; simp
        · intro part hpart
          rcases List.mem_append.mp hpart with hpart | hpart
          · exact hkinds part hpart
          · rw [List.mem_singleton] at hpart
            rw [hpart]
            exact hkind
        · rw [htake]
          simp [hbounds, hcurrent]
        · rw [htake]
          rfl
      · refine ⟨parts, last ++ [i], ?_, hkinds, ?_, ?_⟩
        · rw [hitems]; simp
        · rw [htake]
          exact hbounds
        · rw [htake, List.flatMap_append, ← hcurrent]
          simp

end Level

end BraceExpansion
