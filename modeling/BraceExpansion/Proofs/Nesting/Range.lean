import BraceExpansion.Proofs.Nesting.Level
import BraceExpansion.Proofs.Nesting.Plain

/-!
# A block is read as a range when it is written as one

The compiler decides from what is on the stack whether a block is a range: two or three pieces with
separators between them, where the number of pieces was right each time a separator came.
`Item.range?` decides from the tokens.  **`Level.range?_read`** says that both agree.

One direction is a computation.  In the other, a piece that is a bound may have come about in many
ways, because text runs together: from several literals, from dots that were no separator, from a
block that came to nothing.  But all of these leave text that is not plain, and the bounds of a
range are plain.  What is left is a single token.
-/

namespace BraceExpansion

/-! ## Rows that make one shape -/

/-- One shape comes from one shape, or from two texts. -/
lemma Shape.put_eq_singleton {below : List Shape} {s u : Shape} (h : put below s = [u]) :
    below = [] ∧ s = u ∨
      ∃ before t, below = [text before] ∧ s = text t ∧ u = text (before ++ t) := by
  cases hs : s.isLiteral with
  | false =>
      rw [put_of_not_literal hs] at h
      obtain ⟨rfl, rfl⟩ := List.cons.inj h
      exact Or.inl ⟨rfl, rfl⟩
  | true =>
      match s, hs with
      | .leaf .literal t, _ =>
        rw [put_text] at h
        rcases appendText_cases below with ⟨before, rest, rfl⟩ | hbelow
        · rw [appendText_text] at h
          obtain ⟨rfl, rfl⟩ := List.cons.inj h
          exact Or.inr ⟨before, t, rfl, rfl, rfl⟩
        · rw [hbelow] at h
          obtain ⟨rfl, rfl⟩ := List.cons.inj h
          exact Or.inl ⟨rfl, rfl⟩

lemma fuse_concat (row : List Shape) (s : Shape) : fuse (row ++ [s]) = Shape.put (fuse row) s := by
  rw [fuse_append]
  rfl

lemma eq_nil_of_fuse_eq_nil {row : List Shape} (h : fuse row = []) : row = [] := by
  rcases List.eq_nil_or_concat row with rfl | ⟨init, s, rfl⟩
  · rfl
  · rw [List.concat_eq_append, fuse_concat] at h
    cases hs : s.isLiteral with
    | false => rw [Shape.put_of_not_literal hs] at h; cases h
    | true =>
        match s, hs with
        | .leaf .literal t, _ =>
          rcases Shape.appendText_cases (fuse init) with ⟨before, rest, hinit⟩ | hinit
          · rw [Shape.put_text, hinit] at h; cases h
          · rw [Shape.put_text, hinit] at h; cases h

lemma eq_of_fuse_eq {row : List Shape} {s : Shape} (hs : s.isLiteral = false)
    (h : fuse row = [s]) : row = [s] := by
  rcases List.eq_nil_or_concat row with rfl | ⟨init, u, rfl⟩
  · cases h
  · rw [List.concat_eq_append, fuse_concat] at h
    rcases Shape.put_eq_singleton h with ⟨hinit, rfl⟩ | ⟨before, t, -, -, rfl⟩
    · rw [eq_nil_of_fuse_eq_nil hinit]
      rfl
    · cases hs

lemma eq_map_of_fuse_eq {row : List Shape} {t : Bytes} (h : fuse row = [.text t]) :
    ∃ texts : List Bytes, row = texts.map .text ∧ texts.flatten = t := by
  induction row using List.reverseRecOn generalizing t with
  | nil => cases h
  | append_singleton row s ih =>
      rw [fuse_concat] at h
      rcases Shape.put_eq_singleton h with ⟨hrow, rfl⟩ | ⟨before, u, hrow, rfl, ht⟩
      · rw [eq_nil_of_fuse_eq_nil hrow]
        exact ⟨[t], rfl, by simp⟩
      · obtain ⟨texts, rfl, rfl⟩ := ih hrow
        cases ht
        exact ⟨texts ++ [u], by simp, by simp⟩

/-! ## Items that make one shape -/

namespace Item

/-- Whether an item is one literal. -/
def isLiteral : Item → Bool
  | .token t => t.isLiteral
  | .block _ _ _ => false

/-- An item is spelled as it should, and no brace stands inside a block by itself. -/
def Spelled : Item → Prop
  | .token t => t.Spelled ∧ t.kind ≠ .opening ∧ t.kind ≠ .closing
  | .block opening _ closing => opening.Spelled ∧ opening.kind = .opening ∧
    closing.Spelled ∧ closing.kind = .closing

/-- Items as they stand directly in a closed block. -/
structure Neat (items : List Item) : Prop where
  spelled : ∀ i ∈ items, i.Spelled
  apart : items.IsChain fun i j => ¬ (i.isLiteral ∧ j.isLiteral)

variable {options : CompileOptions} {items : List Item} {i : Item}

/-- What an item that is text looks like. -/
lemma row_eq_map (hi : i.Spelled) (hcomma : i.isComma = false) {texts : List Bytes}
    (hrow : i.row options = texts.map .text) :
    (∃ t, i = .token t ∧ t.kind = .literal ∧ texts = [t.text]) ∨
      2 ≤ texts.flatten.length ∧
        (Ascii.openBrace ∈ texts.flatten ∨ Ascii.dot ∈ texts.flatten) := by
  cases i with
  | token t =>
      obtain ⟨htext, hopening, hclosing⟩ := hi
      rw [row_token] at hrow
      have hlength : texts.length = 1 := by simpa using (congrArg List.length hrow).symm
      obtain ⟨u, rfl⟩ := List.length_eq_one_iff.mp hlength
      simp only [List.map_cons, List.map_nil, List.cons.injEq, and_true] at hrow
      cases hkind : t.kind with
      | literal =>
          simp only [Token.shape, hkind] at hrow
          cases hrow
          exact Or.inl ⟨t, rfl, hkind, rfl⟩
      | escape => simp only [Token.shape, hkind] at hrow; cases hrow
      | quote => simp only [Token.shape, hkind] at hrow; cases hrow
      | opening => exact absurd hkind hopening
      | closing => exact absurd hkind hclosing
      | delimiter => simp [isComma, hkind] at hcomma
      | range =>
          simp only [Token.shape, hkind] at hrow
          simp only [Token.Spelled, hkind] at htext
          cases hrow
          right
          rw [htext]
          exact ⟨by decide, Or.inr (by decide)⟩
  | block opening body closing =>
      obtain ⟨hopen, hopening, hclose, hclosing⟩ := hi
      simp only [Token.Spelled, hopening] at hopen
      simp only [Token.Spelled, hclosing] at hclose
      rw [row_block] at hrow
      split at hrow
      · cases texts with
        | nil => cases hrow
        | cons u texts => cases hrow
      · split at hrow
        · cases texts with
          | nil => cases hrow
          | cons u texts => cases hrow
        · right
          -- the text starts with the opening brace and ends with another byte
          rw [hopen, hclose] at hrow
          cases texts with
          | nil => cases hrow
          | cons u texts =>
              rw [List.map_cons, List.cons.injEq] at hrow
              obtain ⟨hu, hrest⟩ := hrow
              cases hu
              have hmem : Shape.text [Ascii.closeBrace] ∈ texts.map .text := by
                rw [← hrest]
                simp
              obtain ⟨v, hv, heq⟩ := List.mem_map.mp hmem
              cases heq
              have hlength : 1 ≤ texts.flatten.length := by
                have hbyte := List.mem_flatten.mpr ⟨_, hv, List.mem_singleton_self _⟩
                exact List.length_pos_of_mem hbyte
              refine ⟨?_, Or.inl (by simp)⟩
              simp only [List.flatten_cons, List.length_append, List.length_singleton]
              omega

lemma row_ne_nil (options : CompileOptions) (i : Item) : i.row options ≠ [] := by
  cases i with
  | token t => rw [row_token]; exact List.cons_ne_nil _ _
  | block opening body closing =>
      rw [row_block]
      split
      · exact List.cons_ne_nil _ _
      · split
        · exact List.cons_ne_nil _ _
        · exact List.cons_ne_nil _ _

/-- In a row that is text, every item is text. -/
lemma row_eq_map_of_mem {texts : List Bytes} (h : items.flatMap (row options) = texts.map .text)
    (hi : i ∈ items) : ∃ us : List Bytes, i.row options = us.map .text ∧
      us.flatten.length ≤ texts.flatten.length ∧ ∀ b ∈ us.flatten, b ∈ texts.flatten := by
  obtain ⟨before, after, rfl⟩ := List.append_of_mem hi
  rw [List.flatMap_append, List.flatMap_cons] at h
  obtain ⟨_, rest, rfl, -, hrest⟩ := List.map_eq_append_iff.mp h.symm
  obtain ⟨us, more, rfl, hus, -⟩ := List.map_eq_append_iff.mp hrest
  refine ⟨us, hus.symm, ?_, ?_⟩
  · simp only [List.flatten_append, List.length_append]
    omega
  · intro b hb
    simp only [List.flatten_append, List.mem_append]
    exact Or.inr (Or.inl hb)

/-- A plain text is one literal. -/
lemma literal_of_fuse_eq (hneat : Neat items) (hcomma : items.any isComma = false) {t : Bytes}
    (h : fuse (items.flatMap (row options)) = [.text t]) (hplain : Plain t) :
    ∃ u, items = [.token u] ∧ u.kind = .literal ∧ u.text = t := by
  obtain ⟨texts, htexts, rfl⟩ := eq_map_of_fuse_eq h
  have hall : ∀ i ∈ items, ∃ u, i = .token u ∧ u.kind = .literal := by
    intro i hi
    obtain ⟨us, hrow, hlength, hmem⟩ := row_eq_map_of_mem htexts hi
    have hnot : i.isComma = false := by
      cases hc : i.isComma with
      | false => rfl
      | true =>
          rw [List.any_eq_true.mpr ⟨i, hi, hc⟩] at hcomma
          cases hcomma
    rcases row_eq_map (hneat.spelled i hi) hnot hrow with ⟨u, hu, hkind, -⟩ | ⟨htwo, hbyte⟩
    · exact ⟨u, hu, hkind⟩
    · rcases hplain with hshort | hplain
      · omega
      · rcases hbyte with hbyte | hbyte
        · exact absurd rfl (hplain _ (hmem _ hbyte)).1
        · exact absurd rfl (hplain _ (hmem _ hbyte)).2
  match items, hneat, hall with
  | [], _, _ => cases h
  | [i], _, hall =>
    obtain ⟨u, rfl, hkind⟩ := hall i List.mem_cons_self
    refine ⟨u, rfl, hkind, ?_⟩
    rw [List.flatMap_singleton, row_token] at h
    simp only [Token.shape, hkind] at h
    have hu : [Shape.text u.text] = [.text texts.flatten] := h
    simpa using hu
  | i :: j :: more, hneat, hall =>
    obtain ⟨u, rfl, hu⟩ := hall i List.mem_cons_self
    obtain ⟨v, rfl, hv⟩ := hall j (List.mem_cons_of_mem _ List.mem_cons_self)
    have hapart := hneat.apart
    rw [List.isChain_cons_cons] at hapart
    exact absurd ⟨by simp [isLiteral, Token.isLiteral, hu], by simp [isLiteral, Token.isLiteral, hv]⟩
      hapart.1

lemma escape_of_fuse_eq {t : Bytes} (h : fuse (items.flatMap (row options)) = [.leaf .escape t]) :
    ∃ u, items = [.token u] ∧ u.kind = .escape ∧ u.text = t := by
  have hrow := eq_of_fuse_eq rfl h
  match items, hrow with
  | [], hrow => cases hrow
  | i :: more, hrow =>
    rw [List.flatMap_cons] at hrow
    obtain ⟨s, rest, hi⟩ := List.exists_cons_of_ne_nil (row_ne_nil options i)
    rw [hi, List.cons_append] at hrow
    obtain ⟨rfl, hnil⟩ := List.cons.inj hrow
    obtain ⟨rfl, hmore⟩ := List.append_eq_nil_iff.mp hnil
    have hmore : more = [] := by
      cases more with
      | nil => rfl
      | cons j more =>
          rw [List.flatMap_cons, List.append_eq_nil_iff] at hmore
          exact absurd hmore.1 (row_ne_nil options j)
    cases i with
    | block opening body closing =>
        rw [row_block] at hi
        split at hi
        · cases hi
        · split at hi
          · cases hi
          · cases hi
    | token u =>
        rw [row_token] at hi
        have hshape : u.shape = .leaf .escape t := (List.cons.inj hi).1
        refine ⟨u, by rw [hmore], ?_⟩
        cases hkind : u.kind with
        | escape =>
            simp only [Token.shape, hkind] at hshape
            cases hshape
            exact ⟨rfl, rfl⟩
        | literal => simp only [Token.shape, hkind] at hshape; cases hshape
        | quote => simp only [Token.shape, hkind] at hshape; cases hshape
        | opening => simp only [Token.shape, hkind] at hshape; cases hshape
        | closing => simp only [Token.shape, hkind] at hshape; cases hshape
        | delimiter => simp only [Token.shape, hkind] at hshape; cases hshape
        | range => simp only [Token.shape, hkind] at hshape; cases hshape

/-- A plain bound is one token. -/
lemma bound_of_fuse_eq (options : CompileOptions) (hneat : Neat items)
    (hcomma : items.any isComma = false) {s : Shape} {t : Bytes}
    (h : fuse (items.flatMap (row options)) = [s])
    (hbound : (Piece.shape s).boundText? = some t) (hplain : Plain t) :
    ∃ u, items = [.token u] ∧ u.bound? = some t := by
  match s, hbound with
  | .leaf .literal v, hbound =>
    obtain rfl : v = t := by simpa [Piece.boundText?] using hbound
    obtain ⟨u, hu, hkind, rfl⟩ := literal_of_fuse_eq hneat hcomma h hplain
    exact ⟨u, hu, by simp only [Token.bound?, hkind]⟩
  | .leaf .escape v, hbound =>
    obtain rfl : v.drop 1 = t := by simpa [Piece.boundText?] using hbound
    obtain ⟨u, hu, hkind, rfl⟩ := escape_of_fuse_eq h
    exact ⟨u, hu, by simp only [Token.bound?, hkind]⟩

lemma Neat.part {before part after : List Item} (h : Neat (before ++ part ++ after)) : Neat part := by
  refine ⟨?_, ?_⟩
  · intro i hi
    exact h.spelled i (List.mem_append_left _ (List.mem_append_right _ hi))
  · exact h.apart.infix ⟨before, after, rfl⟩

end Item

/-! ## Pieces that are read as a range -/

/-- Shapes up to a separator, where one shape stands before it. -/
lemma cut_shapes {shapes : List Shape} {m m' : Mark} {t t' : Bytes} {first : Piece}
    {rest tail : List Piece} (hfirst : first.boundText?.isSome)
    (h : shapes.map Piece.shape ++ .mark m t :: rest = first :: .mark m' t' :: tail) :
    ∃ s, shapes = [s] ∧ first = .shape s ∧ rest = tail := by
  match shapes, h with
  | [], h =>
    obtain ⟨rfl, -⟩ := List.cons.inj h
    cases hfirst
  | [s], h =>
    rw [List.map_singleton, List.singleton_append] at h
    obtain ⟨heq, htail⟩ := List.cons.inj h
    exact ⟨s, rfl, heq.symm, (List.cons.inj htail).2⟩
  | s :: u :: more, h =>
    rw [List.map_cons, List.map_cons, List.cons_append, List.cons_append] at h
    cases (List.cons.inj (List.cons.inj h).2).1

lemma no_mark {shapes : List Shape} {m : Mark} {t : Bytes} {first : Piece} {tail : List Piece}
    (h : shapes.map Piece.shape = first :: .mark m t :: tail) : False := by
  have hmem : Piece.mark m t ∈ shapes.map Piece.shape := by simp [h]
  simp at hmem

/-- Parts up to the first separator, where one shape stands before it. -/
lemma cut_part {α : Type} {parts : List α} {shapes : α → List Shape} {text : α → Bytes}
    {last : List Shape} {m : Mark} {t : Bytes} {first : Piece} {tail : List Piece}
    (hfirst : first.boundText?.isSome)
    (h : (parts.flatMap fun part => (shapes part).map Piece.shape ++ [.mark .range (text part)]) ++
      last.map .shape = first :: .mark m t :: tail) :
    ∃ part more s, parts = part :: more ∧ shapes part = [s] ∧ first = .shape s ∧
      (more.flatMap fun part => (shapes part).map Piece.shape ++ [.mark .range (text part)]) ++
        last.map .shape = tail := by
  cases parts with
  | nil => exact absurd h no_mark
  | cons part more =>
      rw [List.flatMap_cons, List.append_assoc, List.append_assoc, List.singleton_append] at h
      obtain ⟨s, hs, hshape, hrest⟩ := cut_shapes hfirst h
      exact ⟨part, more, s, rfl, hs, hshape, hrest⟩

lemma isMark_of_boundText? {piece : Piece} {t : Bytes} (h : piece.boundText? = some t) :
    piece.isMark = false := by
  cases piece with
  | shape s => rfl
  | mark m u => cases h

/-- A shape that stands alone has no separator before it. -/
lemma lone_shape {α : Type} {parts : List α} {shapes : α → List Shape} {text : α → Bytes}
    {last : List Shape} {q : Piece} (hq : q.isMark = false)
    (h : (parts.flatMap fun part => (shapes part).map Piece.shape ++ [.mark .range (text part)]) ++
      last.map .shape = [q]) : parts = [] ∧ ∃ s, last = [s] ∧ q = .shape s := by
  cases parts with
  | nil =>
      obtain ⟨s, hs⟩ := List.length_eq_one_iff.mp (by simpa using congrArg List.length h)
      refine ⟨rfl, s, hs, ?_⟩
      simpa [hs] using h.symm
  | cons part more =>
      rw [List.flatMap_cons] at h
      cases hshapes : shapes part with
      | nil =>
          rw [hshapes] at h
          obtain ⟨rfl, -⟩ := List.cons.inj h
          cases hq
      | cons s rest =>
          rw [hshapes] at h
          have hlength := congrArg List.length h
          simp at hlength

namespace Level

variable {options : CompileOptions} {items : List Item} {opening : Bytes}

/-- The pieces of a block without commas, from the bottom up. -/
lemma pieces_read {parts : List (List Item × Token)} {last : List Item} {l : Level}
    (hbounds : l.bounds.reverse
      = parts.map (fun part => (part.1.flatMap (Item.row options), part.2.text)))
    (hcurrent : l.current = last.flatMap (Item.row options)) :
    ((fuse l.current).map Piece.shape ++ l.boundPieces).reverse
      = (parts.flatMap fun part =>
          (fuse (part.1.flatMap (Item.row options))).reverse.map Piece.shape ++
            [.mark .range part.2.text]) ++
        (fuse (last.flatMap (Item.row options))).reverse.map Piece.shape := by
  rw [boundPieces, List.reverse_append, List.reverse_flatMap, hbounds, hcurrent, List.flatMap_map,
    List.map_reverse]
  congr 1
  refine List.flatMap_congr ?_
  intro part _
  simp

lemma take_bound (options : CompileOptions) {t : Token} {text : Bytes}
    (ht : t.bound? = some text) (l : Level) :
    l.take options (.token t) = l.add [t.shape] ∧ (Piece.shape t.shape).boundText? = some text := by
  cases hkind : t.kind with
  | literal =>
      simp only [Token.bound?, hkind] at ht
      exact ⟨by simp only [take, hkind], by simpa [Token.shape, hkind, Piece.boundText?] using ht⟩
  | escape =>
      simp only [Token.bound?, hkind] at ht
      exact ⟨by simp only [take, hkind], by simpa [Token.shape, hkind, Piece.boundText?] using ht⟩
  | quote => simp [Token.bound?, hkind] at ht
  | opening => simp [Token.bound?, hkind] at ht
  | closing => simp [Token.bound?, hkind] at ht
  | delimiter => simp [Token.bound?, hkind] at ht
  | range => simp [Token.bound?, hkind] at ht

lemma fuse_singleton (s : Shape) : fuse [s] = [s] := by
  cases s with
  | range kind p => rfl
  | list kind children => rfl
  | leaf kind t => cases kind <;> rfl

/-- The first separator behind one bound, or the second behind two. -/
lemma take_separator (options : CompileOptions) (opening : Bytes) {t : Token}
    (ht : t.kind = .range) (s : Shape) (bounds : List (List Shape × Bytes))
    (hlength : bounds.length < 2)
    (hone : ∀ b ∈ bounds, ∃ u, b.1 = [u]) :
    take options { opening, bounds, current := [s] } (.token t)
      = { opening, bounds := ([s], t.text) :: bounds } := by
  have hpieces : Compiler.separates
      (pieces { opening, bounds, current := [s] }).length = true := by
    match bounds, hlength, hone with
    | [], _, _ => simp [pieces, past, boundPieces, alternativePieces, fuse_singleton,
        Compiler.separates]
    | [b], _, hone =>
      obtain ⟨u, hu⟩ := hone b List.mem_cons_self
      simp [pieces, past, boundPieces, alternativePieces, fuse_singleton, hu,
        Compiler.separates]
  have hfew : ¬ 2 ≤ bounds.length := by omega
  simp [take, ht, separate, hpieces, hfew]

/-- What is written as a range is read as one. -/
lemma range?_read_of_written {range : RangeKind × Progression}
    (h : Item.range? options items = some range) :
    (read options opening items).range? options = some range := by
  unfold Item.range? at h
  split at h
  next first dots last =>
    split at h
    next hdots =>
      obtain ⟨a, ha, h⟩ := Option.bind_eq_some_iff.mp h
      obtain ⟨b, hb, h⟩ := Option.bind_eq_some_iff.mp h
      obtain ⟨hfirst, hfirstText⟩ := take_bound options ha { opening }
      have hread : read options opening [.token first, .token dots, .token last]
          = { opening, bounds := [([first.shape], dots.text)], current := [last.shape] } := by
        simp only [read, List.foldl_cons, List.foldl_nil, hfirst]
        rw [(take_bound options hb _).1]
        exact congrArg (add · [last.shape]) (take_separator options opening hdots _ _ (by simp) (by simp))
      have hlastText := (take_bound options hb { opening }).2
      rw [hread]
      simpa [range?, boundPieces, fuse_singleton, Piece.readRange?, hfirstText, hlastText] using h
    · cases h
  next first dots last more step =>
    split at h
    next hkinds =>
      obtain ⟨hdots, hmore, hstep⟩ := hkinds
      obtain ⟨n, hn, h⟩ := Option.bind_eq_some_iff.mp h
      obtain ⟨a, ha, h⟩ := Option.bind_eq_some_iff.mp h
      obtain ⟨b, hb, h⟩ := Option.bind_eq_some_iff.mp h
      obtain ⟨hfirst, hfirstText⟩ := take_bound options ha { opening }
      have hstepShape : step.shape = .text step.text := by simp only [Token.shape, hstep]
      have hread : read options opening
          [.token first, .token dots, .token last, .token more, .token step]
          = { opening
              bounds := [([last.shape], more.text), ([first.shape], dots.text)]
              current := [.text step.text] } := by
        simp only [read, List.foldl_cons, List.foldl_nil, hfirst]
        have hfirstDots := take_separator options opening hdots first.shape [] (by simp)
          (by simp)
        have hlastMore := take_separator options opening hmore last.shape
          [([first.shape], dots.text)] (by simp) (by simp)
        simp only [add, List.nil_append] at hfirstDots ⊢
        rw [hfirstDots, (take_bound options hb _).1]
        simp only [add, List.nil_append]
        rw [hlastMore]
        simp only [take, hstep, add, List.nil_append, hstepShape]
      have hlastText := (take_bound options hb { opening }).2
      rw [hread]
      simpa [range?, boundPieces, fuse_singleton, Piece.readRange?, hfirstText, hlastText, hn]
        using h
    · cases h
  · cases h

/-- What is read as a range is written as one. -/
lemma written_of_range?_read (hneat : Item.Neat items) (hcomma : items.any Item.isComma = false)
    {range : RangeKind × Progression}
    (h : (read options opening items).range? options = some range) :
    Item.range? options items = some range := by
  obtain ⟨parts, last, hitems, hkinds, hbounds, hcurrent⟩ :=
    bounds_read options opening items hcomma
  rw [range?] at h
  split at h
  swap
  · cases h
  rw [pieces_read hbounds hcurrent] at h
  -- what stands between separators is neat and has no commas
  have hpart : ∀ before part after : List Item, items = before ++ part ++ after →
      Item.Neat part ∧ part.any Item.isComma = false := by
    rintro before part after rfl
    refine ⟨hneat.part, ?_⟩
    simp only [List.any_append, Bool.or_eq_false_iff] at hcomma
    exact hcomma.1.2
  have hbound : ∀ {part : List Item} {s : Shape} {t : Bytes} {p : Piece},
      Item.Neat part ∧ part.any Item.isComma = false →
      (fuse (part.flatMap (Item.row options))).reverse = [s] → p = .shape s →
      p.boundText? = some t → Plain t → ∃ u, part = [.token u] ∧ u.bound? = some t := by
    rintro part s t p ⟨hn, hc⟩ hs rfl ht hplain
    refine Item.bound_of_fuse_eq options hn hc ?_ ht hplain
    simpa using congrArg List.reverse hs
  unfold Piece.readRange? at h
  split at h
  next first text stop heq =>
    obtain ⟨a, ha, h⟩ := Option.bind_eq_some_iff.mp h
    obtain ⟨b, hb, h⟩ := Option.bind_eq_some_iff.mp h
    obtain ⟨hplainA, hplainB⟩ := plain_of_ofTexts? h
    obtain ⟨⟨before, dots⟩, others, s, rfl, hs, hfirst, hrest⟩ := cut_part (by simp [ha]) heq
    obtain ⟨rfl, u, hu, hstop⟩ := lone_shape (isMark_of_boundText? hb) hrest
    simp only [List.flatMap_cons, List.flatMap_nil, List.append_nil] at hitems
    have hbefore := hpart [] before (.token dots :: last) (by simp [hitems])
    have hlast := hpart (before ++ [.token dots]) last [] (by simp [hitems])
    obtain ⟨v, rfl, hv⟩ := hbound hbefore hs hfirst ha hplainA
    obtain ⟨w, rfl, hw⟩ := hbound hlast hu hstop hb hplainB
    have hdots : dots.kind = .range := hkinds _ List.mem_cons_self
    rw [hitems]
    simpa [Item.range?, hdots, hv, hw] using h
  next first text stop more step heq =>
    obtain ⟨n, hn, h⟩ := Option.bind_eq_some_iff.mp h
    obtain ⟨a, ha, h⟩ := Option.bind_eq_some_iff.mp h
    obtain ⟨b, hb, h⟩ := Option.bind_eq_some_iff.mp h
    obtain ⟨hplainA, hplainB⟩ := plain_of_ofTexts? h
    obtain ⟨⟨before, dots⟩, parts, s, rfl, hs, hfirst, hrest⟩ := cut_part (by simp [ha]) heq
    obtain ⟨⟨between, dots'⟩, others, u, rfl, hu, hstop, hrest'⟩ := cut_part (by simp [hb]) hrest
    obtain ⟨rfl, x, hx, hstep⟩ := lone_shape rfl hrest'
    simp only [List.flatMap_cons, List.flatMap_nil, List.append_nil] at hitems
    have hbefore := hpart [] before
      (.token dots :: (between ++ .token dots' :: last)) (by simp [hitems])
    have hbetween := hpart (before ++ [.token dots]) between (.token dots' :: last)
      (by simp [hitems])
    have hlast := hpart (before ++ .token dots :: between ++ [.token dots']) last []
      (by simp [hitems])
    obtain ⟨v, rfl, hv⟩ := hbound hbefore hs hfirst ha hplainA
    obtain ⟨w, rfl, hw⟩ := hbound hbetween hu hstop hb hplainB
    have hfused : fuse (last.flatMap (Item.row options)) = [.text step] := by
      rw [← Piece.shape.inj hstep] at hx
      simpa using congrArg List.reverse hx
    obtain ⟨y, rfl, hykind, hytext⟩ := Item.literal_of_fuse_eq hlast.1 hlast.2 hfused
      (Decimal.plain_of_read? hn)
    have hdots : dots.kind = .range := hkinds _ List.mem_cons_self
    have hdots' : dots'.kind = .range :=
      hkinds _ (List.mem_cons_of_mem _ List.mem_cons_self)
    rw [hitems]
    simpa [Item.range?, hdots, hdots', hykind, hytext, hn, hv, hw] using h
  next => cases h

/-- **A block without commas is read as a range exactly when it is written as one.** -/
theorem range?_read (hneat : Item.Neat items) (hcomma : items.any Item.isComma = false) :
    (read options opening items).range? options = Item.range? options items := by
  cases hwritten : Item.range? options items with
  | some range => exact range?_read_of_written hwritten
  | none =>
      cases hread : (read options opening items).range? options with
      | none => rfl
      | some range =>
          rw [written_of_range?_read hneat hcomma hread] at hwritten
          cases hwritten

/-! ## Closing a block -/

/-- **A block that closes is the item it should be.** -/
theorem close_read (options : CompileOptions) (hneat : Item.Neat items) (first last : Token) :
    (read options first.text items).close options last.text
      = Item.row options (.block first items last) := by
  have hsegments := segments_read options first.text items
  have hempty := isEmpty_read options first.text items
  have hdivided := divided_read options first.text items
  rw [close, Item.row_block]
  cases hcomma : items.any Item.isComma with
  | true =>
      rw [hcomma, Bool.not_true] at hempty
      have hbounds : (read options first.text items).bounds = [] := by
        refine hdivided.either.resolve_left ?_
        simpa using hempty
      have hsegment : (read options first.text items).segment
          = (read options first.text items).current := by simp [segment, hbounds]
      rw [hsegment] at hsegments
      rw [hempty, if_neg Bool.false_ne_true, if_pos rfl, choice]
      have hmap : (Item.alternatives items).map (fun piece =>
          Shape.joined (fuse (piece.flatMap (Item.row options))))
          = ((Item.alternatives items).map fun piece => piece.flatMap (Item.row options)).map
            fun row => Shape.joined (fuse row) := by
        rw [List.map_map]
        rfl
      rw [hmap, ← hsegments]
      simp [Function.comp_def]
  | false =>
      rw [hcomma, Bool.not_false] at hempty
      rw [hempty, if_pos rfl, if_neg Bool.false_ne_true, range?_read hneat hcomma]
      have hwhole := whole_read options first.text items
      have halternatives : (read options first.text items).alternatives = [] := by
        simpa using hempty
      rw [halternatives, List.reverse_nil, List.flatMap_nil, List.nil_append] at hwhole
      have hrow : (read options first.text items).row
          = .text first.text :: items.flatMap (Item.row options) := by
        rw [row, halternatives, hwhole, opening_read]
        rfl
      rw [hrow]
      cases Item.range? options items <;> rfl

end Level

end BraceExpansion
