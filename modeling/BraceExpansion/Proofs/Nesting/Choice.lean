import BraceExpansion.Proofs.Meaning

/-!
# Patterns between braces

What stands between two braces, divided by commas, is an alternation of the parts, if the parts are
patterns of their own: every brace in them is paired inside them, and no comma of theirs stands outside
their blocks (`Nesting.Bare`).

* **`Nesting.foldl_within`** — inside a block such tokens are the items that they are by themselves.
* **`Nesting.nest_choice`** — so tokens of this form are one block.
* **`meaning_choice`** — and the block stands for what the parts stand for, one after the other.

`Nesting.Alike` says that nesting knows tokens by their kinds alone.
-/

namespace BraceExpansion

variable {options : CompileOptions} {expand : ExpandOptions} {ts us : List Token} {t u : Token}

/-- The kind of a token that is not inside a closed block. -/
def Item.kind? : Item → Option TokenKind
  | .token t => some t.kind
  | .block _ _ _ => none

namespace Nesting

variable {n m : Nesting}

/-- No comma and no unpaired closing brace stands outside closed blocks. -/
def Bare (items : List Item) : Prop :=
  ∀ i ∈ items, i.kind? ≠ some .delimiter ∧ i.kind? ≠ some .closing

/-- A pattern that can stand between braces as it is. -/
structure Part (ts : List Token) : Prop where
  paired : (nest ts).levels = []
  bare : Bare (nest ts).ground

/-! ## Inside a block -/

lemma ground_step (n : Nesting) (t : Token) : ∃ more, (n.step t).ground = n.ground ++ more := by
  have hadd : ∀ (n : Nesting) (i : Item), ∃ more, (n.add i).ground = n.ground ++ more := by
    rintro ⟨ground, levels⟩ i
    cases levels with
    | nil => exact ⟨[i], rfl⟩
    | cons level outer => exact ⟨[], (List.append_nil _).symm⟩
  rw [step]
  split
  · exact ⟨[], (List.append_nil _).symm⟩
  · exact hadd _ _
  · exact hadd _ _

/-- A block is added to the items around it, whatever these are. -/
lemma step_within (n : Nesting) (t : Token) (hstep : Bare (n.step t).ground) (ground : List Item)
    (opening : Token) (body : List Item) (outer : List (Token × List Item)) :
    step ⟨ground, n.levels ++ (opening, body ++ n.ground) :: outer⟩ t
      = ⟨ground, (n.step t).levels ++ (opening, body ++ (n.step t).ground) :: outer⟩ := by
  obtain ⟨inside, levels⟩ := n
  obtain ⟨kind, start, text⟩ := t
  cases levels with
  | nil =>
      cases kind with
      | closing =>
          have hlast := hstep (.token ⟨.closing, start, text⟩) (by simp [step, add])
          exact absurd rfl hlast.2
      | opening => rfl
      | literal | escape | quote | delimiter | range => simp [step, add]
  | cons level levels =>
      cases kind with
      | closing => cases levels <;> simp [step, add]
      | literal | escape | quote | opening | delimiter | range => simp [step, add]

/-- **Inside a block tokens are the items that they are by themselves**, if they close nothing that
they have not opened. -/
theorem foldl_within (ts : List Token) (hbare : Bare (nest ts).ground) (ground : List Item)
    (opening : Token) (body : List Item) (outer : List (Token × List Item)) :
    ts.foldl step ⟨ground, (opening, body) :: outer⟩
      = ⟨ground, (nest ts).levels ++ (opening, body ++ (nest ts).ground) :: outer⟩ := by
  induction ts using List.reverseRecOn with
  | nil => simp [nest]
  | append_singleton ts t ih =>
      rw [nest_concat] at hbare
      obtain ⟨more, hmore⟩ := ground_step (nest ts) t
      have hbefore : Bare (nest ts).ground := by
        intro i hi
        exact hbare i (by rw [hmore]; exact List.mem_append_left _ hi)
      rw [List.foldl_append, List.foldl_cons, List.foldl_nil, ih hbefore,
        step_within (nest ts) t hbare, nest_concat]

/-! ## Blocks of parts -/

/-- The items of the parts behind the first, each behind its comma. -/
def behindCommas (rest : List (Token × List Token)) : List Item :=
  rest.flatMap fun part => .token part.1 :: (nest part.2).ground

lemma foldl_parts (rest : List (Token × List Token)) (opening : Token) (body : List Item)
    (hparts : ∀ part ∈ rest, part.1.kind = .delimiter ∧ Part part.2) :
    (rest.flatMap fun part => part.1 :: part.2).foldl step ⟨[], [(opening, body)]⟩
      = ⟨[], [(opening, body ++ behindCommas rest)]⟩ := by
  induction rest generalizing body with
  | nil => simp [behindCommas]
  | cons part rest ih =>
      obtain ⟨hcomma, hpart⟩ := hparts part List.mem_cons_self
      have hstep : step ⟨[], [(opening, body)]⟩ part.1 = ⟨[], [(opening, body ++ [.token part.1])]⟩ := by
        simp only [step, hcomma, add]
      rw [List.flatMap_cons, List.foldl_append, List.foldl_cons, hstep,
        foldl_within _ hpart.bare, hpart.paired, List.nil_append,
        ih _ fun other hother => hparts other (List.mem_cons_of_mem _ hother)]
      simp [behindCommas]

/-- **Parts between braces are one block.** -/
theorem nest_choice {opening closing : Token} (hopening : opening.kind = .opening)
    (hclosing : closing.kind = .closing) {first : List Token} (hfirst : Part first)
    {rest : List (Token × List Token)}
    (hparts : ∀ part ∈ rest, part.1.kind = .delimiter ∧ Part part.2) :
    nest (opening :: first ++ (rest.flatMap fun part => part.1 :: part.2) ++ [closing])
      = ⟨[.block opening ((nest first).ground ++ behindCommas rest) closing], []⟩ := by
  have hopen : step {} opening = ⟨[], [(opening, [])]⟩ := by simp only [step, hopening]
  have hstart : (opening :: first).foldl step {} = ⟨[], [(opening, (nest first).ground)]⟩ := by
    rw [List.foldl_cons, hopen, foldl_within _ hfirst.bare, hfirst.paired, List.nil_append,
      List.nil_append]
  rw [nest, List.foldl_append, List.foldl_append, hstart, foldl_parts rest opening _ hparts,
    List.foldl_cons, List.foldl_nil]
  simp only [step, hclosing]
  rfl

end Nesting

open Nesting in
/-- The parts are the alternatives of the block. -/
lemma Item.alternatives_parts {first : List Item} (hfirst : Bare first)
    (rest : List (Token × List Token))
    (hparts : ∀ part ∈ rest, part.1.kind = .delimiter ∧ Part part.2) :
    alternatives (first ++ behindCommas rest) = first :: rest.map fun part => (nest part.2).ground := by
  have hplain : ∀ {items : List Item}, Bare items → ∀ i ∈ items, i.isComma = false := by
    intro items hbare i hi
    have hkind := (hbare i hi).1
    match i, hkind with
    | .token t, hkind => exact decide_eq_false fun hdelimiter => hkind (congrArg some hdelimiter)
    | .block _ _ _, _ => rfl
  induction rest generalizing first with
  | nil =>
      rw [behindCommas, List.flatMap_nil, List.append_nil, alternatives,
        List.splitOnP_eq_singleton (hplain hfirst)]
      rfl
  | cons part rest ih =>
      obtain ⟨hcomma, hpart⟩ := hparts part List.mem_cons_self
      have hsplits : isComma (.token part.1) = true := decide_eq_true hcomma
      have hothers := ih hpart.bare fun other hother => hparts other (List.mem_cons_of_mem _ hother)
      rw [behindCommas, List.flatMap_cons, List.cons_append, alternatives,
        List.splitOnP_append_cons _ _ hsplits, List.splitOnP_eq_singleton (hplain hfirst),
        ← behindCommas, ← alternatives, hothers]
      rfl

/-! ## What the block stands for -/

/-- What a pattern with all braces paired and all quotes closed stands for. -/
lemma meaning_of_paired (hpaired : (nest ts).levels = []) (hsettle : Token.settleQuotes false ts = ts) :
    meaning options expand ts
      = Expansions.product ((nest ts).ground.map (Item.meaning options expand)) := by
  rw [meaning, hsettle, Nesting.items, hpaired]
  simp

/-- **Parts between braces stand for what they stand for by themselves, one after the other.** -/
theorem meaning_choice (options : CompileOptions) (expand : ExpandOptions) {opening closing : Token}
    (hopening : opening.kind = .opening) (hclosing : closing.kind = .closing) {first : List Token}
    (hfirst : Nesting.Part first) {rest : List (Token × List Token)} (hne : rest ≠ [])
    (hparts : ∀ part ∈ rest, part.1.kind = .delimiter ∧ Nesting.Part part.2)
    (hall : ts = opening :: first ++ (rest.flatMap fun part => part.1 :: part.2) ++ [closing])
    (hsettle : Token.settleQuotes false ts = ts)
    (hquotes : ∀ piece ∈ first :: rest.map Prod.snd, Token.settleQuotes false piece = piece) :
    meaning options expand ts = (first :: rest.map Prod.snd).flatMap (meaning options expand) := by
  have hnest := Nesting.nest_choice hopening hclosing hfirst hparts
  rw [← hall] at hnest
  have halternatives := Item.alternatives_parts hfirst.bare rest hparts
  have hcomma : ((nest first).ground ++ Nesting.behindCommas rest).any Item.isComma = true := by
    obtain ⟨part, rest, rfl⟩ := List.exists_cons_of_ne_nil hne
    have hsplits : Item.isComma (.token part.1) = true :=
      decide_eq_true (hparts part List.mem_cons_self).1
    simp [Nesting.behindCommas, hsplits]
  have hpieces : ∀ piece ∈ first :: rest.map Prod.snd, meaning options expand piece
      = Expansions.product ((nest piece).ground.map (Item.meaning options expand)) := by
    intro piece hpiece
    refine meaning_of_paired ?_ (hquotes piece hpiece)
    rcases List.mem_cons.mp hpiece with rfl | hpiece
    · exact hfirst.paired
    · obtain ⟨part, hpart, rfl⟩ := List.mem_map.mp hpiece
      exact (hparts part hpart).2.paired
  rw [meaning_of_paired (by rw [hnest]) hsettle, hnest]
  simp only [List.map_cons, List.map_nil, Expansions.product_cons, Expansions.product_nil,
    Expansions.cross_one]
  rw [Item.meaning_block, if_pos hcomma, halternatives, List.flatMap_congr hpieces]
  simp only [List.flatMap_cons, List.flatMap_map]

/-! ## Kinds alone -/

namespace Nesting

variable {n m : Nesting}

/-- Two nestings of tokens of the same kinds. -/
structure Alike (n m : Nesting) : Prop where
  levels : n.levels.length = m.levels.length
  ground : n.ground.map Item.kind? = m.ground.map Item.kind?

lemma Alike.add (h : n.Alike m) {i j : Item} (hkind : i.kind? = j.kind?) :
    (n.add i).Alike (m.add j) := by
  obtain ⟨ground, levels⟩ := n
  obtain ⟨ground', levels'⟩ := m
  obtain ⟨hlevels, hground⟩ := h
  cases levels with
  | nil =>
      obtain rfl := List.length_eq_zero_iff.mp hlevels.symm
      exact ⟨rfl, by simpa [Nesting.add, hkind] using hground⟩
  | cons level outer =>
      obtain ⟨level', outer', rfl⟩ := List.exists_cons_of_length_eq_add_one hlevels.symm
      exact ⟨hlevels, hground⟩

lemma Alike.step (h : n.Alike m) (hkind : t.kind = u.kind) : (n.step t).Alike (m.step u) := by
  have hadd := h.add (i := .token t) (j := .token u) (congrArg some hkind)
  obtain ⟨ground, levels⟩ := n
  obtain ⟨ground', levels'⟩ := m
  obtain ⟨kind, start, text⟩ := t
  obtain ⟨kind', start', text'⟩ := u
  obtain rfl : kind = kind' := hkind
  cases kind with
  | literal | escape | quote | delimiter | range => exact hadd
  | opening => exact ⟨congrArg Nat.succ h.levels, h.ground⟩
  | closing =>
      cases levels with
      | nil =>
          obtain rfl := List.length_eq_zero_iff.mp h.levels.symm
          exact hadd
      | cons level outer =>
          obtain ⟨level', outer', rfl⟩ := List.exists_cons_of_length_eq_add_one h.levels.symm
          have hshorter : Alike ⟨ground, outer⟩ ⟨ground', outer'⟩ :=
            ⟨Nat.succ.inj h.levels, h.ground⟩
          exact hshorter.add rfl

lemma alike_nest (h : ts.map Token.kind = us.map Token.kind) : (nest ts).Alike (nest us) := by
  induction ts using List.reverseRecOn generalizing us with
  | nil =>
      obtain rfl := List.map_eq_nil_iff.mp h.symm
      exact ⟨rfl, rfl⟩
  | append_singleton ts t ih =>
      rw [List.map_append] at h
      obtain ⟨before, last, rfl, hbefore, hlast⟩ := List.map_eq_append_iff.mp h.symm
      obtain ⟨u, rfl, hu⟩ := List.map_eq_singleton_iff.mp hlast
      rw [nest_concat, nest_concat]
      exact (ih hbefore.symm).step hu.symm

lemma paired_congr (hpaired : (nest ts).levels = [])
    (hkinds : ts.map Token.kind = us.map Token.kind) : (nest us).levels = [] := by
  rw [← List.length_eq_zero_iff, ← (alike_nest hkinds).levels, hpaired]
  rfl

/-- Whether tokens can stand between braces depends on their kinds alone. -/
lemma Part.congr (h : Part ts) (hkinds : ts.map Token.kind = us.map Token.kind) : Part us := by
  refine ⟨paired_congr h.paired hkinds, ?_⟩
  intro i hi
  have hmem : i.kind? ∈ (nest us).ground.map Item.kind? := List.mem_map_of_mem hi
  rw [← (alike_nest hkinds).ground] at hmem
  obtain ⟨j, hj, hkind⟩ := List.mem_map.mp hmem
  rw [← hkind]
  exact h.bare j hj

end Nesting

end BraceExpansion
