import BraceExpansion.Proofs.Nesting.Range
import BraceExpansion.Proofs.Reading.Measure

/-!
# Readings and matching braces

The tokens of a pattern make a `Reading`, as the compiler would have it, and a `Nesting`, as the
braces match.  **`Scanner.Reads.reading_eq`** says that the first is a function of the second: every
level is what its items make of it.

A level closes for the item that it should be only if its items are neat.  They are, because of the
tokens before a closing brace no two are literals in a row (`Nesting.Tidy`).
-/

namespace BraceExpansion

variable {options : CompileOptions}

/-! ## The nesting as a reading -/

namespace Reading

/-- The reading with the open quote as any other shape. -/
def shut (r : Reading) : Reading :=
  match r.quote with
  | none => r
  | some (text, inside) => { r with quote := none }.add (.leaf .quote text :: inside)

lemma add_add (r : Reading) (row more : List Shape) : (r.add row).add more = r.add (row ++ more) := by
  match r with
  | ⟨_, _, some _⟩ => simp [add]
  | ⟨_, _ :: _, none⟩ => simp [add, Level.add]
  | ⟨_, [], none⟩ => simp [add]

lemma quote_add_none {r : Reading} (h : r.quote = none) (row : List Shape) :
    (r.add row).quote = none := by
  match r, h with
  | ⟨_, _ :: _, none⟩, _ => rfl
  | ⟨_, [], none⟩, _ => rfl

lemma shut_of_none {r : Reading} (h : r.quote = none) : r.shut = r := by
  rw [shut, h]

lemma shut_add (r : Reading) (row : List Shape) : (r.add row).shut = r.shut.add row := by
  obtain ⟨ground, levels, quote⟩ := r
  cases quote with
  | none => rw [shut_of_none (quote_add_none rfl row), shut_of_none rfl]
  | some quote =>
      obtain ⟨text, inside⟩ := quote
      show add ⟨ground, levels, none⟩ (.leaf .quote text :: (inside ++ row)) = add (add _ _) row
      rw [add_add]
      rfl

lemma shut_toggle (r : Reading) (text : Bytes) :
    (r.toggle text).shut = r.shut.add [.leaf .quote text] := by
  obtain ⟨ground, levels, quote⟩ := r
  cases quote with
  | none => rfl
  | some quote =>
      obtain ⟨opening, inside⟩ := quote
      have hnone : (⟨ground, levels, none⟩ : Reading).quote = none := rfl
      simp only [toggle]
      rw [shut_of_none (quote_add_none hnone _)]
      simp [shut, add_add]

end Reading

namespace Nesting

variable {n : Nesting} {ts : List Token} {t : Token} {i : Item}

/-- The reading of some items. -/
def reading (options : CompileOptions) (n : Nesting) : Reading where
  ground := n.ground.flatMap (Item.row options)
  levels := n.levels.map fun level => Level.read options level.1.text level.2

lemma reading_add_of_row (hrow : ∀ l : Level, l.take options i = l.add (i.row options)) :
    (n.add i).reading options = (n.reading options).add (i.row options) := by
  match n with
  | ⟨_, []⟩ => simp [add, reading, Reading.add]
  | ⟨_, (opening, body) :: outer⟩ => simp [add, reading, Reading.add, Level.read_concat, hrow]

/-! ## Open braces -/

lemma nest_concat (ts : List Token) (t : Token) : nest (ts ++ [t]) = (nest ts).step t := by
  simp [nest]

lemma openings_add (n : Nesting) (i : Item) :
    (n.add i).levels.map Prod.fst = n.levels.map Prod.fst := by
  match n with
  | ⟨_, []⟩ => simp [add]
  | ⟨_, _ :: _⟩ => simp [add]

lemma openings_nest (ts : List Token) :
    ∀ o ∈ (nest ts).levels.map Prod.fst, o ∈ ts ∧ o.kind = .opening := by
  induction ts using List.reverseRecOn with
  | nil => simp [nest]
  | append_singleton ts t ih =>
      have hih : ∀ o ∈ (nest ts).levels.map Prod.fst, o ∈ ts ++ [t] ∧ o.kind = .opening := by
        intro o ho
        exact ⟨List.mem_append_left [t] (ih o ho).1, (ih o ho).2⟩
      rw [nest_concat]
      intro o ho
      simp only [step] at ho
      split at ho
      next hkind =>
        rcases List.mem_cons.mp ho with rfl | ho
        · exact ⟨by simp, hkind⟩
        · exact hih o ho
      next opening body outer hkind hlevels =>
        rw [openings_add] at ho
        exact hih o (by rw [hlevels]; exact List.mem_cons_of_mem _ ho)
      next =>
        rw [openings_add] at ho
        exact hih o ho

/-! ## Items as they stand in a pattern -/

/-- In every open block the items are neat, so far as they go. -/
structure Tidy (n : Nesting) (ts : List Token) : Prop where
  neat : ∀ level ∈ n.levels, Item.Neat level.2
  /-- If the last item is a literal, it has just been read. -/
  last : ∀ level ∈ n.levels.head?, ∀ i ∈ level.2.getLast?, i.isLiteral →
    ∃ u ∈ ts.getLast?, u.isLiteral

lemma neat_concat {items : List Item} (h : Item.Neat items) (hi : i.Spelled)
    (hapart : ∀ j ∈ items.getLast?, ¬ (j.isLiteral ∧ i.isLiteral)) : Item.Neat (items ++ [i]) := by
  refine ⟨?_, ?_⟩
  · intro j hj
    rcases List.mem_append.mp hj with hj | hj
    · exact h.spelled j hj
    · rw [List.mem_singleton] at hj
      exact hj ▸ hi
  · refine h.apart.append (.singleton i) ?_
    rintro j hj k hk
    cases hk
    exact hapart j hj

lemma tidy_add (hneat : ∀ level ∈ n.levels, Item.Neat level.2) (hi : i.Spelled)
    (hliteral : i.isLiteral → t.isLiteral)
    (hapart : ∀ level ∈ n.levels.head?, ∀ j ∈ level.2.getLast?, ¬ (j.isLiteral ∧ i.isLiteral)) :
    (n.add i).Tidy (ts ++ [t]) := by
  match n, hneat, hapart with
  | ⟨_, []⟩, _, _ => exact ⟨by simp [add], by simp [add]⟩
  | ⟨_, (opening, body) :: outer⟩, hneat, hapart =>
    refine ⟨?_, ?_⟩
    · rintro level hlevel
      rcases List.mem_cons.mp hlevel with rfl | hlevel
      · exact neat_concat (hneat (opening, body) List.mem_cons_self) hi (hapart _ rfl)
      · exact hneat level (List.mem_cons_of_mem _ hlevel)
    · rintro level ⟨⟩ j hj hlit
      refine ⟨t, by simp, hliteral ?_⟩
      have hji : i = j := by simpa using hj
      exact hji ▸ hlit

lemma tidy_step (h : n.Tidy ts) (ht : t.Spelled)
    (hopenings : ∀ o ∈ n.levels.map Prod.fst, o.Spelled ∧ o.kind = .opening)
    (hapart : ∀ u ∈ ts.getLast?, u.Apart t) : (n.step t).Tidy (ts ++ [t]) := by
  simp only [step]
  split
  next hkind =>
    refine ⟨?_, ?_⟩
    · rintro level hlevel
      rcases List.mem_cons.mp hlevel with rfl | hlevel
      · exact ⟨by simp, .nil⟩
      · exact h.neat level hlevel
    · rintro level ⟨⟩ j hj
      simp at hj
  next opening body outer hkind hlevels =>
    have hopening := hopenings opening (by simp [hlevels])
    refine tidy_add ?_ ⟨hopening.1, hopening.2, ht, hkind⟩ ?_ ?_
    · intro k hk
      exact h.neat k (by rw [hlevels]; exact List.mem_cons_of_mem _ hk)
    · intro hlit
      cases hlit
    · rintro k _ j _ ⟨-, hlit⟩
      cases hlit
  next hopening hclosing =>
    by_cases hkind : t.kind = .closing
    · -- nothing is open
      have hlevels : n.levels = [] := by
        cases hlevels : n.levels with
        | nil => rfl
        | cons level outer => exact absurd hlevels (hclosing level.1 level.2 outer hkind)
      obtain ⟨ground, levels⟩ := n
      subst hlevels
      exact ⟨by simp [add], by simp [add]⟩
    · refine tidy_add h.neat ⟨ht, hopening, hkind⟩ id ?_
      rintro level hlevel j hj ⟨hjl, htl⟩
      rcases h.last level hlevel j hj hjl with ⟨u, hu, hul⟩
      exact hapart u hu ⟨hul, htl⟩

/-! ## Step by step -/

lemma take_token {l : Level} (hdelimiter : t.kind ≠ .delimiter) (hrange : t.kind ≠ .range) :
    l.take options (.token t) = l.add [t.shape] := by
  simp only [Level.take]

lemma step_inner (ht : t.Inner) (n : Nesting) : n.step t = n.add (.token t) := by
  rcases ht with hkind | hkind | hkind
  · simp only [step, hkind]
  · simp only [step, hkind]
  · simp only [step, hkind]

/-- Inside quotes and outside, these tokens stand for themselves. -/
lemma reading_step_inner (ht : t.Inner) (n : Nesting) :
    (n.step t).reading options = (n.reading options).add [t.shape] := by
  have hkinds : t.kind ≠ .delimiter ∧ t.kind ≠ .range := by
    rcases ht with hkind | hkind | hkind
    · simp [hkind]
    · simp [hkind]
    · simp [hkind]
  rw [step_inner ht, reading_add_of_row, Item.row_token]
  intro l
  rw [Item.row_token]
  exact take_token hkinds.1 hkinds.2

/-- Punctuation does to the reading of items what it does to the items. -/
lemma reading_step_outer (hneat : ∀ level ∈ n.levels, Item.Neat level.2) (ht : ¬ t.Inner) :
    (n.step t).reading options = (n.reading options).step options t := by
  obtain ⟨ground, levels⟩ := n
  cases hkind : t.kind with
  | literal => exact absurd (Or.inl hkind) ht
  | escape => exact absurd (Or.inr (Or.inl hkind)) ht
  | quote => exact absurd (Or.inr (Or.inr hkind)) ht
  | opening => simp [Reading.step, step, reading, hkind, Level.read]
  | delimiter =>
      cases levels with
      | nil => simp [Reading.step, step, reading, add, hkind, Reading.add, Item.row_token,
          Token.shape]
      | cons level outer => simp [Reading.step, step, reading, add, hkind, Level.read_concat,
          Level.take]
  | range =>
      cases levels with
      | nil => simp [Reading.step, step, reading, add, hkind, Reading.add, Item.row_token,
          Token.shape]
      | cons level outer => simp [Reading.step, step, reading, add, hkind, Level.read_concat,
          Level.take]
  | closing =>
      cases levels with
      | nil => simp [Reading.step, step, reading, add, hkind, Reading.add, Item.row_token,
          Token.shape]
      | cons level outer =>
          obtain ⟨opening, body⟩ := level
          have hclose := Level.close_read options
            (hneat (opening, body) List.mem_cons_self) opening t
          simp only [Reading.step, step, hkind]
          rw [reading_add_of_row fun l => rfl, ← hclose]
          rfl

end Nesting

lemma Reading.shut_step_inner {t : Token} (ht : t.Inner) (r : Reading) :
    (r.step options t).shut = r.shut.add [t.shape] := by
  rcases ht with hkind | hkind | hkind
  · simp only [step, Token.shape, hkind, shut_add]
  · simp only [step, Token.shape, hkind, shut_add]
  · simp only [step, Token.shape, hkind, shut_toggle]

namespace Scanner

variable {s s' : Scanner} {ts : List Token}

/-- **The reading of a pattern is the reading of its items**, and the items are tidy. -/
theorem Reads.reading_eq (options : CompileOptions) (h : s.Reads ts s') (hclosed : s.openQuote = none) :
    (ts.foldl (Reading.step options) {}).shut = (nest ts).reading options ∧
      (ts.foldl (Reading.step options) {}).quote.isSome = s'.openQuote.isSome ∧
      (ts.IsChain Token.Apart → (nest ts).Tidy ts) := by
  induction ts using List.reverseRecOn generalizing s' with
  | nil =>
      cases h
      exact ⟨rfl, by rw [hclosed]; rfl, fun _ => ⟨by simp [nest], by simp [nest]⟩⟩
  | append_singleton ts t ih =>
      have hchain := h.isChain_apart_init
      obtain ⟨s₁, hts, ht⟩ := h.of_append
      obtain ⟨hreading, hquote, htidy⟩ := ih hts
      have hfollows : s₁.Follows t s' := by
        cases ht with
        | cons hnext hnil =>
            cases hnil
            exact follows_of_next hnext
      rw [List.foldl_append, List.foldl_cons, List.foldl_nil, Nesting.nest_concat]
      set r := ts.foldl (Reading.step options) {}
      have hstep := Reading.quote_step options r t
      refine ⟨?_, by rw [hstep, hquote, ← hfollows.quoting], ?_⟩
      · by_cases hinner : t.Inner
        · rw [Reading.shut_step_inner hinner, hreading, Nesting.reading_step_inner hinner]
        · have hnone : r.quote = none := by
            cases hopen : r.quote with
            | none => rfl
            | some quote => exact absurd (hfollows.within (by rw [← hquote, hopen]; rfl)) hinner
          have hnot : t.isQuote = false := by
            cases hq : t.isQuote with
            | false => rfl
            | true => exact absurd (Or.inr (Or.inr (of_decide_eq_true hq))) hinner
          have hafter : (r.step options t).quote = none := by
            rw [hnone, hnot] at hstep
            simpa using hstep
          rw [Reading.shut_of_none hnone] at hreading
          rw [Reading.shut_of_none hafter, hreading,
            Nesting.reading_step_outer (htidy hchain).neat hinner]
      · intro hall
        refine Nesting.tidy_step (htidy hchain) hfollows.spelled ?_ ?_
        · intro o ho
          have hopening := Nesting.openings_nest ts o ho
          exact ⟨hts.spelled o hopening.1, hopening.2⟩
        · intro u hu
          exact (List.isChain_append.mp hall).2.2 u hu t rfl

end Scanner

end BraceExpansion
