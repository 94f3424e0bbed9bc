import BraceExpansion.Proofs.Nesting.Run

/-!
# Whole patterns

At the end of a pattern a reading may have blocks open, and a quote.  All of it becomes text, so that
of an open brace or quote only its own text is left, and what stands behind is as if it were not
there.  `Scanner.Reads.row_eq` says this of rows, for the quote, and **`Scanner.Reads.total_row`** of
every measure that does not tell sequences apart: it takes the same value at the row of the reading and
at the items of the pattern.
-/

namespace BraceExpansion

variable {options : CompileOptions} {M : Type} {op : M → M → M} {one : M} {f : Shape → M}

namespace Sequential

lemma total_flatMap_congr (hseq : Sequential op one f) {α : Type} {l : List α}
    {g h : α → List Shape} (hgh : ∀ a ∈ l, total op one f (g a) = total op one f (h a)) :
    total op one f (l.flatMap g) = total op one f (l.flatMap h) := by
  induction l with
  | nil => rfl
  | cons a l ih =>
      rw [List.flatMap_cons, List.flatMap_cons, hseq.total_append, hseq.total_append,
        hgh a List.mem_cons_self, ih fun b hb => hgh b (List.mem_cons_of_mem _ hb)]

/-- An open block counts as its brace and its items. -/
lemma total_read (hseq : Sequential op one f) {opening : Token} (hkind : opening.kind = .opening)
    (items : List Item) :
    total op one f (Level.read options opening.text items).row
      = total op one f ((Item.token opening :: items).flatMap (Item.row options)) := by
  have halternatives : ∀ finished : List (List Shape × Bytes),
      total op one f (finished.flatMap fun a => [Shape.joined (fuse a.1), .text a.2])
        = total op one f (finished.flatMap fun a => a.1 ++ [.text a.2]) := by
    intro finished
    refine hseq.total_flatMap_congr ?_
    intro a _
    rw [hseq.total_append, ← hseq.joined_fuse a.1, total_cons]
  have hopening : opening.shape = .text opening.text := by simp only [Token.shape, hkind]
  calc total op one f (Level.read options opening.text items).row
      = op (f (.text opening.text)) (total op one f (items.flatMap (Item.row options))) := by
        rw [Level.row, Level.opening_read, List.cons_append, total_cons, hseq.total_append,
          halternatives, ← hseq.total_append, Level.whole_read]
    _ = total op one f ((Item.token opening :: items).flatMap (Item.row options)) := by
        rw [List.flatMap_cons, Item.row_token, hopening, List.singleton_append, total_cons]

end Sequential

namespace Nesting

variable {n : Nesting}

lemma items_add (n : Nesting) (i : Item) : (n.add i).items = n.items ++ [i] := by
  match n with
  | ⟨_, []⟩ => simp [add, items]
  | ⟨_, (opening, body) :: outer⟩ => simp [add, items]

lemma items_append_inner {pre ts : List Token} (hinner : ∀ t ∈ ts, t.Inner) :
    (nest (pre ++ ts)).items = (nest pre).items ++ ts.map .token := by
  induction ts using List.reverseRecOn with
  | nil => simp
  | append_singleton ts t ih =>
      have hstep := step_inner (hinner t (by simp)) (nest (pre ++ ts))
      rw [← List.append_assoc, nest_concat, hstep, items_add,
        ih fun u hu => hinner u (List.mem_append_left _ hu)]
      simp

lemma total_items (hseq : Sequential op one f)
    (hopenings : ∀ o ∈ n.levels.map Prod.fst, o.kind = .opening) :
    total op one f (n.reading options).row = total op one f (n.items.flatMap (Item.row options)) := by
  have hlevels : total op one f ((n.reading options).levels.reverse.flatMap Level.row)
      = total op one f (n.levels.reverse.flatMap fun level =>
          (Item.token level.1 :: level.2).flatMap (Item.row options)) := by
    simp only [reading, ← List.map_reverse, List.flatMap_map]
    refine hseq.total_flatMap_congr ?_
    intro level hlevel
    refine hseq.total_read (hopenings level.1 ?_) level.2
    exact List.mem_map_of_mem (List.mem_reverse.mp hlevel)
  rw [items, List.flatMap_append, List.flatMap_assoc, hseq.total_append, ← hlevels,
    ← hseq.total_append, Reading.row]
  simp [reading]

end Nesting

/-! ## Text at the end -/

/-- What is added where nothing is quoted stands at the end of the row. -/
lemma Reading.row_add {r : Reading} (h : r.quote = none) (more : List Shape) :
    (r.add more).row = r.row ++ more := by
  match r, h with
  | ⟨_, [], none⟩, _ => simp [add, row]
  | ⟨_, _ :: _, none⟩, _ => simp [add, row, Level.add, Level.row, Level.segment]

lemma Nesting.row_append_inner {pre ts : List Token} (hinner : ∀ t ∈ ts, t.Inner) :
    ((nest (pre ++ ts)).reading options).row
      = ((nest pre).reading options).row ++ ts.map Token.shape := by
  induction ts using List.reverseRecOn with
  | nil => simp
  | append_singleton ts t ih =>
      rw [← List.append_assoc, nest_concat, reading_step_inner (hinner t (by simp)),
        Reading.row_add rfl, ih fun u hu => hinner u (List.mem_append_left _ hu)]
      simp

namespace Scanner

variable {s s' : Scanner} {ts : List Token}

/-- Behind a quote that is never closed there is nothing but text, escapes and literals. -/
lemma Reads.inner_of_open (h : s.Reads ts s') (hopen : s.openQuote.isSome = true)
    (hnone : ts.any Token.isQuote = false) : ∀ t ∈ ts, t.Inner := by
  induction h with
  | nil => simp
  | cons hnext _ ih =>
      rw [List.any_cons, Bool.or_eq_false_iff] at hnone
      have hfollows := follows_of_next hnext
      have hquoting := hfollows.quoting
      rw [hnone.1, Bool.bne_false, hopen] at hquoting
      intro t ht
      rcases List.mem_cons.mp ht with rfl | ht
      · exact hfollows.within hopen
      · exact ih hquoting hnone.2 t ht

lemma foldl_step_within {ts : List Token} (hinner : ∀ t ∈ ts, t.Inner)
    (hnone : ts.any Token.isQuote = false) (ground : List Shape) (levels : List Level)
    (text : Bytes) (inside : List Shape) :
    ts.foldl (Reading.step options) ⟨ground, levels, some (text, inside)⟩
      = ⟨ground, levels, some (text, inside ++ ts.map Token.shape)⟩ := by
  induction ts generalizing inside with
  | nil => simp
  | cons t ts ih =>
      rw [List.any_cons, Bool.or_eq_false_iff] at hnone
      have hstep : Reading.step options ⟨ground, levels, some (text, inside)⟩ t
          = ⟨ground, levels, some (text, inside ++ [t.shape])⟩ := by
        rcases hinner t List.mem_cons_self with hkind | hkind | hkind
        · simp only [Reading.step, Token.shape, hkind, Reading.add]
        · simp only [Reading.step, Token.shape, hkind, Reading.add]
        · simp [Token.isQuote, hkind] at hnone
      rw [List.foldl_cons, hstep, ih (fun u hu => hinner u (List.mem_cons_of_mem _ hu)) hnone.2]
      simp

/-- At the end all quotes are closed, or a last one is open and only text and escapes follow it. -/
lemma Reads.ending_cases (h : s.Reads ts s') (hclosed : s.openQuote = none) :
    (s'.openQuote.isSome = false ∧ Token.settleQuotes false ts = ts) ∨
      ∃ pre q post s₁, ts = pre ++ q :: post ∧ s.Reads pre s₁ ∧ s₁.openQuote.isSome = false ∧
        q.kind = .quote ∧ (∀ t ∈ post, t.Inner) ∧ post.any Token.isQuote = false ∧
        Token.settleQuotes false ts = pre ++ q.toLiteral :: post := by
  have hstart : s.openQuote.isSome = false := by rw [hclosed]; rfl
  cases hend : s'.openQuote.isSome with
  | false =>
      left
      have hsettle := h.settleQuotes_of_closed hend
      rw [hstart] at hsettle
      exact ⟨rfl, hsettle⟩
  | true =>
      right
      rcases h.settleQuotes_of_open hend with ⟨hopen, -⟩ | ⟨pre, q, post, s₁, rfl, hpre, hpreClosed,
        hpost, hq, hnone, hsettle⟩
      · rw [hstart] at hopen
        cases hopen
      · rw [hstart] at hsettle
        refine ⟨pre, q, post, s₁, rfl, hpre, hpreClosed, of_decide_eq_true hq, ?_, hnone, hsettle⟩
        cases hpost with
        | cons hnext hrest =>
            refine hrest.inner_of_open ?_ hnone
            rw [(follows_of_next hnext).quoting, hpreClosed, hq]
            rfl

/-- **The row of a pattern is that of its items**, where an open quote is text. -/
theorem Reads.row_eq (options : CompileOptions) (h : s.Reads ts s') (hclosed : s.openQuote = none) :
    (ts.foldl (Reading.step options) {}).row
      = ((nest (Token.settleQuotes false ts)).reading options).row := by
  have hshut : ∀ {ts : List Token} {s' : Scanner}, s.Reads ts s' → s'.openQuote.isSome = false →
      ts.foldl (Reading.step options) {} = (nest ts).reading options := by
    intro ts s' h hend
    obtain ⟨hreading, hquote, -⟩ := h.reading_eq options hclosed
    have hnone := Option.isNone_iff_eq_none.mp (by simpa using hquote.trans hend)
    rw [← hreading, Reading.shut_of_none hnone]
  rcases h.ending_cases hclosed with ⟨hend, hsettle⟩ | ⟨pre, q, post, s₁, rfl, hpre, hpreClosed,
    hquote, hinner, hnone, hsettle⟩
  · rw [hsettle, hshut h hend]
  · have hstep : Reading.step options ((nest pre).reading options) q
        = ⟨((nest pre).reading options).ground, ((nest pre).reading options).levels,
            some (q.text, [])⟩ := by
      simp only [Reading.step, hquote, Reading.toggle, Nesting.reading]
    have hinnerLiteral : ∀ t ∈ q.toLiteral :: post, t.Inner :=
      List.forall_mem_cons.mpr ⟨Or.inl rfl, hinner⟩
    have htext : q.toLiteral.shape = .text q.text := rfl
    rw [hsettle, Nesting.row_append_inner hinnerLiteral, List.map_cons, htext, List.foldl_append,
      hshut hpre hpreClosed, List.foldl_cons, hstep, foldl_step_within hinner hnone]
    simp [Reading.row, Nesting.reading]

/-- **A pattern is measured by its items.** -/
theorem Reads.total_row (hseq : Sequential op one f) (h : s.Reads ts s')
    (hclosed : s.openQuote = none) :
    total op one f (ts.foldl (Reading.step options) {}).row
      = total op one f ((nest (Token.settleQuotes false ts)).items.flatMap (Item.row options)) := by
  rw [h.row_eq options hclosed]
  exact Nesting.total_items hseq fun o ho => (Nesting.openings_nest _ o ho).2

/-- What does not tell a quote from text does not notice that one is never closed. -/
lemma Reads.items_settleQuotes {α : Type} {g : Item → α} (h : s.Reads ts s')
    (hclosed : s.openQuote = none) (hblind : ∀ t, g (.token (Token.toLiteral t)) = g (.token t)) :
    (nest (Token.settleQuotes false ts)).items.map g = (nest ts).items.map g := by
  rcases h.ending_cases hclosed with ⟨-, hsettle⟩ | ⟨pre, q, post, -, rfl, -, -, hquote, hinner, -,
    hsettle⟩
  · rw [hsettle]
  · have hboth : ∀ t : Token, t.Inner → ∀ u ∈ t :: post, u.Inner := by
      intro t ht u hu
      rcases List.mem_cons.mp hu with rfl | hu
      · exact ht
      · exact hinner u hu
    rw [hsettle, Nesting.items_append_inner (hboth q.toLiteral (Or.inl rfl)),
      Nesting.items_append_inner (hboth q (Or.inr (Or.inr hquote)))]
    simp [hblind]

end Scanner

end BraceExpansion
