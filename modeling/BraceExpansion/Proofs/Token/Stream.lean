import BraceExpansion.Proofs.Token.Step
import Mathlib.Data.List.Chain

/-!
# What the tokens of a pattern look like

`Scanner.Reads s ts s'` says that a scanner hands out the tokens `ts` and is then `s'`.  Everything
a fold over tokens does, it does along such a run (`Reads.foldTokens_eq`), and every pattern has one
up to its end or to the first error (`exists_reads`).

A literal ends only where something else starts (`Scanner.Follows`).  So two literals in a row are the
end of the pattern: the second is a backslash with nothing behind it (`Reads.isChain_apart`).
-/

namespace BraceExpansion

namespace Token

/-- Not two literals. -/
def Apart (t u : Token) : Prop := ¬ (t.isLiteral ∧ u.isLiteral)

def toLiteral (t : Token) : Token := { t with kind := .literal }

/-- The tokens with a quote that opens and is never closed as text. -/
def settleQuotes (inside : Bool) : List Token → List Token
  | [] => []
  | t :: ts =>
    if t.isQuote then
      if !inside && !ts.any isQuote then t.toLiteral :: ts else t :: settleQuotes (!inside) ts
    else t :: settleQuotes inside ts

lemma any_isQuote_eq_false {ts : List Token} (h : ∀ t ∈ ts, t.kind ≠ .quote) :
    ts.any isQuote = false := by
  rw [List.any_eq_false]
  intro t ht hquote
  exact h t ht (of_decide_eq_true hquote)

lemma settleQuotes_of_no_quote {ts : List Token} (h : ∀ t ∈ ts, t.kind ≠ .quote) (inside : Bool) :
    settleQuotes inside ts = ts := by
  induction ts with
  | nil => rfl
  | cons t ts ih =>
      obtain ⟨hfirst, hothers⟩ := List.forall_mem_cons.mp h
      have hnot : t.isQuote = false := decide_eq_false hfirst
      simp [settleQuotes, hnot, ih hothers]

end Token

namespace Scanner

variable {s s' s'' : Scanner} {t : Token} {ts us : List Token}

/-! ## Runs -/

/-- The tokens `ts` stand next, and behind them the scanner is `s'`. -/
inductive Reads : Scanner → List Token → Scanner → Prop
  | nil (s : Scanner) : Reads s [] s
  | cons {s s' s'' : Scanner} {t : Token} {ts : List Token} (hnext : s.next = (.ok (some t), s'))
      (hrest : Reads s' ts s'') : Reads s (t :: ts) s''

namespace Reads

lemma append (h : s.Reads ts s') (h' : s'.Reads us s'') : s.Reads (ts ++ us) s'' := by
  induction h with
  | nil => exact h'
  | cons hnext _ ih => exact .cons hnext (ih h')

lemma of_append (h : s.Reads (ts ++ us) s'') : ∃ s', s.Reads ts s' ∧ s'.Reads us s'' := by
  induction ts generalizing s with
  | nil => exact ⟨s, .nil s, h⟩
  | cons t ts ih =>
      cases h with
      | cons hnext hrest =>
          obtain ⟨s', hts, hus⟩ := ih hrest
          exact ⟨s', .cons hnext hts, hus⟩

/-- The tokens are what has been read. -/
lemma text_eq (h : s.Reads ts s') : s.rest = ts.flatMap Token.text ++ s'.rest := by
  induction h with
  | nil => rfl
  | cons hnext _ ih =>
      obtain ⟨-, hrest⟩ := splits_next _ _ _ hnext
      rw [hrest, ih, List.flatMap_cons, List.append_assoc]

lemma text_ne_nil (h : s.Reads ts s') : ∀ t ∈ ts, t.text ≠ [] := by
  induction h with
  | nil => simp
  | cons hnext _ ih => exact List.forall_mem_cons.mpr ⟨(splits_next _ _ _ hnext).1, ih⟩

/-- No token is empty, so there are no more tokens than bytes. -/
lemma length_le (h : s.Reads ts s') : ts.length + s'.rest.length ≤ s.rest.length := by
  induction h with
  | nil => simp
  | cons hnext _ ih =>
      have hlt := next_shorter hnext
      rw [List.length_cons]
      omega

lemma foldTokens_eq {σ : Type} (h : s.Reads ts s') (f : σ → Token → σ) (acc : σ) :
    s.foldTokens f acc = s'.foldTokens f (ts.foldl f acc) := by
  induction h generalizing acc with
  | nil => rfl
  | cons hnext _ ih =>
      rw [foldTokens]
      split
      next t s₁ heq =>
        rw [hnext] at heq
        cases heq
        exact ih _
      next heq => simp [hnext] at heq
      next heq => simp [hnext] at heq

end Reads

/-- No token stands here: the pattern ends, or cannot be read on. -/
def Ends (s : Scanner) : Prop := ∀ t, (s.next).1 ≠ .ok (some t)

/-- The error that ends a pattern, if one does. -/
def failure? (s : Scanner) : Option PatternError :=
  match s.next with
  | (.error e, _) => some e
  | _ => none

lemma Ends.foldTokens_eq {σ : Type} (h : s.Ends) (f : σ → Token → σ) (acc : σ) :
    s.foldTokens f acc = (acc, s.failure?) := by
  rw [foldTokens, failure?]
  split
  next t s' heq => exact absurd (by rw [heq]) (h t)
  next heq => rw [heq]
  next heq => rw [heq]

theorem exists_reads (s : Scanner) : ∃ ts s', s.Reads ts s' ∧ s'.Ends := by
  induction hn : s.rest.length using Nat.strongRecOn generalizing s with
  | ind n ih =>
      match hnext : s.next with
      | (.ok (some t), s₁) =>
        have hlt := next_shorter hnext
        obtain ⟨ts, s', hreads, hends⟩ := ih _ (hn ▸ hlt) s₁ rfl
        exact ⟨t :: ts, s', .cons hnext hreads, hends⟩
      | (.ok none, s₁) => exact ⟨[], s, .nil s, fun t h => by simp [hnext] at h⟩
      | (.error e, s₁) => exact ⟨[], s, .nil s, fun t h => by simp [hnext] at h⟩

/-- A run and its end are all there is to the tokens of a pattern. -/
lemma Reads.tokens_eq (h : s.Reads ts s') (hends : s'.Ends) :
    s.tokens = match s'.failure? with
      | none => .ok ts.toArray
      | some e => .error e := by
  have hpush : ∀ (acc : Array Token) (ts : List Token), ts.foldl Array.push acc = acc ++ ts := by
    intro acc ts
    induction ts generalizing acc with
    | nil => simp
    | cons t ts ih => rw [List.foldl_cons, ih]; simp
  rw [tokens, h.foldTokens_eq, hends.foldTokens_eq, hpush]
  cases s'.failure? <;> simp

/-! ## What never fails -/

/-- Where something is left there is a token, but for what strict reading rejects. -/
lemma next_of_ne_nil (hrest : s.rest ≠ []) :
    (∃ t s', s.next = (.ok (some t), s')) ∨
      s.options.strict = true ∧ ∃ e s', s.next = (.error e, s') := by
  have hliteral : ∀ special, (∃ t s', s.literal special = (.ok (some t), s')) ∨
      s.options.strict = true ∧ ∃ e s', s.literal special = (.error e, s') := by
    intro special
    rw [literal]
    split
    next hstrict =>
      split
      · exact Or.inr ⟨hstrict, _, _, rfl⟩
      · exact Or.inl ⟨_, _, rfl⟩
    · exact Or.inl ⟨_, _, rfl⟩
  have hescape : (∃ t s', s.escape = (.ok (some t), s')) ∨
      s.options.strict = true ∧ ∃ e s', s.escape = (.error e, s') := by
    rw [escape]
    split
    · split
      next hstrict => exact Or.inr ⟨hstrict, _, _, rfl⟩
      · exact Or.inl ⟨_, _, rfl⟩
    · split
      next hstrict =>
        rw [Bool.and_eq_true] at hstrict
        exact Or.inr ⟨hstrict.1, _, _, rfl⟩
      · exact Or.inl ⟨_, _, rfl⟩
  rw [next]
  split
  next hnil => exact absurd hnil hrest
  next =>
    rw [quoted]
    split
    · exact Or.inl ⟨_, _, rfl⟩
    split
    · exact hescape
    · exact hliteral _
  next =>
    rw [unquoted]
    split
    · exact hescape
    split
    · exact Or.inl ⟨_, _, rfl⟩
    split
    · exact Or.inl ⟨_, _, rfl⟩
    split
    · exact Or.inl ⟨_, _, rfl⟩
    split
    · exact Or.inl ⟨_, _, rfl⟩
    split
    · exact Or.inl ⟨_, _, rfl⟩
    · exact hliteral _

/-- A pattern that is read to its end is read whole. -/
lemma Ends.rest_eq_nil (h : s.Ends) (hnone : s.failure? = none) : s.rest = [] := by
  cases hs : s.rest with
  | nil => rfl
  | cons b rest =>
      rcases next_of_ne_nil (s := s) (by simp [hs]) with ⟨t, s', heq⟩ | ⟨-, e, s', heq⟩
      · exact absurd (by rw [heq]) (h t)
      · simp [failure?, heq] at hnone

/-- At the end of a pattern permissive reading stays. -/
lemma next_end (hpermissive : s.options.strict = false) (hrest : s.rest = []) :
    s.next = (.ok none, s) := by
  simp only [next, hrest, finish, hpermissive]
  split
  · rfl
  · rfl

/-- Only strict reading fails. -/
lemma failure?_eq_none (hstrict : s.options.strict = false) : s.failure? = none := by
  cases hs : s.rest with
  | nil =>
      rw [failure?, next, hs, finish, hstrict]
      cases s.openQuote <;> rfl
  | cons b rest =>
      rcases next_of_ne_nil (s := s) (by simp [hs]) with ⟨t, s', heq⟩ | ⟨hyes, -⟩
      · rw [failure?, heq]
      · rw [hstrict] at hyes
        cases hyes

/-! ## Whole runs -/

namespace Reads

lemma options_eq (h : s.Reads ts s') : s'.options = s.options := by
  induction h with
  | nil => rfl
  | cons hnext _ ih => exact ih.trans (follows_of_next hnext).options_eq

lemma spelled (h : s.Reads ts s') : ∀ t ∈ ts, t.Spelled := by
  induction h with
  | nil => simp
  | cons hnext _ ih =>
      rintro t ht
      rcases List.mem_cons.mp ht with rfl | ht
      · exact (follows_of_next hnext).spelled
      · exact ih t ht

/-- **Escapes and quotes are spelled exactly.** -/
theorem exact (h : s.Reads ts s') (hsound : s.Sound) : ∀ t ∈ ts, t.Exact := by
  induction h with
  | nil => simp
  | cons hnext _ ih =>
      have htakes := takes_of_next hnext
      exact List.forall_mem_cons.mpr ⟨htakes.exact hsound, ih (htakes.sound hsound)⟩

/-- Two literals in a row end the pattern. -/
lemma isChain_apart (h : s.Reads ts s') (hmore : s'.rest ≠ []) : ts.IsChain Token.Apart := by
  induction h with
  | nil => exact .nil
  | cons hnext hrest ih =>
      cases hrest with
      | nil => exact .singleton _
      | cons hnext' hrest' =>
          refine .cons_cons ?_ (ih hmore)
          rintro ⟨hfirst, hsecond⟩
          have hstopped := (follows_of_next hnext).stops hfirst
          have hend := (follows_of_next hnext').resumes hstopped hsecond
          have hle := hrest'.length_le
          rw [hend, List.length_nil] at hle
          exact hmore (List.length_eq_zero_iff.mp (by omega))

/-- So all tokens before another are apart. -/
lemma isChain_apart_init (h : s.Reads (ts ++ [t]) s') : ts.IsChain Token.Apart := by
  obtain ⟨s₁, hts, ht⟩ := h.of_append
  refine hts.isChain_apart ?_
  cases ht with
  | cons hnext _ =>
      obtain ⟨htext, hrest⟩ := splits_next _ _ _ hnext
      simp [hrest, htext]

end Reads

/-! ## Quotes that are never closed -/

lemma Reads.open_of_no_quote (h : s.Reads ts s') (hnone : ts.any Token.isQuote = false) :
    s'.openQuote.isSome = s.openQuote.isSome := by
  induction h with
  | nil => rfl
  | cons hnext _ ih =>
      rw [List.any_cons, Bool.or_eq_false_iff] at hnone
      rw [ih hnone.2, (follows_of_next hnext).quoting, hnone.1, Bool.bne_false]

/-- If all quotes are closed, none of them is text. -/
lemma Reads.settleQuotes_of_closed (h : s.Reads ts s') (hclosed : s'.openQuote.isSome = false) :
    Token.settleQuotes s.openQuote.isSome ts = ts := by
  induction h with
  | nil => rfl
  | @cons s s₁ s' t ts hnext hrest ih =>
      have hquoting := (follows_of_next hnext).quoting
      rw [Token.settleQuotes]
      cases hquote : t.isQuote with
      | false =>
          rw [hquote, Bool.bne_false] at hquoting
          rw [← hquoting, ih hclosed]
          rfl
      | true =>
          rw [hquote, Bool.bne_true] at hquoting
          have hcond : (!s.openQuote.isSome && !ts.any Token.isQuote) = false := by
            rw [Bool.and_eq_false_iff, ← hquoting]
            cases hany : ts.any Token.isQuote with
            | true => exact Or.inr rfl
            | false => exact Or.inl ((hrest.open_of_no_quote hany).symm.trans hclosed)
          rw [hcond, ← hquoting, ih hclosed]
          rfl

/-- If a quote is never closed, it is the last one, and that one is text. -/
lemma Reads.settleQuotes_of_open (h : s.Reads ts s') (hopen : s'.openQuote.isSome = true) :
    (s.openQuote.isSome = true ∧ ts.any Token.isQuote = false) ∨
      ∃ pre q post s₁, ts = pre ++ q :: post ∧ s.Reads pre s₁ ∧ s₁.openQuote.isSome = false ∧
        s₁.Reads (q :: post) s' ∧ q.isQuote = true ∧ post.any Token.isQuote = false ∧
        Token.settleQuotes s.openQuote.isSome ts = pre ++ q.toLiteral :: post := by
  induction h with
  | nil => exact Or.inl ⟨hopen, rfl⟩
  | @cons s s₁ s' t ts hnext hrest ih =>
      have hquoting := (follows_of_next hnext).quoting
      rcases ih hopen with ⟨hopen₁, hnone⟩ | ⟨pre, q, post, s₂, rfl, hpre, hclosed, hpost, hq, hrest'⟩
      · cases hquote : t.isQuote with
        | false =>
            left
            rw [hquote, Bool.bne_false] at hquoting
            exact ⟨hquoting ▸ hopen₁, by simp [hquote, hnone]⟩
        | true =>
            right
            rw [hquote, Bool.bne_true, hopen₁] at hquoting
            have hshut : s.openQuote.isSome = false := by simpa using hquoting
            refine ⟨[], t, ts, s, rfl, .nil s, hshut, .cons hnext hrest, hquote, hnone, ?_⟩
            rw [Token.settleQuotes, hquote, hshut, hnone]
            rfl
      · right
        obtain ⟨hnone, hsettle⟩ := hrest'
        refine ⟨t :: pre, q, post, s₂, rfl, .cons hnext hpre, hclosed, hpost, hq, hnone, ?_⟩
        have hany : (pre ++ q :: post).any Token.isQuote = true := by simp [hq]
        rw [Token.settleQuotes, hany, List.cons_append, ← hsettle, hquoting]
        cases t.isQuote <;> simp

end Scanner

end BraceExpansion
