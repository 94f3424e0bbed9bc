import BraceExpansion.Pattern
import BraceExpansion.Proofs.Expansion
import BraceExpansion.Proofs.Nesting.Choice
import BraceExpansion.Proofs.NormalForm
import BraceExpansion.Proofs.Text.Decimal
import BraceExpansion.Proofs.Text.Parts
import BraceExpansion.Proofs.Token.Grammar

/-!
# Valid text in, valid text out

A scanner stops at bytes, and a compiler cuts and joins texts.  Still no character is torn apart.

**Tokens.**  A literal ends where the pattern does or before an ASCII byte, and an escape ends with a
character, so the tokens of a well-formed pattern are well-formed (`Lexeme.wellFormed`).  What strict
reading hands out is well-formed in any case (`Scanner.Takes.wellFormed`).

**Shapes.**  `Shape.Valid` says this of all leaves of a shape, and that it is still so without the
backslash of an escape.  What is joined from valid shapes is valid (`Shape.kept_valid`), and so are the
expansions (`Shape.wellFormed_expansions`).

**`Compiler.compile_valid`** is about all leaves of a tree and all its expansions: there is nothing to
be replaced when they are shown as strings.
-/

namespace BraceExpansion

variable {options : CompileOptions} {quote : Option UInt8} {kind : TokenKind} {text rest bytes : Bytes}

/-! ## Tokens -/

lemma wellFormed_backslash : Utf8.WellFormed [Ascii.backslash] := Utf8.wellFormed_byte (by decide)

lemma wellFormed_dots : Utf8.WellFormed [Ascii.dot, Ascii.dot] := by
  have hdot : Utf8.WellFormed [Ascii.dot] := Utf8.wellFormed_byte (by decide)
  exact hdot.append hdot

/-- Only ASCII bytes interrupt a literal. -/
lemma ascii_of_interrupted (hquote : ∀ b ∈ quote, Ascii.isQuote b = true)
    (h : Interrupted options quote bytes) : ∀ b ∈ bytes.head?, b.toNat ≤ 0x7F := by
  have hslash : Ascii.backslash.toNat ≤ 0x7F := by decide
  rcases h with rfl | ⟨rfl, -⟩ | ⟨kind, text, rest, rfl, h⟩
  · simp
  · rintro b ⟨⟩
    exact hslash
  · cases h with
    | opening | delimiter | closing | range =>
        rintro b ⟨⟩
        decide
    | opens rest hisQuote henabled =>
        rintro b ⟨⟩
        exact Scanner.toNat_le_of_isQuote hisQuote
    | closes b rest =>
        rintro b ⟨⟩
        exact Scanner.toNat_le_of_isQuote (hquote _ rfl)
    | character | malformed =>
        rintro b ⟨⟩
        exact hslash

/-- **A token of a well-formed pattern is well-formed.** -/
lemma Lexeme.wellFormed (h : Lexeme options quote kind text rest)
    (hquote : ∀ b ∈ quote, Ascii.isQuote b = true) (hwell : Utf8.WellFormed (text ++ rest)) :
    Utf8.WellFormed text := by
  cases h with
  | stands h =>
      cases h with
      | opening | delimiter | closing => exact Utf8.wellFormed_byte (by decide)
      | range => exact wellFormed_dots
      | opens rest hisQuote henabled =>
          exact Utf8.wellFormed_byte (Scanner.toNat_le_of_isQuote hisQuote)
      | closes b rest => exact Utf8.wellFormed_byte (Scanner.toNat_le_of_isQuote (hquote b rfl))
      | character quote c rest henabled =>
          exact wellFormed_backslash.append (Utf8.wellFormed_encodeChar c)
      | @malformed quote b rest henabled hbad =>
          have hsplit : Utf8.WellFormed ([Ascii.backslash] ++ b :: rest) := hwell
          obtain ⟨cs, hcs⟩ := Utf8.wellFormed_iff.mp (hsplit.of_append wellFormed_backslash)
          cases cs with
          | nil => cases hcs
          | cons c cs => exact absurd ⟨_, hcs⟩ (hbad c)
  | backslash henabled => exact wellFormed_backslash
  | run hne hrun hstop => exact hwell.before_ascii (ascii_of_interrupted hquote hstop)

namespace Scanner

variable {s s' : Scanner} {t : Token} {ts : List Token}

/-- **A token that strict reading hands out is well-formed.** -/
lemma Takes.wellFormed (h : s.Takes t s') (hsound : s.Sound) (hstrict : s.options.strict = true) :
    Utf8.WellFormed t.text := by
  have hexact := h.exact hsound
  cases h with
  | escape hrest henabled helement hchar =>
      obtain ⟨c, rfl⟩ := hchar hstrict
      exact wellFormed_backslash.append (Utf8.wellFormed_encodeChar c)
  | backslash => exact wellFormed_backslash
  | opens | closes =>
      obtain ⟨b, hquote, htext⟩ := hexact.2 rfl
      rw [htext]
      exact Utf8.wellFormed_byte (toNat_le_of_isQuote hquote)
  | @punctuation kind text rest hrest hopen hkind hspelled hplain =>
      cases kind with
      | literal => exact absurd rfl hkind.1
      | escape => exact absurd rfl hkind.2.1
      | quote => exact absurd rfl hkind.2.2
      | opening | delimiter | closing =>
          obtain rfl := hspelled
          exact Utf8.wellFormed_byte (by decide)
      | range =>
          obtain rfl := hspelled
          exact wellFormed_dots
  | @literal text rest hrest hne hstart hstop hplain hread =>
      obtain ⟨cs, malformed, rfl, ⟨rfl, -⟩ | ⟨-, -, hbad⟩⟩ := Utf8.malformedAt?_cases text
      · exact Utf8.wellFormed_iff.mpr ⟨cs, (List.append_nil _).symm⟩
      · rw [hread hstrict] at hbad
        cases hbad

/-- **The tokens of a well-formed pattern, and all tokens of strict reading, are well-formed.** -/
theorem Reads.wellFormed (h : s.Reads ts s') (hsound : s.Sound)
    (hinput : Utf8.WellFormed s.rest ∨ s.options.strict = true) :
    ∀ t ∈ ts, Utf8.WellFormed t.text := by
  induction h with
  | nil => simp
  | @cons s s₁ s' t ts hnext hmore ih =>
      have htakes := takes_of_next hnext
      have hoptions : s₁.options = s.options := (follows_of_next hnext).options_eq
      have htext : Utf8.WellFormed t.text := by
        cases hstrict : s.options.strict with
        | true => exact htakes.wellFormed hsound hstrict
        | false =>
            obtain ⟨rest, hrest, hlexeme, -, -⟩ := lexeme_of_next hsound hstrict hnext
            have hwell := hinput.resolve_right (by simp [hstrict])
            refine hlexeme.wellFormed ?_ (hrest ▸ hwell)
            intro b hb
            obtain ⟨q, hq, rfl⟩ := Option.map_eq_some_iff.mp hb
            exact isQuote_of_startsQuote (hsound q.1 q.2 hq)
      refine List.forall_mem_cons.mpr ⟨htext, ih (htakes.sound hsound) ?_⟩
      rw [hoptions]
      refine hinput.imp_left fun hwell => ?_
      rw [(splits_next _ _ _ hnext).2] at hwell
      exact hwell.of_append htext

end Scanner

/-! ## Values of ranges -/

lemma Decimal.Spells.ascii {n : Nat} (h : Decimal.Spells text n) : ∀ b ∈ text, b.toNat ≤ 0x7F := by
  intro b hb
  have hdigit := Ascii.isDigit_iff.mp (h.isDigit b hb)
  omega

/-- A value of a range is digits and a sign, or one character. -/
lemma RangeKind.wellFormed_text (kind : RangeKind) (width : Nat) (value : Int) :
    Utf8.WellFormed (kind.text width value) := by
  have hpadded : ∀ m n : Nat, ∀ b ∈ List.replicate m Ascii.zero ++ Decimal.digits n,
      b.toNat ≤ 0x7F :=
    fun m n => ((Decimal.digits_spells n).zeros m).ascii
  cases kind with
  | char => exact Utf8.wellFormed_encodeChar _
  | integer =>
      rw [RangeKind.text]
      refine Utf8.wellFormed_ascii ?_
      split
      · exact List.forall_mem_cons.mpr ⟨by decide, hpadded _ _⟩
      · exact hpadded _ _

/-! ## Shapes -/

namespace Shape

variable {row : List Shape} {s : Shape}

/-- All leaves are well-formed, escapes also without their backslash. -/
def Valid : Shape → Prop
  | .leaf kind value => Utf8.WellFormed value ∧ (kind = .escape → Utf8.WellFormed (value.drop 1))
  | .range _ _ => True
  | .list _ children => ∀ c ∈ children, Valid c

lemma valid_text {t : Bytes} : (Shape.text t).Valid ↔ Utf8.WellFormed t := by
  rw [Valid]
  simp

lemma valid_gathered (kind : ListKind) (h : ∀ s ∈ row, s.Valid) : (gathered kind row).Valid := by
  rw [gathered, Valid]
  intro u hu
  obtain ⟨s, hs, hu⟩ := List.mem_flatMap.mp hu
  have hvalid := h s (List.mem_reverse.mp hs)
  rcases splice_cases kind s with ⟨children, rfl, hsplice⟩ | ⟨-, hsplice⟩
  · rw [Valid] at hvalid
    exact hvalid u (hsplice ▸ hu)
  · rw [hsplice, List.mem_singleton] at hu
    rwa [hu]

/-- **Valid shapes are joined into valid shapes.** -/
lemma kept_valid : Kept Valid Valid where
  joined row h := by
    have hfused := forall_fuse (R := Valid) (fun t u ht hu =>
      valid_text.mpr ((valid_text.mp ht).append (valid_text.mp hu))) h
    match fuse row, hfused with
    | [], _ =>
      rw [joined, Valid]
      exact ⟨Utf8.wellFormed_nil, by simp⟩
    | [s], h => exact h s List.mem_cons_self
    | s :: t :: rest, h => exact valid_gathered .concat h
  choice _ _ h := valid_gathered _ h
  range _ _ _ _ _ _ _ := by
    rw [Valid]
    trivial

/-! ### Their expansions -/

lemma wellFormed_shown {kind : LeafKind} {value : Bytes} (h : (leaf kind value).Valid)
    (expand : ExpandOptions) : Utf8.WellFormed (expand.shown kind value) := by
  rw [Valid] at h
  cases kind with
  | empty | literal => exact h.1
  | escape =>
      rw [ExpandOptions.shown]
      split
      · exact h.1
      · exact h.2 rfl
  | quote =>
      rw [ExpandOptions.shown]
      split
      · exact h.1
      · exact Utf8.wellFormed_nil

lemma wellFormed_product {factors : List Expansions}
    (h : ∀ xs ∈ factors, ∀ x ∈ xs, Utf8.WellFormed x) :
    ∀ x ∈ Expansions.product factors, Utf8.WellFormed x := by
  induction factors with
  | nil =>
      intro x hx
      rw [Expansions.product_nil, List.mem_singleton] at hx
      rw [hx]
      exact Utf8.wellFormed_nil
  | cons xs factors ih =>
      obtain ⟨hxs, hfactors⟩ := List.forall_mem_cons.mp h
      intro x hx
      rw [Expansions.product_cons, Expansions.cross, List.mem_flatMap] at hx
      obtain ⟨y, hy, hx⟩ := hx
      obtain ⟨z, hz, rfl⟩ := List.mem_map.mp hx
      exact (hxs y hy).append (ih hfactors z hz)

/-- **The expansions of a valid shape are well-formed.** -/
theorem wellFormed_expansions (h : s.Valid) (expand : ExpandOptions) :
    ∀ x ∈ s.expansions expand, Utf8.WellFormed x := by
  induction s with
  | leaf kind value =>
      intro x hx
      rw [expansions, List.mem_singleton] at hx
      rw [hx]
      exact wellFormed_shown h expand
  | range kind p =>
      intro x hx
      rw [expansions] at hx
      obtain ⟨v, -, rfl⟩ := List.mem_map.mp hx
      exact kind.wellFormed_text p.width v
  | list kind children ih =>
      rw [Valid] at h
      cases kind with
      | alternate =>
          intro x hx
          rw [expansions] at hx
          obtain ⟨c, hc, hx⟩ := List.mem_flatMap.mp hx
          exact ih c hc (h c hc) x hx
      | concat =>
          rw [expansions]
          refine wellFormed_product ?_
          intro xs hxs
          obtain ⟨c, hc, rfl⟩ := List.mem_map.mp hxs
          exact ih c hc (h c hc)

end Shape

/-! ## Whole patterns -/

/-- What tokens add to rows is valid. -/
lemma Token.yields_valid {t : Token} (htext : Utf8.WellFormed t.text) (hspelled : t.Spelled) :
    t.Yields Shape.Valid where
  text := Shape.valid_text.mpr htext
  escape hkind := by
    rw [Shape.Valid]
    refine ⟨htext, fun _ => ?_⟩
    rw [Spelled, hkind] at hspelled
    obtain ⟨element, helement⟩ := List.head?_eq_some_iff.mp hspelled
    rw [helement] at htext ⊢
    exact htext.of_append wellFormed_backslash
  quote hkind := by
    rw [Shape.Valid]
    exact ⟨htext, by simp⟩

/-- Well-formed texts are the bytes of strings. -/
lemma Utf8.exists_texts {xs : Expansions} (h : ∀ x ∈ xs, Utf8.WellFormed x) :
    ∃ texts : List String, texts.map Utf8.encode = xs := by
  induction xs with
  | nil => exact ⟨[], rfl⟩
  | cons x xs ih =>
      obtain ⟨⟨text, rfl⟩, hxs⟩ := List.forall_mem_cons.mp h
      obtain ⟨texts, rfl⟩ := ih hxs
      exact ⟨text :: texts, rfl⟩

/-- **Valid text in, valid text out.**  All leaves of a tree made from a well-formed pattern, or by strict
reading, are well-formed, and a walk hands out the bytes of strings.  To show these as strings nothing
is replaced. -/
theorem Compiler.compile_valid {c : Compiler} {pattern : Bytes} {tree : Tree}
    (h : (c.compile pattern).1 = .ok tree)
    (hinput : Utf8.WellFormed pattern ∨ c.options.strict = true) :
    (∀ id < tree.size, ∀ kind value, tree.node id = .leaf kind value → Utf8.WellFormed value) ∧
    ∀ expand : ExpandOptions, ∃ texts : List String,
      (∀ {σ : Type} (emit : σ → Buffer → σ) (acc : σ) (buffer : Buffer),
        (tree.walk expand emit acc buffer).1
          = texts.foldl (fun acc text => emit acc (Utf8.encode text).toArray) acc) ∧
      (∀ x ∈ tree.expansions expand, Utf8.WellFormed x ∧ Utf8.encode (Utf8.lossy x) = x) ∧
      (∀ (source : String) {σ : Type} (emit : σ → String → σ) (acc : σ) (buffer : Buffer),
        ((Pattern.mk source tree expand).walk emit acc buffer).1 = texts.foldl emit acc) ∧
      ∀ data, Tree.expandOnto data tree expand = data ++ texts.toArray := by
  rcases finish_of_compile h with ⟨s, ts, s₁, hs, hreads, -, htokens, rfl, hshows⟩
  rcases compile_ok h with ⟨s', us, -, hs', -, -, htokens', -, hshape, hwalk⟩
  -- both are the one run over the pattern
  obtain rfl : s = s' := Except.ok.inj (hs.symm.trans hs')
  obtain rfl : ts = us := congrArg Array.toList (Except.ok.inj (htokens.symm.trans htokens'))
  have hsound : s.Sound := by
    rw [ofPattern_eq hs]
    nofun
  have htexts : ∀ t ∈ ts, Utf8.WellFormed t.text := by
    refine hreads.wellFormed hsound ?_
    rw [ofPattern_eq hs]
    exact hinput
  have hvalid := Reading.every_joined Shape.kept_valid c.options
    (fun t ht => Token.yields_valid (htexts t ht) (hreads.spelled t ht)) (Or.inl fun _ hu => hu)
  refine ⟨?_, ?_⟩
  · intro id hid kind value hnode
    have hleaf := hshows.forall_shape (P := Shape.Valid) (fun kind shapes hlist => by
      rwa [Shape.Valid] at hlist) hvalid id hid
    rw [Forest.shape_leaf hnode, Shape.Valid] at hleaf
    exact hleaf.1
  · intro expand
    obtain ⟨texts, hall⟩ := Utf8.exists_texts (Shape.wellFormed_expansions (hshape ▸ hvalid) expand)
    have hemitted : ∀ {σ : Type} (emit : σ → Buffer → σ) (acc : σ) (buffer : Buffer),
        ((ts.foldl step c.start).finish.1.walk expand emit acc buffer).1
          = texts.foldl (fun acc text => emit acc (Utf8.encode text).toArray) acc := by
      intro σ emit acc buffer
      rw [hwalk, ← hall, List.foldl_map]
    have hshown : ∀ {σ : Type} (emit : σ → String → σ) (acc : σ) (buffer : Buffer),
        ((ts.foldl step c.start).finish.1.walk expand
          (fun acc x => emit acc (Utf8.lossy x.toList)) acc buffer).1 = texts.foldl emit acc := by
      intro σ emit acc buffer
      rw [hemitted]
      simp only [Utf8.lossy_encode]
    refine ⟨texts, hemitted, ?_, fun _ => hshown, ?_⟩
    · intro x hx
      rw [Tree.expansions, hemitted, List.foldl_push_eq_append] at hx
      obtain ⟨text, -, rfl⟩ : ∃ text ∈ texts, Utf8.encode text = x := by simpa using hx
      exact ⟨Utf8.wellFormed_encode text, Utf8.encode_lossy (Utf8.wellFormed_encode text)⟩
    · intro data
      rw [Tree.expandOnto, hshown Array.push, List.foldl_push_eq_append']

/-- `{é,\"}`: a character of two bytes and an escape. -/
theorem Compiler.compile_valid_alternation :
    let c := Compiler.new {}
    let pattern : Bytes := [0x7B, 0xC3, 0xA9, 0x2C, 0x5C, 0x22, 0x7D]
    ∃ tree, (c.compile pattern).1 = .ok tree ∧ Utf8.WellFormed pattern ∧
      (∀ id < tree.size, ∀ kind value, tree.node id = .leaf kind value → Utf8.WellFormed value) ∧
      tree.expand {} = #["é", "\""] := by
  intro c pattern
  have hlength : pattern.length ≤ maxPatternLength := by decide
  have hpattern : Utf8.WellFormed pattern := ⟨"\x7bé,\\\"\x7d", rfl⟩
  rcases compile_total (c := c) rfl hlength with ⟨tree, htree⟩
  obtain ⟨hleaves, hwalks⟩ := compile_valid htree (Or.inl hpattern)
  obtain ⟨texts, hemitted, -, -, hexpand⟩ := hwalks {}
  refine ⟨tree, htree, hpattern, hleaves, ?_⟩
  let tokens : List Token := [⟨.opening, 0, [0x7B]⟩, ⟨.literal, 1, [0xC3, 0xA9]⟩,
    ⟨.delimiter, 3, [0x2C]⟩, ⟨.escape, 4, [0x5C, 0x22]⟩, ⟨.closing, 6, [0x7D]⟩]
  have hreads : Scanner.Reads ⟨{}, pattern, 0, none⟩ tokens ⟨{}, [], 7, none⟩ :=
    .cons rfl <| .cons rfl <| .cons rfl <| .cons rfl <| .cons rfl <| .nil _
  have hexpansions := expansionsOf_of_reads hreads (fun t ht => by cases ht) rfl hlength {}
  have hmeaning : meaning {} {} tokens = [[0xC3, 0xA9], [0x22]] := by
    rw [meaning_of_paired rfl rfl]
    simp [tokens, nest, Nesting.step, Nesting.add, Item.meaning_block, Item.meaning_token,
      Item.alternatives, Item.isComma, List.splitOnP_cons_eq_if_modifyHead, Token.shown,
      ExpandOptions.shown, Expansions.cross]
  have hbytes : texts.map Utf8.encode = [[0xC3, 0xA9], [0x22]] := by
    have hcompile : BraceExpansion.compile {} pattern = .ok tree := htree
    rw [expansionsOf, hcompile, hmeaning, Except.map, Tree.expansions, hemitted,
      List.foldl_push_eq_append] at hexpansions
    simpa using Except.ok.inj hexpansions
  have htexts : texts = ["é", "\""] := by
    have hencoded : texts.map Utf8.encode = ["é", "\""].map Utf8.encode := hbytes
    simpa [Function.comp_def, Utf8.lossy_encode] using congrArg (List.map Utf8.lossy) hencoded
  rw [Tree.expand, hexpand, htexts]
  rfl

end BraceExpansion
