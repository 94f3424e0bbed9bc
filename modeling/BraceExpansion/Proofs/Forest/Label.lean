import BraceExpansion.Proofs.Forest.Outline
import BraceExpansion.Proofs.Progression.Width
import BraceExpansion.Proofs.Text.Parts
import BraceExpansion.Proofs.Text.Quoted

/-!
# What labels tell

A label is the name of a kind, and behind a blank the text or the bounds of a node.  It is never more
than one line (`Shape.flat_outline`).

**Kinds.**  No name has a blank in it, so a label tells the kind of a node and its caption
(`Node.label_inj`).

**Texts.**  The caption of a leaf tells its text if that is well-formed and there is one
(`Node.value_of_caption`).

**Ranges.**  A label does not tell how many columns values are filled up to.  It tells all values as they
are written, if the range is one that two texts bound and its characters are letters:
**`RangeKind.Found.texts_eq_of_label`**.
-/

namespace BraceExpansion

/-! ## Names and captions -/

lemma Kind.name_inj {k k' : Kind} (h : k.name = k'.name) : k = k' := by
  cases k <;> cases k' <;> first | rfl | simp [name] at h

/-- No name has a blank or a line feed in it. -/
lemma Kind.mem_name {k : Kind} : ' ' ∉ k.name.toList ∧ '\n' ∉ k.name.toList := by
  cases k <;> decide

/-! ### Kinds of nodes -/

lemma LeafKind.kind_inj {k k' : LeafKind} (h : k.kind = k'.kind) : k = k' := by
  cases k <;> cases k' <;> first | rfl | cases h

lemma RangeKind.kind_inj {k k' : RangeKind} (h : k.kind = k'.kind) : k = k' := by
  cases k <;> cases k' <;> first | rfl | cases h

lemma ListKind.kind_inj {k k' : ListKind} (h : k.kind = k'.kind) : k = k' := by
  cases k <;> cases k' <;> first | rfl | cases h

lemma LeafKind.kind_ne_range (k : LeafKind) (k' : RangeKind) : k.kind ≠ k'.kind := by
  cases k <;> cases k' <;> decide

lemma LeafKind.kind_ne_list (k : LeafKind) (k' : ListKind) : k.kind ≠ k'.kind := by
  cases k <;> cases k' <;> decide

lemma RangeKind.kind_ne_list (k : RangeKind) (k' : ListKind) : k.kind ≠ k'.kind := by
  cases k <;> cases k' <;> decide

/-! ### Captions -/

namespace Node

variable {n m : Node} {kind : LeafKind} {value value' : Bytes}

/-- What a label says behind the name of a kind. -/
def caption : Node → String
  | .leaf .empty _ => ""
  | .leaf _ value => " " ++ Quoted.text (Utf8.lossy value)
  | .range kind p =>
    " " ++ kind.boundLabel p.width p.start ++ ".." ++ kind.boundLabel p.width p.last ++ p.stepLabel
  | .list _ _ => ""

lemma label_eq (n : Node) : n.label = n.kind.name ++ n.caption := by
  cases n with
  | leaf kind value => cases kind <;> rfl
  | range kind p => rfl
  | list kind children => rfl

lemma head?_caption (n : Node) : ∀ c ∈ n.caption.toList.head?, c = ' ' := by
  cases n with
  | leaf kind value => cases kind <;> simp [caption]
  | range kind p => simp [caption]
  | list kind children => simp [caption]

/-- **A label tells the kind and the caption.** -/
lemma label_inj (h : n.label = m.label) : n.kind = m.kind ∧ n.caption = m.caption := by
  have hname : ∀ k : Kind, ∀ c ∈ k.name.toList, (c != ' ') = true := fun k c hc =>
    bne_iff_ne.mpr fun heq => Kind.mem_name.1 (heq ▸ hc)
  have hcaption : ∀ n : Node, ∀ c ∈ n.caption.toList.head?, (c != ' ') = false := fun n c hc => by
    simpa using n.head?_caption c hc
  rw [label_eq, label_eq, ← String.toList_inj, String.toList_append, String.toList_append] at h
  obtain ⟨hkind, hrest⟩ := append_inj_of_stop (hname _) (hname _) (hcaption n) (hcaption m) h
  exact ⟨Kind.name_inj (String.toList_inj.mp hkind), String.toList_inj.mp hrest⟩

/-- **A caption tells the text of a leaf.** -/
lemma value_of_caption (hkind : kind ≠ .empty) (hvalue : Utf8.WellFormed value)
    (hvalue' : Utf8.WellFormed value')
    (h : (leaf kind value).caption = (leaf kind value').caption) : value = value' := by
  have hquoted : " " ++ Quoted.text (Utf8.lossy value) = " " ++ Quoted.text (Utf8.lossy value') := by
    cases kind with
    | empty => exact absurd rfl hkind
    | literal | escape | quote => exact h
  have htext : Quoted.text (Utf8.lossy value) = Quoted.text (Utf8.lossy value') := by
    simpa [← String.toList_inj] using hquoted
  rw [← Utf8.encode_lossy hvalue, Quoted.text_inj htext, Utf8.encode_lossy hvalue']

end Node

/-! ## Bounds -/

/-- What is shown of a well-formed text is in it. -/
lemma Utf8.mem_of_mem_lossy {bytes : Bytes} {b : UInt8} {c : Char} (h : WellFormed bytes)
    (hc : c ∈ (lossy bytes).toList) (hb : b ∈ String.utf8EncodeChar c) : b ∈ bytes := by
  rw [← encode_lossy h, encode_eq]
  exact List.mem_flatMap.mpr ⟨c, hc, hb⟩

namespace Decimal

variable {value value' : Int64} {width width' : Nat}

lemma mem_padded {b : UInt8} (h : b ∈ padded value width) :
    b = Ascii.minus ∨ Ascii.isDigit b = true := by
  rw [padded_eq] at h
  rcases List.mem_append.mp h with hsign | hdigits
  · rw [sign] at hsign
    split at hsign
    · exact Or.inl (List.mem_singleton.mp hsign)
    · cases hsign
  · exact Or.inr (((digits_spells _).zeros _).isDigit b hdigits)

lemma wellFormed_padded (value : Int64) (width : Nat) : Utf8.WellFormed (padded value width) := by
  refine Utf8.wellFormed_ascii ?_
  intro b hb
  rcases mem_padded hb with rfl | hdigit
  · decide
  · have hbounds := Ascii.isDigit_iff.mp hdigit
    omega

/-- Neither a dot nor a line feed is written in a number. -/
lemma mem_lossy_padded {c : Char} (h : c ∈ (Utf8.lossy (padded value width)).toList) :
    c ≠ '.' ∧ c ≠ '\n' := by
  have hnot : ∀ b ∈ String.utf8EncodeChar c, b = Ascii.minus ∨ Ascii.isDigit b = true := fun b hb =>
    mem_padded (Utf8.mem_of_mem_lossy (wellFormed_padded value width) h hb)
  refine ⟨?_, ?_⟩
  · rintro rfl
    exact absurd (hnot Ascii.dot (by decide)) (by decide)
  · rintro rfl
    exact absurd (hnot Ascii.lineFeed (by decide)) (by decide)

/-- A number as it is written is told from what is shown of it, up to a dot or the end. -/
lemma padded_of_boundLabel {text text' : List Char} (htext : ∀ c ∈ text.head?, c = '.')
    (htext' : ∀ c ∈ text'.head?, c = '.')
    (h : (RangeKind.integer.boundLabel width value).toList ++ text
      = (RangeKind.integer.boundLabel width' value').toList ++ text') :
    padded value width = padded value' width' ∧ text = text' := by
  have hstop : ∀ {text : List Char}, (∀ c ∈ text.head?, c = '.') →
      ∀ c ∈ text.head?, (c != '.') = false := fun htext c hc => by simpa using htext c hc
  obtain ⟨hshown, hrest⟩ := append_inj_of_stop (p := (· != '.'))
    (fun c hc => bne_iff_ne.mpr (mem_lossy_padded hc).1)
    (fun c hc => bne_iff_ne.mpr (mem_lossy_padded hc).1) (hstop htext) (hstop htext') h
  refine ⟨?_, hrest⟩
  rw [← Utf8.encode_lossy (wellFormed_padded value width), String.toList_inj.mp hshown,
    Utf8.encode_lossy (wellFormed_padded value' width')]

end Decimal

namespace Progression

variable {options : CompileOptions} {first last : Bytes} {step v v' : Int64} {p q : Progression}

/-- The values of a range of letters are in ASCII. -/
lemma ascii_of_ofTexts? (hany : options.anyCharRange = false)
    (h : ofTexts? options first last step = some (.char, p)) :
    p.width = 0 ∧ ∀ v ∈ p.values, 0 ≤ v.toInt ∧ v.toInt ≤ 0x7F := by
  obtain ⟨-, c, d, -, -, hallowed, hp⟩ := ofTexts?_char_iff.mp h
  rw [hany, or_iff_right Bool.false_ne_true] at hallowed
  obtain ⟨hc, hd⟩ := hallowed.ascii
  refine ⟨(between?_bounds hp).2.1, ?_⟩
  intro v hv
  have hbounds := between?_values hp v hv
  rw [Int64.toInt_ofNat_of_lt (by omega), Int64.toInt_ofNat_of_lt (by omega)] at hbounds
  omega

lemma start_mem_values (p : Progression) : p.start ∈ p.values := by
  have hlength : 0 < p.values.length := by rw [length_values]; exact Nat.succ_pos _
  have hget := List.getElem_mem hlength
  rwa [getElem_values, value_zero] at hget

lemma last_mem_values (p : Progression) : p.last ∈ p.values :=
  List.mem_of_getLast? p.getLast?_values

/-- Characters of ASCII are told from each other. -/
lemma character_inj (hv : 0 ≤ v.toInt ∧ v.toInt ≤ 0x7F) (hv' : 0 ≤ v'.toInt ∧ v'.toInt ≤ 0x7F)
    (h : character v = character v') : v = v' := by
  have hvalue : ∀ {v : Int64}, 0 ≤ v.toInt ∧ v.toInt ≤ 0x7F →
      (character v).val.toNat = v.toInt.toNat := by
    intro v hv
    have hvalid : v.toInt.toNat.isValidChar := Or.inl (by omega)
    rw [character, if_pos ⟨hv.1, hvalid⟩, Utf8.toNat_ofNat hvalid]
  have hnumber := hvalue hv
  rw [h, hvalue hv'] at hnumber
  exact Int64.toInt_inj.mp (by omega)

lemma head?_stepLabel (p : Progression) : ∀ c ∈ p.stepLabel.toList.head?, c = '.' := by
  rw [stepLabel]
  split
  · simp
  · simp

lemma lineFeed_not_mem_stepLabel (p : Progression) : '\n' ∉ p.stepLabel.toList := by
  have hdigits : ∀ n, '\n' ∉ Nat.toDigits 10 n := fun n hmem =>
    absurd (Decimal.isDigit_of_mem_toDigits hmem) (by decide)
  rw [stepLabel]
  split
  · rw [String.toList_append, Decimal.toList_toString]
    split
    · simp [hdigits]
    · simp [hdigits]
  · simp

end Progression

/-! ## Ranges -/

namespace RangeKind

variable {kind : RangeKind} {p q : Progression}

/-- A range that two texts bound, where only letters bound a range of characters. -/
def Found (kind : RangeKind) (p : Progression) : Prop :=
  ∃ options first last step, options.anyCharRange = false ∧
    Progression.ofTexts? options first last step = some (kind, p)

/-- What stands between a name and the end of a label. -/
lemma bounds_of_label (h : (Node.range kind p).label = (Node.range kind q).label) :
    (kind.boundLabel p.width p.start).toList
        ++ '.' :: '.' :: ((kind.boundLabel p.width p.last).toList ++ p.stepLabel.toList)
      = (kind.boundLabel q.width q.start).toList
        ++ '.' :: '.' :: ((kind.boundLabel q.width q.last).toList ++ q.stepLabel.toList) := by
  have hcaption := congrArg String.toList (Node.label_inj h).2
  simpa [Node.caption] using hcaption

/-- **A label tells the values of a range as they are written**, though not how many columns they are
filled up to. -/
theorem Found.texts_eq_of_label (hp : kind.Found p) (hq : kind.Found q)
    (h : (Node.range kind p).label = (Node.range kind q).label) :
    p.terms.map (kind.text p.width) = q.terms.map (kind.text q.width) := by
  obtain ⟨options, first, last, step, hany, hp⟩ := hp
  obtain ⟨options', first', last', step', hany', hq⟩ := hq
  have hbounds := bounds_of_label h
  cases kind with
  | integer =>
      obtain ⟨hstart, hrest⟩ := Decimal.padded_of_boundLabel (by simp) (by simp) hbounds
      rw [List.cons.injEq, List.cons.injEq] at hrest
      obtain ⟨hlast, hstep⟩ := Decimal.padded_of_boundLabel p.head?_stepLabel q.head?_stepLabel
        hrest.2.2
      exact Progression.texts_eq_of_ends hp hq hstart hlast (String.toList_inj.mp hstep)
  | char =>
      obtain ⟨hwidth, hvalues⟩ := Progression.ascii_of_ofTexts? hany hp
      obtain ⟨hwidth', hvalues'⟩ := Progression.ascii_of_ofTexts? hany' hq
      obtain ⟨hstart, hrest⟩ := Quoted.character_inj hbounds
      rw [List.cons.injEq, List.cons.injEq] at hrest
      obtain ⟨hlast, hstep⟩ := Quoted.character_inj hrest.2.2
      have hterms := (Progression.bounded_of_ofTexts? hp).terms_eq_of_ends
        (Progression.bounded_of_ofTexts? hq)
        (Progression.character_inj (hvalues _ p.start_mem_values) (hvalues' _ q.start_mem_values) hstart)
        (Progression.character_inj (hvalues _ p.last_mem_values) (hvalues' _ q.last_mem_values) hlast)
        (String.toList_inj.mp hstep)
      rw [hterms, hwidth, hwidth']

end RangeKind

/-! ## Outlines -/

/-- **A label is one line.** -/
lemma Node.lineFeed_not_mem_label (n : Node) : '\n' ∉ n.label.toList := by
  have hname := (Kind.mem_name (k := n.kind)).2
  have hbound : ∀ (kind : RangeKind) (width : Nat) (value : Int64),
      '\n' ∉ (kind.boundLabel width value).toList := by
    intro kind width value
    cases kind with
    | integer => exact fun hmem => (Decimal.mem_lossy_padded hmem).2 rfl
    | char => exact Quoted.lineFeed_not_mem_character _
  have hcaption : '\n' ∉ n.caption.toList := by
    cases n with
    | leaf kind value => cases kind <;> simp [caption, Quoted.lineFeed_not_mem_text]
    | range kind p => simp [caption, hbound, p.lineFeed_not_mem_stepLabel]
    | list kind children => simp [caption]
  rw [label_eq, String.toList_append]
  simp [hname, hcaption]

namespace Shape

variable {s t : Shape}

/-- The first line of an outline is about the shape. -/
lemma label_of_outline (h : s.outline = t.outline) : s.label = t.label := by
  have hlabel : ∀ s : Shape, ∃ parts, s.outline = .node s.label parts := by
    intro s
    cases s with
    | leaf kind value => exact ⟨_, by rw [outline]⟩
    | range kind p => exact ⟨_, by rw [outline]⟩
    | list kind children => exact ⟨_, by rw [outline]⟩
  obtain ⟨parts, hs⟩ := hlabel s
  obtain ⟨parts', ht⟩ := hlabel t
  rw [hs, ht] at h
  exact (Outline.node.inj h).1

/-- No line of an outline is cut in two. -/
lemma flat_outline (s : Shape) : s.outline.Flat := by
  induction s with
  | leaf kind value =>
      rw [outline, Outline.Flat]
      exact ⟨Node.lineFeed_not_mem_label _, by simp⟩
  | range kind p =>
      rw [outline, Outline.Flat]
      exact ⟨Node.lineFeed_not_mem_label _, by simp⟩
  | list kind children ih =>
      rw [outline, Outline.Flat]
      exact ⟨Node.lineFeed_not_mem_label _, by simpa using ih⟩

end Shape

end BraceExpansion
