import BraceExpansion.Progression.Endpoints
import BraceExpansion.Proofs.Text.Decimal
import BraceExpansion.Proofs.Text.WellFormed

/-!
# What two texts bound

`Progression.ofTexts?` tries three readings of its texts one after another, and what they accept
overlaps.  This file says what a range is without an order of trials: two numbers bound an integer
range, and two characters that are not both digits bound a character range.

* `Bounds.Written` — the texts and the bounds they stand for.
* `Bounds.ofSingleBytes?_eq` — texts of one byte have no reading of their own: what their bytes tell
  apart are numbers and characters.
* **`Progression.ofTexts?_classifies`** — each kind of range is found exactly where it is written.
-/

namespace BraceExpansion

/-! ## Numbers -/

namespace Decimal

/-- The text is a decimal whose value fits 64 bits. -/
def IsNumber (text : Bytes) : Prop := ∃ value : Int64, Numeral text value.toInt

/-- A number of one byte is a digit. -/
lemma Numeral.isDigit {b : UInt8} {z : Int} (h : Numeral [b] z) : Ascii.isDigit b = true := by
  cases h with
  | plain h => exact h.isDigit b List.mem_cons_self
  | plus h => exact absurd rfl h.ne_nil
  | minus h => exact absurd rfl h.ne_nil

lemma read?_digit {b : UInt8} (h : Ascii.isDigit b = true) :
    read? [b] = some (Int64.ofNat (b.toNat - 0x30)) := by
  have hbounds := Ascii.isDigit_iff.mp h
  rw [read?_eq_some_iff, Int64.toInt_ofNat_of_lt (by omega)]
  refine .plain ⟨List.cons_ne_nil _ _, by simpa using h, ?_⟩
  rw [positional_cons, positional_nil, List.length_nil, pow_zero, Nat.mul_one, Nat.add_zero]

end Decimal

namespace Bounds

open Decimal (Numeral IsNumber)

variable {anyChar : Bool} {first last text : Bytes} {a b : UInt8} {c d : Char} {width : Nat}
  {bounds : Bounds}

/-! ## Columns -/

/-- A zero with something behind it, or a zero behind a minus. -/
def Padded (text : Bytes) : Prop :=
  (∃ b rest, text = Ascii.zero :: b :: rest) ∨ ∃ rest, text = Ascii.minus :: Ascii.zero :: rest

lemma isPadded_iff : isPadded text = true ↔ Padded text := by
  constructor
  · intro h
    rw [isPadded.eq_def] at h
    split at h
    · exact Or.inl ⟨_, _, rfl⟩
    · exact Or.inr ⟨_, rfl⟩
    · cases h
  · rintro (⟨b, rest, rfl⟩ | ⟨rest, rfl⟩)
    · rfl
    · rfl

lemma paddedWidth_eq (h : Padded text) : paddedWidth text = text.length :=
  if_pos (isPadded_iff.mpr h)

lemma paddedWidth_eq_zero (h : ¬ Padded text) : paddedWidth text = 0 :=
  if_neg (mt isPadded_iff.mp h)

lemma paddedWidth_pos_iff : 0 < paddedWidth text ↔ Padded text := by
  constructor
  · contrapose!
    exact fun h => (paddedWidth_eq_zero h).le
  · intro h
    rw [paddedWidth_eq h]
    rcases h with ⟨b, rest, rfl⟩ | ⟨rest, rfl⟩
    · exact Nat.zero_lt_succ _
    · exact Nat.zero_lt_succ _

/-- The columns that two bounds ask for: as many as the longest padded one has, and none if neither
is padded. -/
def Columns (first last : Bytes) (width : Nat) : Prop :=
  (¬ Padded first ∧ ¬ Padded last ∧ width = 0) ∨
    IsGreatest {n | ∃ text, (text = first ∨ text = last) ∧ Padded text ∧ n = text.length} width

lemma Columns.eq_max (h : Columns first last width) :
    width = max (paddedWidth first) (paddedWidth last) := by
  rcases h with ⟨hfirst, hlast, rfl⟩ | ⟨⟨longest, hlongest, hpadded, rfl⟩, hgreatest⟩
  · rw [paddedWidth_eq_zero hfirst, paddedWidth_eq_zero hlast, max_self]
  · have hle : ∀ text, (text = first ∨ text = last) → paddedWidth text ≤ longest.length := by
      intro text htext
      by_cases htextPadded : Padded text
      · exact hgreatest ⟨text, htext, htextPadded, paddedWidth_eq htextPadded⟩
      · rw [paddedWidth_eq_zero htextPadded]
        exact Nat.zero_le _
    refine le_antisymm ?_ (max_le (hle first (Or.inl rfl)) (hle last (Or.inr rfl)))
    rw [← paddedWidth_eq hpadded]
    rcases hlongest with rfl | rfl
    · exact le_max_left _ _
    · exact le_max_right _ _

lemma columns_max (first last : Bytes) :
    Columns first last (max (paddedWidth first) (paddedWidth last)) := by
  by_cases hsome : Padded first ∨ Padded last
  · right
    have hpos : 0 < max (paddedWidth first) (paddedWidth last) :=
      lt_max_iff.mpr (hsome.imp paddedWidth_pos_iff.mpr paddedWidth_pos_iff.mpr)
    refine ⟨?_, ?_⟩
    · rcases max_choice (paddedWidth first) (paddedWidth last) with hmax | hmax
      · rw [hmax] at hpos ⊢
        have hpadded := paddedWidth_pos_iff.mp hpos
        exact ⟨first, Or.inl rfl, hpadded, paddedWidth_eq hpadded⟩
      · rw [hmax] at hpos ⊢
        have hpadded := paddedWidth_pos_iff.mp hpos
        exact ⟨last, Or.inr rfl, hpadded, paddedWidth_eq hpadded⟩
    · rintro n ⟨text, rfl | rfl, hpadded, rfl⟩
      · exact le_max_of_le_left (paddedWidth_eq hpadded).ge
      · exact le_max_of_le_right (paddedWidth_eq hpadded).ge
  · left
    obtain ⟨hfirst, hlast⟩ := not_or.mp hsome
    rw [paddedWidth_eq_zero hfirst, paddedWidth_eq_zero hlast]
    exact ⟨hfirst, hlast, max_self 0⟩

/-! ## Letters -/

/-- Two letters of the Latin alphabet, both capital or both small. -/
def SameCase (c d : Char) : Prop :=
  (c.isUpper = true ∧ d.isUpper = true) ∨ (c.isLower = true ∧ d.isLower = true)

lemma isUpper_iff : c.isUpper = true ↔ 0x41 ≤ c.toNat ∧ c.toNat ≤ 0x5A := by
  have hdef : c.isUpper = decide (0x41 ≤ c.val ∧ c.val ≤ 0x5A) := rfl
  rw [hdef, decide_eq_true_eq, UInt32.le_iff_toNat_le, UInt32.le_iff_toNat_le]
  rfl

lemma isLower_iff : c.isLower = true ↔ 0x61 ≤ c.toNat ∧ c.toNat ≤ 0x7A := by
  have hdef : c.isLower = (decide (0x61 ≤ c.val) && decide (c.val ≤ 0x7A)) := rfl
  rw [hdef, Bool.and_eq_true, decide_eq_true_eq, decide_eq_true_eq, UInt32.le_iff_toNat_le,
    UInt32.le_iff_toNat_le]
  rfl

/-- Letters are told from their numbers, whether these are bytes or characters. -/
lemma isSameCase_iff (hc : c.toNat = a.toNat) (hd : d.toNat = b.toNat) :
    isSameCase a b = true ↔ SameCase c d := by
  rw [SameCase, isUpper_iff, isUpper_iff, isLower_iff, isLower_iff, hc, hd]
  simp only [isSameCase, Ascii.isUpper, Ascii.isLower, Bool.or_eq_true, Bool.and_eq_true,
    decide_eq_true_eq, UInt8.le_iff_toNat_le, UInt8.reduceToNat]

/-- Letters are bytes. -/
lemma SameCase.ascii (h : SameCase c d) : c.toNat ≤ 0x7F ∧ d.toNat ≤ 0x7F := by
  rw [SameCase, isUpper_iff, isUpper_iff, isLower_iff, isLower_iff] at h
  omega

/-! ## Three readings -/

lemma ofIntegers?_eq_some_iff : ofIntegers? first last = some bounds ↔
    ∃ start stop : Int64, Numeral first start.toInt ∧ Numeral last stop.toInt ∧
      bounds = ⟨.integer, start, stop, max (paddedWidth first) (paddedWidth last)⟩ := by
  simp only [ofIntegers?, Option.bind_eq_bind, Option.bind_eq_some_iff, Option.pure_def,
    Option.some.injEq, Decimal.read?_eq_some_iff, eq_comm (b := bounds), exists_and_left]

lemma ofIntegers?_eq_none_iff :
    ofIntegers? first last = none ↔ ¬ (IsNumber first ∧ IsNumber last) := by
  rw [Option.eq_none_iff_forall_ne_some]
  constructor
  · rintro hnone ⟨⟨start, hstart⟩, stop, hstop⟩
    exact hnone _ (ofIntegers?_eq_some_iff.mpr ⟨start, stop, hstart, hstop, rfl⟩)
  · rintro hnot bounds hbounds
    obtain ⟨start, stop, hstart, hstop, -⟩ := ofIntegers?_eq_some_iff.mp hbounds
    exact hnot ⟨⟨start, hstart⟩, stop, hstop⟩

lemma ofCharacters?_eq_some_iff : ofCharacters? first last = some bounds ↔
    ∃ c d : Char, first = String.utf8EncodeChar c ∧ last = String.utf8EncodeChar d ∧
      bounds = ⟨.char, Int64.ofNat c.toNat, Int64.ofNat d.toNat, 0⟩ := by
  simp only [ofCharacters?, Option.bind_eq_bind, Option.bind_eq_some_iff, Option.pure_def,
    Option.some.injEq, Utf8.singleChar?_eq_some_iff, eq_comm (b := bounds), exists_and_left]

/-! ### Texts of one byte -/

lemma ofIntegers?_digits (ha : Ascii.isDigit a = true) (hb : Ascii.isDigit b = true) :
    ofIntegers? [a] [b]
      = some ⟨.integer, Int64.ofNat (a.toNat - 0x30), Int64.ofNat (b.toNat - 0x30), 0⟩ := by
  have hwidth : ∀ b : UInt8, paddedWidth [b] = 0 := by
    intro b
    refine paddedWidth_eq_zero ?_
    rintro (⟨c, rest, h⟩ | ⟨rest, h⟩)
    · cases h
    · cases h
  rw [ofIntegers?, Decimal.read?_digit ha, Decimal.read?_digit hb, hwidth, hwidth]
  rfl

lemma ofCharacters?_bytes (a b : UInt8) : ofCharacters? [a] [b]
    = if a < 0x80 && b < 0x80 then
        some ⟨.char, Int64.ofNat a.toNat, Int64.ofNat b.toNat, 0⟩ else none := by
  have hchar : ∀ {a : UInt8}, a < 0x80 → ∃ c, [a] = String.utf8EncodeChar c ∧ c.toNat = a.toNat := by
    intro a ha
    have hlow : a.toNat ≤ 0x7F := Nat.le_of_lt_succ (UInt8.lt_iff_toNat_lt.mp ha)
    have hvalue : (Char.ofNat a.toNat).toNat = a.toNat := Utf8.toNat_ofNat (Or.inl (by omega))
    exact ⟨_, (Utf8.encodeChar_eq_singleton_iff.mpr ⟨hvalue, hlow⟩).symm, hvalue⟩
  split
  next hascii =>
    rw [Bool.and_eq_true, decide_eq_true_eq, decide_eq_true_eq] at hascii
    obtain ⟨c, ha, hc⟩ := hchar hascii.1
    obtain ⟨d, hb, hd⟩ := hchar hascii.2
    rw [← hc, ← hd]
    exact ofCharacters?_eq_some_iff.mpr ⟨c, d, ha, hb, rfl⟩
  next hascii =>
    rw [Option.eq_none_iff_forall_ne_some]
    intro bounds hbounds
    obtain ⟨c, d, ha, hb, -⟩ := ofCharacters?_eq_some_iff.mp hbounds
    have ha := (Utf8.encodeChar_eq_singleton_iff.mp ha.symm).2
    have hb := (Utf8.encodeChar_eq_singleton_iff.mp hb.symm).2
    rw [Bool.and_eq_true, decide_eq_true_eq, decide_eq_true_eq, UInt8.lt_iff_toNat_lt,
      UInt8.lt_iff_toNat_lt] at hascii
    exact hascii ⟨Nat.lt_succ_of_le ha, Nat.lt_succ_of_le hb⟩

lemma ascii_of_isSameCase (h : isSameCase a b = true) : a < 0x80 ∧ b < 0x80 := by
  simp only [isSameCase, Ascii.isUpper, Ascii.isLower, Bool.or_eq_true, Bool.and_eq_true,
    decide_eq_true_eq, UInt8.le_iff_toNat_le, UInt8.lt_iff_toNat_lt, UInt8.reduceToNat] at h ⊢
  omega

/-- **Texts of one byte are read like longer ones**, except that letters of one case need no
permission to be characters. -/
theorem ofSingleBytes?_eq (anyChar : Bool) (a b : UInt8) :
    ofSingleBytes? anyChar [a] [b] = (ofIntegers? [a] [b]).or
      (if anyChar || isSameCase a b then ofCharacters? [a] [b] else none) := by
  rw [ofSingleBytes?]
  split
  next hdigits =>
    rw [Bool.and_eq_true] at hdigits
    rw [ofIntegers?_digits hdigits.1 hdigits.2, Option.some_or]
  next hdigits =>
    have hnone : ofIntegers? [a] [b] = none := by
      rw [ofIntegers?_eq_none_iff]
      rintro ⟨⟨start, hstart⟩, stop, hstop⟩
      exact hdigits (Bool.and_eq_true_iff.mpr ⟨hstart.isDigit, hstop.isDigit⟩)
    rw [hnone, Option.none_or, ofCharacters?_bytes, Bool.and_assoc]
    cases hcase : isSameCase a b with
    | true =>
        obtain ⟨ha, hb⟩ := ascii_of_isSameCase hcase
        simp [ha, hb]
    | false => cases anyChar <;> simp

lemma ofTexts?_bytes (anyChar : Bool) (a b : UInt8) :
    ofTexts? anyChar [a] [b] = ofSingleBytes? anyChar [a] [b] := by
  rw [ofTexts?, ofSingleBytes?_eq]
  cases ofIntegers? [a] [b] with
  | some bounds => rfl
  | none =>
      cases anyChar with
      | false => simp
      | true => simp

/-- Longer texts are numbers or characters. -/
lemma ofTexts?_of_length (h : ¬ (first.length = 1 ∧ last.length = 1)) :
    ofTexts? anyChar first last = (ofIntegers? first last).or
      (if anyChar then ofCharacters? first last else none) := by
  have hnone : ofSingleBytes? anyChar first last = none := by
    rw [ofSingleBytes?.eq_def]
    split
    · exact absurd ⟨rfl, rfl⟩ h
    · rfl
  rw [ofTexts?, hnone, Option.none_or]

/-! ## What bounds are written as -/

/-- Two texts and the bounds they stand for. -/
inductive Written (anyChar : Bool) (first last : Bytes) : Bounds → Prop
  | integers {start stop : Int64} {width : Nat} (hfirst : Numeral first start.toInt)
      (hlast : Numeral last stop.toInt) (hwidth : Columns first last width) :
      Written anyChar first last ⟨.integer, start, stop, width⟩
  | characters {c d : Char} (hnot : ¬ (IsNumber first ∧ IsNumber last))
      (hfirst : first = String.utf8EncodeChar c) (hlast : last = String.utf8EncodeChar d)
      (hallowed : anyChar = true ∨ SameCase c d) :
      Written anyChar first last ⟨.char, Int64.ofNat c.toNat, Int64.ofNat d.toNat, 0⟩

/-- Numbers, and characters where they are allowed, are the bounds that are written. -/
lemma or_eq_some_iff_written {allowed : Bool}
    (hallowed : ∀ c d, first = String.utf8EncodeChar c → last = String.utf8EncodeChar d →
      (allowed = true ↔ anyChar = true ∨ SameCase c d)) :
    (ofIntegers? first last).or (if allowed then ofCharacters? first last else none) = some bounds ↔
      Written anyChar first last bounds := by
  rw [Option.or_eq_some_iff, ofIntegers?_eq_none_iff]
  constructor
  · rintro (hintegers | ⟨hnot, hcharacters⟩)
    · obtain ⟨start, stop, hstart, hstop, rfl⟩ := ofIntegers?_eq_some_iff.mp hintegers
      exact .integers hstart hstop (columns_max first last)
    · split at hcharacters
      next h =>
        obtain ⟨c, d, hfirst, hlast, rfl⟩ := ofCharacters?_eq_some_iff.mp hcharacters
        exact .characters hnot hfirst hlast ((hallowed c d hfirst hlast).mp h)
      next => cases hcharacters
  · rintro (⟨hfirst, hlast, hwidth⟩ | ⟨hnot, hfirst, hlast, h⟩)
    · left
      rw [hwidth.eq_max]
      exact ofIntegers?_eq_some_iff.mpr ⟨_, _, hfirst, hlast, rfl⟩
    · right
      rw [if_pos ((hallowed _ _ hfirst hlast).mpr h)]
      exact ⟨hnot, ofCharacters?_eq_some_iff.mpr ⟨_, _, hfirst, hlast, rfl⟩⟩

/-- **Two texts are given the bounds they are written as.** -/
theorem ofTexts?_eq_some_iff :
    ofTexts? anyChar first last = some bounds ↔ Written anyChar first last bounds := by
  by_cases hsingle : first.length = 1 ∧ last.length = 1
  · obtain ⟨a, rfl⟩ := List.length_eq_one_iff.mp hsingle.1
    obtain ⟨b, rfl⟩ := List.length_eq_one_iff.mp hsingle.2
    rw [ofTexts?_bytes, ofSingleBytes?_eq]
    refine or_eq_some_iff_written ?_
    intro c d ha hb
    have hc := (Utf8.encodeChar_eq_singleton_iff.mp ha.symm).1
    have hd := (Utf8.encodeChar_eq_singleton_iff.mp hb.symm).1
    rw [Bool.or_eq_true, isSameCase_iff hc hd]
  · rw [ofTexts?_of_length hsingle]
    refine or_eq_some_iff_written ?_
    intro c d hfirst hlast
    refine ⟨Or.inl, ?_⟩
    -- letters have one byte, and these texts have more
    rintro (hany | hcase)
    · exact hany
    · rw [hfirst, hlast, String.length_utf8EncodeChar, String.length_utf8EncodeChar,
        Char.utf8Size_eq_one_iff, Char.utf8Size_eq_one_iff] at hsingle
      exact absurd hcase.ascii hsingle

/-- More characters are allowed, and nothing else changes. -/
lemma Written.mono (h : Written anyChar first last bounds) : Written true first last bounds := by
  cases h with
  | integers hfirst hlast hwidth => exact .integers hfirst hlast hwidth
  | characters hnot hfirst hlast _ => exact .characters hnot hfirst hlast (Or.inl rfl)

end Bounds

/-! ## Ranges -/

namespace Progression

open Bounds Decimal

variable {options : CompileOptions} {first last : Bytes} {step : Int64} {kind : RangeKind}
  {p : Progression}

/-- A range is a progression between bounds that are written. -/
lemma ofTexts?_eq_some_iff : ofTexts? options first last step = some (kind, p) ↔
    ∃ bounds, Written options.anyCharRange first last bounds ∧ bounds.kind = kind ∧
      between? bounds.start bounds.stop step bounds.width = some p := by
  simp only [ofTexts?, Option.bind_eq_bind, Option.bind_eq_some_iff, Option.pure_def,
    Option.some.injEq, Prod.mk.injEq, Bounds.ofTexts?_eq_some_iff]
  constructor
  · rintro ⟨bounds, hwritten, p, hp, rfl, rfl⟩
    exact ⟨bounds, hwritten, rfl, hp⟩
  · rintro ⟨bounds, hwritten, rfl, hp⟩
    exact ⟨bounds, hwritten, p, hp, rfl, rfl⟩

lemma ofTexts?_integer_iff : ofTexts? options first last step = some (.integer, p) ↔
    ∃ start stop : Int64, ∃ width, Numeral first start.toInt ∧ Numeral last stop.toInt ∧
      Columns first last width ∧ between? start stop step width = some p := by
  rw [ofTexts?_eq_some_iff]
  constructor
  · rintro ⟨bounds, ⟨hfirst, hlast, hwidth⟩ | _, hkind, hp⟩
    · exact ⟨_, _, _, hfirst, hlast, hwidth, hp⟩
    · cases hkind
  · rintro ⟨start, stop, width, hfirst, hlast, hwidth, hp⟩
    exact ⟨_, .integers hfirst hlast hwidth, rfl, hp⟩

lemma ofTexts?_char_iff : ofTexts? options first last step = some (.char, p) ↔
    ¬ (IsNumber first ∧ IsNumber last) ∧ ∃ c d : Char, first = String.utf8EncodeChar c ∧
      last = String.utf8EncodeChar d ∧ (options.anyCharRange = true ∨ SameCase c d) ∧
      between? (Int64.ofNat c.toNat) (Int64.ofNat d.toNat) step 0 = some p := by
  rw [ofTexts?_eq_some_iff]
  constructor
  · rintro ⟨bounds, _ | ⟨hnot, hfirst, hlast, hallowed⟩, hkind, hp⟩
    · cases hkind
    · exact ⟨hnot, _, _, hfirst, hlast, hallowed, hp⟩
  · rintro ⟨hnot, c, d, hfirst, hlast, hallowed, hp⟩
    exact ⟨_, .characters hnot hfirst hlast hallowed, rfl, hp⟩

/-- There is no range if what is written has no progression in between. -/
lemma ofTexts?_eq_none_iff : ofTexts? options first last step = none ↔ ∀ bounds,
    Written options.anyCharRange first last bounds →
      between? bounds.start bounds.stop step bounds.width = none := by
  rw [Option.eq_none_iff_forall_ne_some]
  constructor
  · intro hnone bounds hwritten
    rw [Option.eq_none_iff_forall_ne_some]
    intro p hp
    exact hnone (bounds.kind, p) (ofTexts?_eq_some_iff.mpr ⟨bounds, hwritten, rfl, hp⟩)
  · rintro hnone ⟨kind, p⟩ h
    obtain ⟨bounds, hwritten, -, hp⟩ := ofTexts?_eq_some_iff.mp h
    rw [hnone bounds hwritten] at hp
    cases hp

/-- With any characters allowed, every range stays what it is. -/
lemma ofTexts?_mono (h : ofTexts? options first last step = some (kind, p)) :
    ofTexts? { options with anyCharRange := true } first last step = some (kind, p) := by
  obtain ⟨bounds, hwritten, hkind, hp⟩ := ofTexts?_eq_some_iff.mp h
  exact ofTexts?_eq_some_iff.mpr ⟨bounds, hwritten.mono, hkind, hp⟩

/-- **What is found is what is written.**  There is an integer range exactly between numbers, a
character range exactly between characters that are allowed and not both digits, and otherwise none.
Bytes decide about texts of one byte as numbers and characters would, and a range that is there stays
when any characters are allowed. -/
theorem ofTexts?_classifies (options : CompileOptions) (first last : Bytes) (step : Int64) :
    (∀ p, ofTexts? options first last step = some (.integer, p) ↔
      ∃ start stop : Int64, ∃ width, Numeral first start.toInt ∧ Numeral last stop.toInt ∧
        Columns first last width ∧ between? start stop step width = some p) ∧
    (∀ p, ofTexts? options first last step = some (.char, p) ↔
      ¬ (IsNumber first ∧ IsNumber last) ∧ ∃ c d : Char, first = String.utf8EncodeChar c ∧
        last = String.utf8EncodeChar d ∧ (options.anyCharRange = true ∨ SameCase c d) ∧
        between? (Int64.ofNat c.toNat) (Int64.ofNat d.toNat) step 0 = some p) ∧
    (ofTexts? options first last step = none ↔ ∀ bounds,
      Written options.anyCharRange first last bounds →
        between? bounds.start bounds.stop step bounds.width = none) ∧
    (∀ a b, ofSingleBytes? options.anyCharRange [a] [b] = (ofIntegers? [a] [b]).or
      (if options.anyCharRange || isSameCase a b then ofCharacters? [a] [b] else none)) ∧
    ∀ range, ofTexts? options first last step = some range →
      ofTexts? { options with anyCharRange := true } first last step = some range :=
  ⟨fun _ => ofTexts?_integer_iff, fun _ => ofTexts?_char_iff, ofTexts?_eq_none_iff,
    ofSingleBytes?_eq options.anyCharRange, fun _ h => ofTexts?_mono h⟩

/-- `-01` and `5` bound seven numbers of three columns each, whatever characters are allowed. -/
theorem ofTexts?_classifies_padded :
    ofTexts? {} [0x2D, 0x30, 0x31] [0x35] 1 = some (.integer, ⟨-1, 6, 1, 3⟩) ∧
      ofTexts? { anyCharRange := true } [0x2D, 0x30, 0x31] [0x35] 1
        = some (.integer, ⟨-1, 6, 1, 3⟩) :=
  ⟨by decide, (ofTexts?_classifies {} [0x2D, 0x30, 0x31] [0x35] 1).2.2.2.2 _ (by decide)⟩

end Progression

end BraceExpansion
