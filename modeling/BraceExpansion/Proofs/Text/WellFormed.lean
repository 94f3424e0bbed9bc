import BraceExpansion.Proofs.Text.Encoding
import Mathlib.Data.List.Basic
import Mathlib.Order.Bounds.Basic

/-!
# Well-formed texts

A text is well-formed if it is the encoding of a string.

* `WellFormed` — so a text is the characters at its front, and what is behind them if it is not
  well-formed (`malformedAt?_cases`).
* `encodeAll_injective` — it encodes one string only.
* **`isGreatest_wellFormed`** — where no character starts, the longest well-formed start ends.
-/

namespace BraceExpansion.Utf8

variable {cs ds : List Char} {bytes rest : Bytes} {c : Char}

/-- The bytes of some characters. -/
def encodeAll (cs : List Char) : Bytes := cs.flatMap String.utf8EncodeChar

/-- The bytes are those of a string. -/
def WellFormed (bytes : Bytes) : Prop := ∃ text : String, encode text = bytes

@[simp] lemma encodeAll_nil : encodeAll [] = [] := rfl

@[simp] lemma encodeAll_cons (c : Char) (cs : List Char) :
    encodeAll (c :: cs) = String.utf8EncodeChar c ++ encodeAll cs := rfl

@[simp] lemma encodeAll_append (cs ds : List Char) :
    encodeAll (cs ++ ds) = encodeAll cs ++ encodeAll ds := List.flatMap_append

lemma encode_eq (text : String) : encode text = encodeAll text.toList := by
  rw [encode, String.toUTF8_eq_toByteArray, ← String.utf8Encode_toList, List.utf8Encode,
    List.data_toByteArray, encodeAll]

lemma wellFormed_iff : WellFormed bytes ↔ ∃ cs, encodeAll cs = bytes := by
  constructor
  · rintro ⟨text, rfl⟩
    exact ⟨text.toList, (encode_eq text).symm⟩
  · rintro ⟨cs, rfl⟩
    exact ⟨String.ofList cs, by rw [encode_eq, String.toList_ofList]⟩

/-! ## One way to read characters -/

/-- Characters in front of something that is no character are all that can be read. -/
lemma encodeAll_prefix {more : Bytes} (hnone : decodeChar? rest = none)
    (h : encodeAll ds ++ more = encodeAll cs ++ rest) : ds <+: cs := by
  induction ds generalizing cs with
  | nil => exact List.nil_prefix
  | cons d ds ih =>
      rw [encodeAll_cons, List.append_assoc] at h
      cases cs with
      | nil =>
          rw [encodeAll_nil, List.nil_append] at h
          rw [← h, decodeChar?_encodeChar] at hnone
          cases hnone
      | cons c cs =>
          rw [encodeAll_cons, List.append_assoc] at h
          have hchar := congrArg decodeChar? h
          rw [decodeChar?_encodeChar, decodeChar?_encodeChar, Option.some.injEq] at hchar
          subst hchar
          exact List.cons_prefix_cons.mpr ⟨rfl, ih (List.append_cancel_left h)⟩

lemma encodeAll_injective (h : encodeAll cs = encodeAll ds) : cs = ds := by
  have hstart : ∀ {cs ds : List Char}, encodeAll cs = encodeAll ds → cs <+: ds := by
    intro cs ds h
    have hends : encodeAll cs ++ [] = encodeAll ds ++ [] := by rw [h]
    exact encodeAll_prefix (by rfl) hends
  exact (hstart h).eq_of_length_le (hstart h.symm).length_le

/-- **Where no character starts, the longest well-formed start ends.** -/
theorem isGreatest_wellFormed (hne : rest ≠ []) (hnone : decodeChar? rest = none) :
    ¬ WellFormed (encodeAll cs ++ rest) ∧
      IsGreatest {n | n ≤ (encodeAll cs ++ rest).length ∧
        WellFormed ((encodeAll cs ++ rest).take n)} (encodeAll cs).length := by
  have hle : ∀ ds more, encodeAll ds ++ more = encodeAll cs ++ rest →
      (encodeAll ds).length ≤ (encodeAll cs).length := by
    intro ds more h
    obtain ⟨es, rfl⟩ := encodeAll_prefix hnone h
    rw [encodeAll_append, List.length_append]
    exact Nat.le_add_right _ _
  refine ⟨?_, ⟨?_, ?_⟩, ?_⟩
  · intro hwell
    obtain ⟨ds, hds⟩ := wellFormed_iff.mp hwell
    have hlength := hle ds [] (by rw [hds, List.append_nil])
    have hpos := List.length_pos_iff.mpr hne
    rw [hds, List.length_append] at hlength
    omega
  · rw [List.length_append]
    exact Nat.le_add_right _ _
  · rw [List.take_left]
    exact wellFormed_iff.mpr ⟨cs, rfl⟩
  · rintro n ⟨hn, hwell⟩
    obtain ⟨ds, hds⟩ := wellFormed_iff.mp hwell
    have hlength := hle ds ((encodeAll cs ++ rest).drop n)
      (by rw [hds, List.take_append_drop])
    rwa [hds, List.length_take_of_le hn] at hlength

/-! ## Malformed texts -/

/-- The rest of a character that has been read is skipped. -/
lemma malformedFrom_skip (offset : Nat) (skipped rest : Bytes) :
    malformedFrom offset skipped.length (skipped ++ rest)
      = malformedFrom (offset + skipped.length) 0 rest := by
  induction skipped generalizing offset with
  | nil => rfl
  | cons b skipped ih =>
      rw [List.cons_append, List.length_cons, malformedFrom, ih]
      congr 1
      omega

/-- A character at the front is well-formed. -/
lemma malformedFrom_encodeChar (offset : Nat) (c : Char) (rest : Bytes) :
    malformedFrom offset 0 (String.utf8EncodeChar c ++ rest)
      = malformedFrom (offset + c.utf8Size) 0 rest := by
  have hlength := String.length_utf8EncodeChar c
  have hdecode := decodeChar?_encodeChar c rest
  obtain ⟨b, tail, hbytes⟩ : ∃ b tail, String.utf8EncodeChar c = b :: tail := by
    refine List.exists_cons_of_ne_nil ?_
    intro hnil
    have hpos := c.utf8Size_pos
    rw [hnil, List.length_nil] at hlength
    omega
  rw [hbytes, List.length_cons] at hlength
  rw [hbytes, List.cons_append] at hdecode ⊢
  rw [malformedFrom, hdecode]
  have hskip := malformedFrom_skip (offset + 1) tail rest
  rw [show tail.length = c.utf8Size - 1 by omega] at hskip
  dsimp only
  rw [hskip]
  congr 1
  have hpos := c.utf8Size_pos
  omega

/-- **A text is characters, and behind them nothing or something that is no character.** -/
theorem malformedAt?_cases (bytes : Bytes) : ∃ cs rest, bytes = encodeAll cs ++ rest ∧
    (rest = [] ∧ malformedAt? bytes = none ∨
      rest ≠ [] ∧ decodeChar? rest = none ∧ malformedAt? bytes = some (encodeAll cs).length) := by
  have hfrom : ∀ (n offset : Nat) (bytes : Bytes), bytes.length = n →
      ∃ cs rest, bytes = encodeAll cs ++ rest ∧
        (rest = [] ∧ malformedFrom offset 0 bytes = none ∨ rest ≠ [] ∧ decodeChar? rest = none ∧
          malformedFrom offset 0 bytes = some (offset + (encodeAll cs).length)) := by
    intro n
    induction n using Nat.strongRecOn with
    | ind n ih =>
        intro offset bytes hn
        cases bytes with
        | nil => exact ⟨[], [], rfl, Or.inl ⟨rfl, rfl⟩⟩
        | cons b tail =>
            cases hdecode : decodeChar? (b :: tail) with
            | none =>
                refine ⟨[], b :: tail, rfl, Or.inr ⟨List.cons_ne_nil _ _, hdecode, ?_⟩⟩
                rw [malformedFrom, hdecode]
                rfl
            | some c =>
                obtain ⟨more, hmore⟩ := decodeChar?_eq_some_iff.mp hdecode
                have hlength := String.length_utf8EncodeChar c
                have hpos := c.utf8Size_pos
                rw [hmore, List.length_append] at hn
                obtain ⟨cs, rest, rfl, hcases⟩ :=
                  ih more.length (by omega) (offset + c.utf8Size) more rfl
                refine ⟨c :: cs, rest, by rw [hmore, encodeAll_cons, List.append_assoc], ?_⟩
                rw [hmore, malformedFrom_encodeChar, encodeAll_cons, List.length_append, hlength,
                  ← Nat.add_assoc]
                exact hcases
  obtain ⟨cs, rest, hbytes, hcases⟩ := hfrom bytes.length 0 bytes rfl
  rw [Nat.zero_add] at hcases
  exact ⟨cs, rest, hbytes, hcases⟩

/-! ## Characters and bytes of ASCII -/

lemma encodeChar_ascii (h : c.toNat ≤ 0x7F) : String.utf8EncodeChar c = [UInt8.ofNat c.toNat] := by
  have hval : c.val.toNat ≤ 0x7F := h
  simp only [String.utf8EncodeChar, if_pos hval]
  rfl

/-- Bytes of ASCII stand for themselves alone. -/
lemma encodeChar_not_ascii (h : 0x80 ≤ c.toNat) : ∀ b ∈ String.utf8EncodeChar c, 0x80 ≤ b.toNat := by
  have hval : ¬ c.val.toNat ≤ 0x7F := by
    have hle : 0x80 ≤ c.val.toNat := h
    omega
  simp only [String.utf8EncodeChar, if_neg hval]
  split
  · simp only [List.mem_cons, List.not_mem_nil, or_false, forall_eq_or_imp, forall_eq,
      UInt8.toNat_ofNat']
    omega
  split
  · simp only [List.mem_cons, List.not_mem_nil, or_false, forall_eq_or_imp, forall_eq,
      UInt8.toNat_ofNat']
    omega
  · simp only [List.mem_cons, List.not_mem_nil, or_false, forall_eq_or_imp, forall_eq,
      UInt8.toNat_ofNat']
    omega

/-- A character of one byte is that byte. -/
lemma encodeChar_eq_singleton_iff {b : UInt8} :
    String.utf8EncodeChar c = [b] ↔ c.toNat = b.toNat ∧ b.toNat ≤ 0x7F := by
  constructor
  · intro h
    by_cases hc : c.toNat ≤ 0x7F
    · rw [encodeChar_ascii hc, List.cons.injEq] at h
      rw [← h.1, UInt8.toNat_ofNat']
      omega
    · have hlength := congrArg List.length h
      rw [String.length_utf8EncodeChar, List.length_singleton, Char.utf8Size_eq_one_iff] at hlength
      exact absurd (UInt32.le_iff_toNat_le.mp hlength) hc
  · rintro ⟨hvalue, hlow⟩
    rw [encodeChar_ascii (hvalue ▸ hlow), hvalue, UInt8.ofNat_toNat]

/-- A byte of ASCII ends a character that has been begun. -/
lemma decodeChar?_of_append {after : Bytes} (hne : bytes ≠ [])
    (hafter : ∀ b ∈ after.head?, b.toNat ≤ 0x7F) (h : decodeChar? (bytes ++ after) = some c) :
    decodeChar? bytes = some c := by
  obtain ⟨more, hmore⟩ := decodeChar?_eq_some_iff.mp h
  rw [decodeChar?_eq_some_iff]
  rcases List.append_eq_append_iff.mp hmore with ⟨mid, hchar, hafter'⟩ | ⟨mid, rfl, -⟩
  · cases mid with
    | nil => exact ⟨[], by rw [hchar]; simp⟩
    | cons b mid =>
        have hlow := hafter b (by rw [hafter']; rfl)
        have hb : b ∈ String.utf8EncodeChar c := by rw [hchar]; simp
        by_cases hc : c.toNat ≤ 0x7F
        · obtain ⟨a, bytes, rfl⟩ := List.exists_cons_of_ne_nil hne
          rw [encodeChar_ascii hc] at hchar
          simp at hchar
        · have hhigh := encodeChar_not_ascii (c := c) (by omega) b hb
          omega
  · exact ⟨mid, rfl⟩

end BraceExpansion.Utf8
