import BraceExpansion.Proofs.Text.WellFormed

/-!
# Parts of well-formed texts

Texts of whole characters can be put together, and a text can be cut between two characters:
`WellFormed.append` and `WellFormed.of_append`.  Before an ASCII byte there is always a place to cut
(`WellFormed.before_ascii`), because no character goes on with one.

**`lossy_encode`** — a string comes back from its bytes as it is, so showing a well-formed text replaces
nothing (`encode_lossy`).
-/

namespace BraceExpansion.Utf8

variable {bytes text rest : Bytes} {b : UInt8}

/-! ## Putting together and cutting -/

lemma wellFormed_nil : WellFormed [] := wellFormed_iff.mpr ⟨[], rfl⟩

lemma wellFormed_encodeChar (c : Char) : WellFormed (String.utf8EncodeChar c) :=
  wellFormed_iff.mpr ⟨[c], List.append_nil _⟩

lemma wellFormed_encode (text : String) : WellFormed (encode text) := ⟨text, rfl⟩

lemma WellFormed.append (htext : WellFormed text) (hrest : WellFormed rest) :
    WellFormed (text ++ rest) := by
  obtain ⟨cs, rfl⟩ := wellFormed_iff.mp htext
  obtain ⟨ds, rfl⟩ := wellFormed_iff.mp hrest
  exact wellFormed_iff.mpr ⟨cs ++ ds, encodeAll_append cs ds⟩

/-- What stands behind whole characters is whole characters. -/
lemma WellFormed.of_append (h : WellFormed (text ++ rest)) (htext : WellFormed text) :
    WellFormed rest := by
  obtain ⟨ds, rfl⟩ := wellFormed_iff.mp htext
  obtain ⟨cs, hcs⟩ := wellFormed_iff.mp h
  have hwhole : encodeAll ds ++ rest = encodeAll cs ++ [] := by rw [hcs, List.append_nil]
  obtain ⟨es, rfl⟩ := encodeAll_prefix rfl hwhole
  rw [encodeAll_append] at hcs
  exact wellFormed_iff.mpr ⟨es, List.append_cancel_left hcs⟩

/-- What stands before an ASCII byte, or is everything, is whole characters. -/
lemma WellFormed.before_ascii (h : WellFormed (text ++ rest))
    (hrest : ∀ b ∈ rest.head?, b.toNat ≤ 0x7F) : WellFormed text := by
  obtain ⟨cs, hcs⟩ := wellFormed_iff.mp h
  induction cs generalizing text with
  | nil =>
      obtain ⟨rfl, -⟩ := List.append_eq_nil_iff.mp hcs.symm
      exact wellFormed_nil
  | cons c cs ih =>
      by_cases hne : text = []
      · rw [hne]
        exact wellFormed_nil
      · have hdecode : decodeChar? (text ++ rest) = some c := by
          rw [← hcs, encodeAll_cons]
          exact decodeChar?_encodeChar c _
        obtain ⟨more, rfl⟩ := decodeChar?_eq_some_iff.mp (decodeChar?_of_append hne hrest hdecode)
        rw [encodeAll_cons, List.append_assoc] at hcs
        have hmore := List.append_cancel_left hcs
        exact (wellFormed_encodeChar c).append
          (ih (wellFormed_iff.mpr ⟨cs, hmore⟩) hmore)

lemma wellFormed_byte (hb : b.toNat ≤ 0x7F) : WellFormed [b] := by
  rw [← encodeChar_one hb]
  exact wellFormed_encodeChar _

lemma wellFormed_ascii (h : ∀ b ∈ bytes, b.toNat ≤ 0x7F) : WellFormed bytes := by
  induction bytes with
  | nil => exact wellFormed_nil
  | cons b bytes ih =>
      obtain ⟨hb, hbytes⟩ := List.forall_mem_cons.mp h
      exact (wellFormed_byte hb).append (ih hbytes)

/-! ## Showing well-formed texts -/

lemma lossyOnto_skip (shown : String) (skipped rest : Bytes) :
    lossyOnto shown skipped.length (skipped ++ rest) = lossyOnto shown 0 rest := by
  induction skipped with
  | nil => rfl
  | cons b skipped ih => rw [List.length_cons, List.cons_append, lossyOnto, ih]

lemma lossyOnto_encodeChar (shown : String) (c : Char) (rest : Bytes) :
    lossyOnto shown 0 (String.utf8EncodeChar c ++ rest) = lossyOnto (shown.push c) 0 rest := by
  have hdecode := decodeChar?_encodeChar c rest
  have hlength := String.length_utf8EncodeChar c
  obtain ⟨b, tail, hchar⟩ := List.exists_cons_of_ne_nil (String.utf8EncodeChar_ne_nil (c := c))
  rw [hchar, List.cons_append] at hdecode
  rw [hchar, List.length_cons] at hlength
  rw [hchar, List.cons_append, lossyOnto, hdecode]
  have hskip := lossyOnto_skip (shown.push c) tail rest
  rwa [show tail.length = c.utf8Size - 1 by omega] at hskip

/-- **A string comes back from its bytes.** -/
theorem lossy_encode (text : String) : lossy (encode text) = text := by
  have honto : ∀ (cs : List Char) (shown : String),
      lossyOnto shown 0 (encodeAll cs) = shown ++ String.ofList cs := by
    intro cs
    induction cs with
    | nil => intro shown; simp [lossyOnto]
    | cons c cs ih =>
        intro shown
        rw [encodeAll_cons, lossyOnto_encodeChar, ih, ← String.toList_inj]
        simp
  rw [lossy, encode_eq, honto, String.ofList_toList]
  simp

/-- Showing a well-formed text replaces nothing. -/
lemma encode_lossy (h : WellFormed bytes) : encode (lossy bytes) = bytes := by
  obtain ⟨text, rfl⟩ := h
  rw [lossy_encode]

end BraceExpansion.Utf8
