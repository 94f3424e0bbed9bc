import BraceExpansion.Proofs.Text.WellFormed

/-!
# Boundaries between characters

A position in the bytes of a text is a boundary if no character goes on there.

**Two notions.**  `Boundary` says it of the characters: some of them, from the first on, end at the
position.  `Checked.isBoundary` says it of the byte at the position, which continues a character or
does not.  On the bytes of characters both are the same (`isBoundary_iff`).

**Finding one.**  `Checked.boundaryBelow?` looks at one position after the other, downwards, and fails
if the way passes the start; `Checked.suffix?` cuts the text at a position, and fails if it is no
boundary.  On the bytes of characters neither fails: **`isGreatest_boundaryBelow?`** and
`suffix?_encodeAll`.
-/

namespace BraceExpansion.Utf8

variable {cs before after : List Char} {c : Char} {i n : Nat}

/-- Some characters from the first on take up the bytes before a position. -/
def Boundary (cs : List Char) (n : Nat) : Prop :=
  ∃ before after, cs = before ++ after ∧ (encodeAll before).length = n

namespace Checked

/-- Whether no character goes on at a position, as far as the byte there shows. -/
def isBoundary (bytes : Bytes) (i : Nat) : Bool :=
  match bytes[i]? with
  | some b => i = 0 || !isTail b
  | none => i = bytes.length

/-- The first boundary on the way down from a position; none if the way passes the start. -/
def boundaryBelow? (bytes : Bytes) : Nat → Option Nat
  | 0 => if isBoundary bytes 0 then some 0 else none
  | i + 1 => if isBoundary bytes (i + 1) then some (i + 1) else boundaryBelow? bytes i

/-- The text from a position on; none if the position is no boundary. -/
def suffix? (bytes : Bytes) (i : Nat) : Option Bytes :=
  if isBoundary bytes i then some (bytes.drop i) else none

end Checked

lemma length_encodeAll_cons (c : Char) (cs : List Char) :
    (encodeAll (c :: cs)).length = c.utf8Size + (encodeAll cs).length := by
  rw [encodeAll_cons, List.length_append, String.length_utf8EncodeChar]

lemma length_encodeAll_replicate (n : Nat) (c : Char) :
    (encodeAll (List.replicate n c)).length = n * c.utf8Size := by
  induction n with
  | zero => simp [encodeAll_nil]
  | succ n ih => rw [List.replicate_succ, length_encodeAll_cons, ih, Nat.succ_mul, Nat.add_comm]

/-- The bytes of characters start with the first of them. -/
lemma decodeChar?_encodeAll (cs : List Char) : decodeChar? (encodeAll cs) = cs.head? := by
  cases cs with
  | nil => rfl
  | cons c cs => exact decodeChar?_encodeChar c (encodeAll cs)

/-! ## Both notions -/

lemma boundary_zero (cs : List Char) : Boundary cs 0 := ⟨[], cs, rfl, rfl⟩

lemma boundary_append (before after : List Char) :
    Boundary (before ++ after) (encodeAll before).length := ⟨before, after, rfl, rfl⟩

lemma Boundary.le_length (h : Boundary cs n) : n ≤ (encodeAll cs).length := by
  obtain ⟨before, after, rfl, rfl⟩ := h
  rw [encodeAll_append, List.length_append]
  exact Nat.le_add_right _ _

/-- The boundaries of a text are its start, and those of what is behind its first character. -/
lemma boundary_cons_iff : Boundary (c :: cs) n ↔ n = 0 ∨ ∃ m, n = c.utf8Size + m ∧ Boundary cs m := by
  constructor
  · rintro ⟨before, after, hsplit, rfl⟩
    cases before with
    | nil => exact Or.inl rfl
    | cons b before =>
        rw [List.cons_append, List.cons.injEq] at hsplit
        obtain ⟨rfl, rfl⟩ := hsplit
        exact Or.inr ⟨_, length_encodeAll_cons c before, boundary_append before after⟩
  · rintro (rfl | ⟨m, rfl, before, after, rfl, rfl⟩)
    · exact boundary_zero _
    · exact ⟨c :: before, after, rfl, length_encodeAll_cons c before⟩

/-- The first byte of a character starts it, and the others continue it. -/
lemma encodeChar_eq_cons (c : Char) : ∃ lead tail, String.utf8EncodeChar c = lead :: tail ∧
    isTail lead = false ∧ ∀ b ∈ tail, isTail b = true := by
  have hnot : ∀ b : UInt8, (b.toNat < 0x80 ∨ 0xBF < b.toNat) → isTail b = false := by
    intro b hb
    rw [Bool.eq_false_iff, Ne, isTail_iff]
    omega
  simp only [String.utf8EncodeChar]
  split
  · refine ⟨_, _, rfl, hnot _ ?_, by simp⟩
    rw [UInt8.toNat_ofNat']
    omega
  split
  · refine ⟨_, _, rfl, hnot _ ?_, ?_⟩
    · rw [UInt8.toNat_ofNat']
      omega
    · simp only [isTail_iff, List.mem_cons, List.not_mem_nil, or_false, forall_eq,
        UInt8.toNat_ofNat']
      omega
  split
  · refine ⟨_, _, rfl, hnot _ ?_, ?_⟩
    · rw [UInt8.toNat_ofNat']
      omega
    · simp only [isTail_iff, List.mem_cons, List.not_mem_nil, or_false, forall_eq_or_imp, forall_eq,
        UInt8.toNat_ofNat']
      omega
  · refine ⟨_, _, rfl, hnot _ ?_, ?_⟩
    · rw [UInt8.toNat_ofNat']
      omega
    · simp only [isTail_iff, List.mem_cons, List.not_mem_nil, or_false, forall_eq_or_imp, forall_eq,
        UInt8.toNat_ofNat']
      omega

namespace Checked

lemma isBoundary_zero (bytes : Bytes) : isBoundary bytes 0 = true := by
  cases bytes <;> rfl

/-- Behind a character it makes no difference that there is one before. -/
lemma isBoundary_encodeChar_append (c : Char) (cs : List Char) (m : Nat) :
    isBoundary (String.utf8EncodeChar c ++ encodeAll cs) (c.utf8Size + m)
      = isBoundary (encodeAll cs) m := by
  have hlength := String.length_utf8EncodeChar c
  have hpos := c.utf8Size_pos
  rw [isBoundary, isBoundary, List.getElem?_append_right (by omega), hlength,
    Nat.add_sub_cancel_left, List.length_append, hlength]
  cases hbyte : (encodeAll cs)[m]? with
  | none => simp
  | some b =>
      cases m with
      | succ m => simp
      | zero =>
          -- the byte is the first of the next character
          cases cs with
          | nil => simp at hbyte
          | cons d cs =>
              obtain ⟨lead, tail, hd, hlead, -⟩ := encodeChar_eq_cons d
              rw [encodeAll_cons, hd, List.cons_append, List.getElem?_cons_zero,
                Option.some.injEq] at hbyte
              subst hbyte
              simp [hlead]

/-- **The byte at a position shows whether a character goes on there.** -/
lemma isBoundary_iff : isBoundary (encodeAll cs) i = true ↔ Boundary cs i := by
  induction cs generalizing i with
  | nil =>
      have hnil : Boundary [] i ↔ i = 0 := by
        constructor
        · intro h
          exact Nat.le_zero.mp h.le_length
        · rintro rfl
          exact boundary_zero []
      rw [hnil]
      exact decide_eq_true_iff
  | cons c cs ih =>
      have hlength := String.length_utf8EncodeChar c
      rw [boundary_cons_iff, encodeAll_cons]
      rcases Nat.lt_or_ge i c.utf8Size with hlt | hge
      · obtain ⟨lead, tail, hc, -, htail⟩ := encodeChar_eq_cons c
        cases i with
        | zero => simp [isBoundary_zero]
        | succ i =>
            -- within the character there are only bytes that continue it
            rw [hc, List.length_cons] at hlength
            have hi : i < tail.length := by omega
            have hbyte : (String.utf8EncodeChar c ++ encodeAll cs)[i + 1]? = some tail[i] := by
              rw [hc, List.cons_append, List.getElem?_cons_succ, List.getElem?_append_left hi,
                List.getElem?_eq_getElem hi]
            have htrue := htail _ (List.getElem_mem hi)
            constructor
            · intro h
              simp [isBoundary, hbyte, htrue] at h
            · rintro (h | ⟨m, h, -⟩)
              · omega
              · omega
      · obtain ⟨m, rfl⟩ := Nat.exists_eq_add_of_le hge
        rw [isBoundary_encodeChar_append, ih]
        constructor
        · exact fun h => Or.inr ⟨m, rfl, h⟩
        · rintro (h | ⟨m', h, hm⟩)
          · have hpos := c.utf8Size_pos
            omega
          · obtain rfl : m' = m := by omega
            exact hm

/-! ## Finding a boundary -/

/-- **The way down ends at the greatest boundary that is not above.** -/
theorem isGreatest_boundaryBelow? (cs : List Char) (i : Nat) :
    ∃ n, boundaryBelow? (encodeAll cs) i = some n ∧ IsGreatest {n | n ≤ i ∧ Boundary cs n} n := by
  induction i with
  | zero =>
      refine ⟨0, by rw [boundaryBelow?, if_pos (isBoundary_zero _)], ?_⟩
      exact ⟨⟨Nat.le_refl 0, boundary_zero cs⟩, fun _ hm => hm.1⟩
  | succ i ih =>
      rw [boundaryBelow?]
      split
      next h => exact ⟨i + 1, rfl, ⟨Nat.le_refl _, isBoundary_iff.mp h⟩, fun _ hm => hm.1⟩
      next h =>
        obtain ⟨n, hn, ⟨hle, hboundary⟩, hupper⟩ := ih
        refine ⟨n, hn, ⟨Nat.le_succ_of_le hle, hboundary⟩, ?_⟩
        rintro m ⟨hm, hmboundary⟩
        refine hupper ⟨?_, hmboundary⟩
        rcases Nat.le_succ_iff.mp hm with hm | rfl
        · exact hm
        · exact absurd (isBoundary_iff.mpr hmboundary) h

lemma suffix?_encodeAll (before after : List Char) :
    suffix? (encodeAll (before ++ after)) (encodeAll before).length = some (encodeAll after) := by
  rw [suffix?, if_pos (isBoundary_iff.mpr (boundary_append before after)), encodeAll_append,
    List.drop_left]

end Checked

end BraceExpansion.Utf8
