import BraceExpansion.Text.Quoted
import Mathlib.Tactic.Lemma
import Mathlib.Tactic.SplitIfs

/-!
# Quoted text can be read back

What stands between quotes in a dump is one character behind the other, each as it is or behind a
backslash.  `Quoted.unescape?` reads one character, and finds what was written (`unescape?_escaped`).

* `Quoted.hexValue` — the number that hexadecimal digits stand for.
* **`Quoted.text_inj`**, **`Quoted.character_inj`** — different strings and characters are shown in
  different ways.
* `Quoted.lineFeed_not_mem_text`, `Quoted.lineFeed_not_mem_character` — all in one line.
-/

namespace BraceExpansion.Quoted

variable {quote c d : Char} {n : Nat} {rest : List Char}

/-! ## Numbers -/

/-- The value of a digit in lower-case hexadecimal. -/
def hexDigit (c : Char) : Nat := if c.isDigit then c.toNat - 0x30 else c.toNat - 0x57

/-- The number that digits stand for, from left to right. -/
def hexValue (digits : List Char) : Nat := digits.foldl (fun n c => 16 * n + hexDigit c) 0

lemma hexDigit_digitChar :
    ∀ n < 16, hexDigit n.digitChar = n ∧ '0' ≤ n.digitChar ∧ n.digitChar ≤ 'f' := by decide

/-- **The digits of a number stand for it**, and all of them are characters from `0` to `f`. -/
lemma hexValue_toDigits (n : Nat) :
    hexValue (Nat.toDigits 16 n) = n ∧ ∀ c ∈ Nat.toDigits 16 n, '0' ≤ c ∧ c ≤ 'f' := by
  induction n using Nat.strongRecOn with
  | ind n ih =>
      rcases Nat.lt_or_ge n 16 with hlt | hge
      · obtain ⟨hvalue, hbounds⟩ := hexDigit_digitChar n hlt
        rw [Nat.toDigits_of_lt_base hlt]
        exact ⟨by simp [hexValue, hvalue], by simpa using hbounds⟩
      · obtain ⟨hvalue, hbounds⟩ := hexDigit_digitChar (n % 16) (Nat.mod_lt n (by decide))
        obtain ⟨hfront, hall⟩ := ih (n / 16) (by omega)
        rw [Nat.toDigits_of_base_le (by decide) hge]
        refine ⟨?_, List.forall_mem_append.mpr ⟨hall, by simpa using hbounds⟩⟩
        rw [hexValue] at hfront
        rw [hexValue, List.foldl_append, hfront, List.foldl_cons, List.foldl_nil, hvalue]
        omega

/-! ## One character -/

/-- The character at the front, and what stands behind it; nothing at the closing quote. -/
def unescape? (quote : Char) : List Char → Option (Char × List Char)
  | '\\' :: '0' :: rest => some ('\x00', rest)
  | '\\' :: 't' :: rest => some ('\t', rest)
  | '\\' :: 'r' :: rest => some ('\r', rest)
  | '\\' :: 'n' :: rest => some ('\n', rest)
  | '\\' :: 'u' :: '\x7b' :: rest =>
    some (Char.ofNat (hexValue (rest.takeWhile (· != '\x7d'))),
      (rest.dropWhile (· != '\x7d')).drop 1)
  | '\\' :: c :: rest => some (c, rest)
  | c :: rest => if c = quote then none else some (c, rest)
  | [] => none

/-- The two marks that quoted text stands between. -/
def IsMark (quote : Char) : Prop := quote = '"' ∨ quote = '\''

lemma unescape?_mark (hquote : IsMark quote) (rest : List Char) :
    unescape? quote (quote :: rest) = none := by
  rcases hquote with rfl | rfl
  · rfl
  · rfl

lemma unescape?_backslash (h : c = '\\' ∨ IsMark c) (rest : List Char) :
    unescape? quote ('\\' :: c :: rest) = some (c, rest) := by
  rcases h with rfl | rfl | rfl
  · rfl
  · rfl
  · rfl

lemma unescape?_shown (hslash : c ≠ '\\') (hquote : c ≠ quote) (rest : List Char) :
    unescape? quote (c :: rest) = some (c, rest) := by
  rw [unescape?.eq_def]
  split
  all_goals simp_all

lemma unescape?_byNumber (c : Char) (rest : List Char) :
    unescape? quote ((byNumber c).toList ++ rest) = some (c, rest) := by
  obtain ⟨hvalue, hbounds⟩ := hexValue_toDigits c.toNat
  have htext : (byNumber c).toList ++ rest
      = '\\' :: 'u' :: '\x7b' :: (Nat.toDigits 16 c.toNat ++ '\x7d' :: rest) := by
    simp [byNumber]
  have hdigits : ∀ d ∈ Nat.toDigits 16 c.toNat, (d != '\x7d') = true := by
    intro d hd
    rw [bne_iff_ne]
    rintro rfl
    exact absurd (hbounds _ hd).2 (by decide)
  rw [htext, unescape?, List.takeWhile_append_of_pos hdigits, List.dropWhile_append_of_pos hdigits]
  simp [hvalue]

/-- **An escaped character is read back.** -/
theorem unescape?_escaped (hquote : IsMark quote) (c : Char) (rest : List Char) :
    unescape? quote ((escaped quote c).toList ++ rest) = some (c, rest) := by
  rw [escaped]
  split_ifs with hnull htab hreturn hfeed hslash hshown
  · rw [hnull]; rfl
  · rw [htab]; rfl
  · rw [hreturn]; rfl
  · rw [hfeed]; rfl
  · rw [Bool.or_eq_true, decide_eq_true_eq, decide_eq_true_eq] at hslash
    simpa using unescape?_backslash (hslash.imp_right fun heq => heq ▸ hquote) rest
  · rw [Bool.or_eq_true, decide_eq_true_eq, decide_eq_true_eq, not_or] at hslash
    simpa using unescape?_shown hslash.1 hslash.2 rest
  · exact unescape?_byNumber c rest

lemma escaped_inj (hquote : IsMark quote) {text text' : List Char}
    (h : (escaped quote c).toList ++ text = (escaped quote d).toList ++ text') :
    c = d ∧ text = text' := by
  have hread := unescape?_escaped hquote c text
  rw [h, unescape?_escaped hquote d text', Option.some.injEq, Prod.mk.injEq] at hread
  exact ⟨hread.1.symm, hread.2.symm⟩

/-! ## Whole texts -/

lemma toList_text (s : String) : (text s).toList
    = '"' :: s.toList.flatMap (fun c => (escaped '"' c).toList) ++ ['"'] := by
  have hfold : ∀ (cs : List Char) (shown : String),
      (cs.foldl (fun shown c => shown ++ escaped '"' c) shown).toList
        = shown.toList ++ cs.flatMap fun c => (escaped '"' c).toList := by
    intro cs
    induction cs with
    | nil => simp
    | cons c cs ih => simp [ih]
  rw [text, String.toList_push, hfold]
  rfl

/-- **Different strings are shown in different ways.** -/
theorem text_inj {s t : String} (h : text s = text t) : s = t := by
  have hquote : IsMark '"' := Or.inl rfl
  have hchars : ∀ cs ds : List Char,
      cs.flatMap (fun c => (escaped '"' c).toList) ++ ['"']
        = ds.flatMap (fun d => (escaped '"' d).toList) ++ ['"'] → cs = ds := by
    -- at the closing quote no character is read
    have hend : ∀ (c : Char) (cs : List Char),
        (c :: cs).flatMap (fun c => (escaped '"' c).toList) ++ ['"'] ≠ ['"'] := by
      intro c cs heq
      have hread := congrArg (unescape? '"') heq
      rw [List.flatMap_cons, List.append_assoc, unescape?_escaped hquote,
        unescape?_mark hquote] at hread
      cases hread
    intro cs
    induction cs with
    | nil =>
        intro ds heq
        cases ds with
        | nil => rfl
        | cons d ds => exact absurd heq.symm (hend d ds)
    | cons c cs ih =>
        intro ds heq
        cases ds with
        | nil => exact absurd heq (hend c cs)
        | cons d ds =>
            rw [List.flatMap_cons, List.flatMap_cons, List.append_assoc, List.append_assoc] at heq
            obtain ⟨rfl, hrest⟩ := escaped_inj hquote heq
            rw [ih ds hrest]
  have htext := congrArg String.toList h
  rw [toList_text, toList_text, List.cons_append, List.cons_append, List.cons.injEq] at htext
  exact String.toList_inj.mp (hchars _ _ htext.2)

lemma toList_character (c : Char) :
    (character c).toList = '\'' :: (escaped '\'' c).toList ++ ['\''] := by
  simp [character]

/-- **Different characters are shown in different ways**, and one ends where the other does. -/
theorem character_inj {text text' : List Char}
    (h : (character c).toList ++ text = (character d).toList ++ text') : c = d ∧ text = text' := by
  have hquote : IsMark '\'' := Or.inr rfl
  simp only [toList_character, List.cons_append, List.append_assoc, List.cons.injEq, true_and] at h
  obtain ⟨rfl, hrest⟩ := escaped_inj hquote h
  exact ⟨rfl, (List.cons.inj hrest).2⟩

/-! ## One line -/

lemma lineFeed_not_mem_escaped (quote c : Char) : '\n' ∉ (escaped quote c).toList := by
  rw [escaped]
  split_ifs with hnull htab hreturn hfeed hslash hshown
  · decide
  · decide
  · decide
  · decide
  · simp [Ne.symm hfeed]
  · simp [Ne.symm hfeed]
  · have hdigits : '\n' ∉ Nat.toDigits 16 c.toNat := fun hmem =>
      absurd ((hexValue_toDigits c.toNat).2 _ hmem).1 (by decide)
    simp [byNumber, hdigits]

/-- **A string is shown in one line.** -/
lemma lineFeed_not_mem_text (s : String) : '\n' ∉ (text s).toList := by
  rw [toList_text]
  simp [lineFeed_not_mem_escaped]

/-- **A character is shown in one line.** -/
lemma lineFeed_not_mem_character (c : Char) : '\n' ∉ (character c).toList := by
  rw [toList_character]
  simp [lineFeed_not_mem_escaped]

end BraceExpansion.Quoted
