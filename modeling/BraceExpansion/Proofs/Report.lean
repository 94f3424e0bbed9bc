import BraceExpansion.Error.Report
import BraceExpansion.Proofs.Strict
import BraceExpansion.Proofs.Text.Boundary

/-!
# The marked place

A report can be made on any text, whatever error it is about and whatever text that came from.

**The place.**  `Excerpt.ofOffset` works on characters.  `Excerpt.Checked.span` finds the place on
bytes and takes nothing for granted: it goes down from the offset, or from the end of the text, to a
boundary, cuts the text there and reads one character.  It cannot fail, and both find the same
(`Excerpt.span_eq`).

**The error.**  What strict reading rejects stands where it says.  A quote is open where a scan has
seen it (`Scan.quote_foldl`), and a backslash that protects nothing is the last character.  A text
that is too long has characters on both sides of the last offset, or one around it; then, and only
then, the place is not at the offset.

**`PatternError.ofOffset_marks`** is both.
-/

namespace BraceExpansion

variable {cs before after : List Char} {c : Char} {n offset : Nat}

open Utf8 (Boundary)

/-! ## The place -/

lemma Window.byteCount_eq (cs : List Char) : byteCount cs = (Utf8.encodeAll cs).length := by
  have hsum : ∀ n, cs.foldl (fun n c => n + c.utf8Size) n = n + (Utf8.encodeAll cs).length := by
    induction cs with
    | nil => exact fun _ => rfl
    | cons c cs ih =>
        intro n
        rw [List.foldl_cons, ih, Utf8.length_encodeAll_cons, Nat.add_assoc]
  rw [byteCount, hsum, Nat.zero_add]

namespace Excerpt

namespace Checked

/-- Where the marked character starts and ends, for an offset into the bytes of a text; none if
there is no boundary below or the text cannot be cut there. -/
def span (bytes : Bytes) (offset : Nat) : Option (Nat × Nat) := do
  let start ← Utf8.Checked.boundaryBelow? bytes (min offset bytes.length)
  let rest ← Utf8.Checked.suffix? bytes start
  match Utf8.decodeChar? rest with
  | some c => some (start, start + c.utf8Size)
  | none => some (start, start)

end Checked

lemma splitAt_append (offset : Nat) (cs : List Char) :
    (splitAt offset cs).1 ++ (splitAt offset cs).2 = cs := by
  induction cs generalizing offset with
  | nil => rfl
  | cons c cs ih =>
      rw [splitAt]
      split
      · exact congrArg (c :: ·) (ih _)
      · rfl

/-- The split is at the greatest boundary that is not above the offset. -/
lemma isGreatest_splitAt (offset : Nat) (cs : List Char) :
    IsGreatest {n | n ≤ offset ∧ Boundary cs n} (Utf8.encodeAll (splitAt offset cs).1).length := by
  induction cs generalizing offset with
  | nil => exact ⟨⟨Nat.zero_le _, Utf8.boundary_zero []⟩, fun _ h => h.2.le_length⟩
  | cons c cs ih =>
      rw [splitAt]
      split
      next hle =>
        obtain ⟨⟨hbelow, hboundary⟩, hupper⟩ := ih (offset - c.utf8Size)
        change IsGreatest _ (Utf8.encodeAll (c :: (splitAt (offset - c.utf8Size) cs).1)).length
        rw [Utf8.length_encodeAll_cons]
        refine ⟨⟨by omega, Utf8.boundary_cons_iff.mpr (Or.inr ⟨_, rfl, hboundary⟩)⟩, ?_⟩
        rintro n ⟨hn, hnboundary⟩
        rcases Utf8.boundary_cons_iff.mp hnboundary with rfl | ⟨m, rfl, hm⟩
        · exact Nat.zero_le _
        · exact Nat.add_le_add_left (hupper ⟨by omega, hm⟩) _
      next hlt =>
        refine ⟨⟨Nat.zero_le _, Utf8.boundary_zero _⟩, ?_⟩
        rintro n ⟨hn, hnboundary⟩
        rcases Utf8.boundary_cons_iff.mp hnboundary with rfl | ⟨m, rfl, -⟩
        · exact Nat.le_refl _
        · omega

/-- The split is before the character that an offset lies within. -/
lemma splitAt_within (hle : (Utf8.encodeAll before).length ≤ offset)
    (hlt : offset < (Utf8.encodeAll before).length + c.utf8Size) :
    splitAt offset (before ++ c :: after) = (before, c :: after) := by
  induction before generalizing offset with
  | nil =>
      rw [Utf8.encodeAll_nil, List.length_nil, Nat.zero_add] at hlt
      rw [List.nil_append, splitAt, if_neg (Nat.not_le.mpr hlt)]
  | cons b before ih =>
      rw [Utf8.length_encodeAll_cons] at hle hlt
      rw [List.cons_append, splitAt, if_pos (by omega), ih (by omega) (by omega)]

variable {text : String}

lemma start_eq (e : Excerpt) : e.start = (Utf8.encodeAll e.before).length :=
  Window.byteCount_eq e.before

lemma before_append_after (text : String) (offset : Nat) :
    (ofOffset text offset).before ++ (ofOffset text offset).after = text.toList :=
  splitAt_append offset text.toList

/-- The place starts at the greatest boundary that is neither above the offset nor behind the
text. -/
lemma isGreatest_start (text : String) (offset : Nat) :
    IsGreatest {n | n ≤ min offset (Utf8.encode text).length ∧ Boundary text.toList n}
      (ofOffset text offset).start := by
  rw [start_eq, Utf8.encode_eq]
  obtain ⟨⟨hle, hboundary⟩, hupper⟩ := isGreatest_splitAt offset text.toList
  refine ⟨⟨Nat.le_min.mpr ⟨hle, hboundary.le_length⟩, hboundary⟩, ?_⟩
  rintro n ⟨hn, hnboundary⟩
  exact hupper ⟨(Nat.le_min.mp hn).1, hnboundary⟩

/-- **Nothing fails on the way to the place.** -/
theorem span_eq (text : String) (offset : Nat) :
    Checked.span (Utf8.encode text) offset
      = some ((ofOffset text offset).start, (ofOffset text offset).stop) := by
  obtain ⟨n, hn, hgreatest⟩ := Utf8.Checked.isGreatest_boundaryBelow? text.toList
    (min offset (Utf8.encode text).length)
  obtain rfl := hgreatest.unique (isGreatest_start text offset)
  have hrest := Utf8.Checked.suffix?_encodeAll (ofOffset text offset).before
    (ofOffset text offset).after
  rw [before_append_after, ← start_eq] at hrest
  rw [← Utf8.encode_eq] at hn hrest
  simp only [Checked.span, hn, hrest, Option.bind_eq_bind, Option.bind_some,
    Utf8.decodeChar?_encodeAll]
  rw [stop]
  cases (ofOffset text offset).after <;> rfl

lemma stop_eq (e : Excerpt) : e.stop = e.start + e.after.head?.elim 0 Char.utf8Size := by
  rw [stop]
  cases e.after <;> rfl

/-- The offset lies within the marked character, if it lies within the text. -/
lemma lt_stop (h : offset < (Utf8.encode text).length) : offset < (ofOffset text offset).stop := by
  have hsplit := before_append_after text offset
  have hstart := start_eq (ofOffset text offset)
  rw [stop]
  split
  next hafter =>
    rwa [hstart, ← (ofOffset text offset).before.append_nil, ← hafter, hsplit, ← Utf8.encode_eq]
  next c after hafter =>
    by_contra hge
    -- behind the marked character is a boundary that is not above the offset either
    have hboundary : Boundary text.toList ((ofOffset text offset).start + c.utf8Size) := by
      refine ⟨(ofOffset text offset).before ++ [c], after, ?_, ?_⟩
      · rw [List.append_assoc, List.singleton_append, ← hafter, hsplit]
      · rw [Utf8.encodeAll_append, List.length_append, hstart, Utf8.length_encodeAll_cons]
        rfl
    have hlength := hboundary.le_length
    rw [← Utf8.encode_eq] at hlength
    have hle := (isGreatest_start text offset).2 ⟨Nat.le_min.mpr ⟨by omega, hlength⟩, hboundary⟩
    have hpos := c.utf8Size_pos
    omega

/-- The place is before the character that an offset lies within. -/
lemma ofOffset_within (h : text.toList = before ++ c :: after)
    (hle : (Utf8.encodeAll before).length ≤ offset)
    (hlt : offset < (Utf8.encodeAll before).length + c.utf8Size) :
    ofOffset text offset = ⟨before, c :: after⟩ := by
  rw [ofOffset, h, splitAt_within hle hlt]

/-- The place starts at the offset if that is a boundary, and only then. -/
lemma start_eq_offset_iff :
    (ofOffset text offset).start = offset ↔ Boundary text.toList offset := by
  obtain ⟨⟨hle, hboundary⟩, hupper⟩ := isGreatest_start text offset
  constructor
  · intro h
    rwa [h] at hboundary
  · intro h
    have hlength := h.le_length
    rw [← Utf8.encode_eq] at hlength
    have hmin : offset ≤ min offset (Utf8.encode text).length :=
      Nat.le_min.mpr ⟨Nat.le_refl _, hlength⟩
    exact Nat.le_antisymm (Nat.le_min.mp hle).1 (hupper ⟨hmin, h⟩)

end Excerpt

/-! ## The error -/

namespace Scan

variable {options : CompileOptions} {q : Char}

/-- A quote is open where a scan has seen it. -/
lemma quote_foldl (h : (cs.foldl (step options) {}).quote = some (offset, q)) :
    ∃ before after, cs = before ++ q :: after ∧ offset = (Utf8.encodeAll before).length := by
  induction cs using List.reverseRecOn with
  | nil => cases h
  | append_singleton cs c ih =>
      -- a quote that was open before goes on being open there
      have hbefore : (cs.foldl (step options) {}).quote = some (offset, q) →
          ∃ before after, cs ++ [c] = before ++ q :: after ∧
            offset = (Utf8.encodeAll before).length := by
        intro hquote
        obtain ⟨before, after, rfl, hoffset⟩ := ih hquote
        exact ⟨before, after ++ [c], by rw [List.append_assoc, List.cons_append], hoffset⟩
      rw [List.foldl_append, List.foldl_cons, List.foldl_nil, step] at h
      split_ifs at h with hescaped hbackslash hquotes
      · exact hbefore h
      · exact hbefore h
      · split at h
        next hnone =>
          cases h
          refine ⟨cs, [], rfl, ?_⟩
          rw [offset_foldl]
          exact Nat.zero_add _
        next start opened hopen =>
          dsimp only at h
          split_ifs at h
          exact hbefore (hopen.trans h)
      · exact hbefore h

end Scan

/-- What strict reading has against a string stands in it. -/
lemma strictError?_cases {options : CompileOptions} {text : String} {e : PatternError}
    (h : strictError? options text = some e) :
    ∃ before c after, text.toList = before ++ c :: after ∧
      (e = .trailingEscape (Utf8.encodeAll before).length ∧ c = '\x5C' ∧ after = [] ∨
        e = .unterminatedQuote (Utf8.encodeAll before).length c) := by
  rw [strictError?] at h
  split at h
  next hodd =>
    obtain rfl := Option.some.inj h
    have hodd := hodd.2
    -- an odd number of backslashes is at least one
    cases hreverse : text.toList.reverse with
    | nil =>
        rw [Scan.trailingBackslashes, hreverse] at hodd
        exact absurd hodd (by decide)
    | cons c rest =>
        have hc : c = '\x5C' := by
          by_contra hc
          rw [Scan.trailingBackslashes, hreverse, List.takeWhile_cons_of_neg (by simpa using hc)]
            at hodd
          exact absurd hodd (by decide)
        have hsplit : text.toList = rest.reverse ++ c :: [] := by
          rw [← List.reverse_cons, ← hreverse, List.reverse_reverse]
        subst hc
        refine ⟨_, _, _, hsplit, Or.inl ⟨?_, rfl, rfl⟩⟩
        rw [Utf8.encode_eq, hsplit, Utf8.encodeAll_append, List.length_append]
        rfl
  next =>
    obtain ⟨⟨offset, q⟩, hquote, rfl⟩ := Option.map_eq_some_iff.mp h
    obtain ⟨before, after, hsplit, rfl⟩ := Scan.quote_foldl hquote
    exact ⟨before, q, after, hsplit, Or.inr rfl⟩

namespace Compiler

variable {options : CompileOptions} {text : String} {e : PatternError}

/-- Strict reading of a string fails with what it has against the string. -/
lemma compile_eq_error_iff (hstrict : options.strict = true)
    (hlength : (Utf8.encode text).length ≤ maxPatternLength) :
    BraceExpansion.compile options (Utf8.encode text) = .error e ↔
      strictError? options text = some e := by
  have hs : Scanner.ofPattern (new options).options (Utf8.encode text)
      = .ok ⟨{ options with strict := true }, Utf8.encode text, 0, none⟩ := by
    rw [Scanner.ofPattern, if_neg (Nat.not_lt.mpr hlength), ← hstrict]
    rfl
  rcases Scanner.exists_reads ⟨{ options with strict := true }, Utf8.encode text, 0, none⟩ with
    ⟨ts, s', hreads, hends⟩
  rw [BraceExpansion.compile, compile_of_reads hs hreads hends,
    ← (hreads.failure?_eq hends).2 text rfl]
  cases s'.failure? with
  | none => simp
  | some e' => simp

end Compiler

/-! ## Both -/

namespace Excerpt

/-- The mark is on what an error is about.  The last offset there is can lie within a character, and
then it is that character. -/
def Marks (place : Excerpt) : PatternError → Prop
  | .invalidEncoding _ => False
  | .trailingEscape offset => place.start = offset ∧ place.after = ['\x5C']
  | .unterminatedQuote offset quote => place.start = offset ∧ place.after.head? = some quote
  | .tooLong _ => place.start ≤ maxPatternLength ∧ maxPatternLength < place.stop

/-- What strict reading has against a string is marked, and there is something to mark. -/
lemma marks_strictError? {options : CompileOptions} {text : String} {e : PatternError}
    (h : strictError? options text = some e) :
    (ofOffset text e.offset).start < (Utf8.encode text).length ∧
      (ofOffset text e.offset).Marks e := by
  obtain ⟨before, c, after, hsplit, hcases⟩ := strictError?_cases h
  have hpos := c.utf8Size_pos
  have hlt : (Utf8.encodeAll before).length < (Utf8.encode text).length := by
    rw [Utf8.encode_eq, hsplit, Utf8.encodeAll_append, List.length_append,
      Utf8.length_encodeAll_cons]
    omega
  have hplace : ofOffset text (Utf8.encodeAll before).length = ⟨before, c :: after⟩ :=
    ofOffset_within hsplit (Nat.le_refl _) (by omega)
  have hstart : (ofOffset text (Utf8.encodeAll before).length).start
      = (Utf8.encodeAll before).length := by
    rw [hplace, start_eq]
  rcases hcases with ⟨rfl, rfl, rfl⟩ | rfl
  · exact ⟨hstart.trans_lt hlt, hstart, by rw [PatternError.offset, hplace]⟩
  · exact ⟨hstart.trans_lt hlt, hstart, by rw [PatternError.offset, hplace]; rfl⟩

/-- A text that is too long has a character at the last offset, and that is marked. -/
lemma marks_tooLong {text : String} (hlong : maxPatternLength < (Utf8.encode text).length)
    (n : Nat) :
    (ofOffset text maxPatternLength).start < (Utf8.encode text).length ∧
      (ofOffset text maxPatternLength).Marks (.tooLong n) := by
  have hle : (ofOffset text maxPatternLength).start ≤ maxPatternLength :=
    (Nat.le_min.mp (isGreatest_start text maxPatternLength).1.1).1
  exact ⟨Nat.lt_of_le_of_lt hle hlong, hle, lt_stop hlong⟩

end Excerpt

/-- **The place of an error can be found on every text, and starts at the last boundary that is not
above the offset.**  If the error is what strict reading of this text ends with, the mark is on what
the error is about. -/
theorem PatternError.ofOffset_marks (e : PatternError) (text : String) :
    let place := Excerpt.ofOffset text e.offset
    Excerpt.Checked.span (Utf8.encode text) e.offset = some (place.start, place.stop) ∧
      IsGreatest {n | n ≤ min e.offset (Utf8.encode text).length ∧ Boundary text.toList n}
        place.start ∧
      text.toList = place.before ++ place.after ∧
      place.start = (Utf8.encodeAll place.before).length ∧
      place.stop = place.start + place.after.head?.elim 0 Char.utf8Size ∧
      ∀ options : CompileOptions, options.strict = true →
        compile options (Utf8.encode text) = .error e →
          place.start < (Utf8.encode text).length ∧
            (place.start = e.offset ↔ Boundary text.toList e.offset) ∧ place.Marks e := by
  intro place
  refine ⟨Excerpt.span_eq text e.offset, Excerpt.isGreatest_start text e.offset,
    (Excerpt.before_append_after text e.offset).symm, place.start_eq, place.stop_eq, ?_⟩
  intro options hstrict hcompile
  have hmarks : place.start < (Utf8.encode text).length ∧ place.Marks e := by
    rcases Nat.lt_or_ge maxPatternLength (Utf8.encode text).length with hlong | hlength
    · rw [compile_tooLong hlong, Except.error.injEq] at hcompile
      subst hcompile
      exact Excerpt.marks_tooLong hlong _
    · exact Excerpt.marks_strictError? ((Compiler.compile_eq_error_iff hstrict hlength).mp hcompile)
  exact ⟨hmarks.1, Excerpt.start_eq_offset_iff, hmarks.2⟩

/-- A quote that is opened behind a character of two bytes, and a backslash at the end behind one of
three. -/
theorem PatternError.ofOffset_marks_multibyte :
    let opened : PatternError := .unterminatedQuote 2 '\x27'
    let slash : PatternError := .trailingEscape 3
    compile { strict := true } (Utf8.encode "é'ü") = .error opened ∧
      (Excerpt.ofOffset "é'ü" opened.offset).Marks opened ∧
      compile { strict := true } (Utf8.encode "€\\") = .error slash ∧
      (Excerpt.ofOffset "€\\" slash.offset).Marks slash := by
  intro opened slash
  have hopen : compile { strict := true } (Utf8.encode "é'ü") = .error opened :=
    (Compiler.compile_eq_error_iff rfl (by decide)).mpr (by decide +kernel)
  have hslash : compile { strict := true } (Utf8.encode "€\\") = .error slash :=
    (Compiler.compile_eq_error_iff rfl (by decide)).mpr (by decide +kernel)
  obtain ⟨-, -, -, -, -, hmarks⟩ := opened.ofOffset_marks "é'ü"
  obtain ⟨-, -, -, -, -, hmarks'⟩ := slash.ofOffset_marks "€\\"
  exact ⟨hopen, (hmarks _ rfl hopen).2.2, hslash, (hmarks' _ rfl hslash).2.2⟩

/-- A text of one byte too many, whose last character has the last offset between its two bytes: the
place starts before the offset. -/
theorem PatternError.start_ne_offset_within_character :
    let text := String.ofList (List.replicate 4294967294 'a' ++ ['é'])
    let e : PatternError := .tooLong 4294967296
    compile { strict := true } (Utf8.encode text) = .error e ∧ e.offset = 4294967295 ∧
      Excerpt.Checked.span (Utf8.encode text) e.offset = some (4294967294, 4294967296) ∧
      (Excerpt.ofOffset text e.offset).start ≠ e.offset := by
  intro text e
  have hsplit : text.toList = List.replicate 4294967294 'a' ++ 'é' :: [] := String.toList_ofList
  have hbefore : (Utf8.encodeAll (List.replicate 4294967294 'a')).length = 4294967294 :=
    Utf8.length_encodeAll_replicate 4294967294 'a'
  have hsize : 'é'.utf8Size = 2 := rfl
  have hlength : (Utf8.encode text).length = 4294967296 := by
    rw [Utf8.encode_eq, hsplit, Utf8.encodeAll_append, List.length_append, hbefore,
      Utf8.length_encodeAll_cons, hsize]
    rfl
  have hoffset : e.offset = 4294967295 := rfl
  have hplace : Excerpt.ofOffset text e.offset = ⟨List.replicate 4294967294 'a', ['é']⟩ :=
    Excerpt.ofOffset_within hsplit (by omega) (by omega)
  have hstart : (Excerpt.ofOffset text e.offset).start = 4294967294 := by
    rw [hplace, Excerpt.start_eq, hbefore]
  have hstop : (Excerpt.ofOffset text e.offset).stop = 4294967296 := by
    rw [Excerpt.stop_eq, hstart, hplace]
    rfl
  refine ⟨?_, hoffset, ?_, by omega⟩
  · rw [compile_tooLong (by rw [hlength]; decide), hlength]
  · rw [Excerpt.span_eq, hstart, hstop]

end BraceExpansion
