import BraceExpansion.Proofs.Compiler.Finish
import BraceExpansion.Proofs.Compiler.Frames
import BraceExpansion.Proofs.Draft.Checked

/-!
# The compiler that looks before it reaches

`Checked.compile` is `Compiler.compile` with nothing taken for granted.  On top of what checked stacks
check, it gives up where

* the text of a token is not part of the pattern (`Checked.source`),
* a counter of a block would overflow (`Checked.increment`),
* the position of an open quote is off the stack (`Checked.quote`, `Checked.settled`),
* there is not exactly one draft at the end, or there is punctuation in it (`Checked.finish`).

None of this happens to a compiler that shows a reading: its slots exist, its blocks start on the
stack, and what is open at the end is there.  `step_checked` and `finish_checked` say so for the two
things a compiler does.
-/

namespace BraceExpansion

namespace Compiler

namespace Checked

/-- The largest unsigned counter. -/
def maxUnsigned : Nat := 4294967295

/-- The largest signed counter. -/
def maxSigned : Nat := 2147483647

/-- A counter that counts one more, up to a limit. -/
def increment (limit n : Nat) : Option Nat := if n < limit then some (n + 1) else none

/-- The text of a token, taken from the pattern. -/
def source (pattern : Bytes) (t : Token) : Option Bytes :=
  if t.start + t.text.length ≤ pattern.length then
    some ((pattern.drop t.start).take t.text.length)
  else none

/-! ## Tokens -/

def literal (c : Compiler) (text : Bytes) : Option Compiler := do
  let work ← WorkStack.Checked.appendLiteral c.work text
  some { c with work := work }

def push (c : Compiler) (d : Draft) : Option Compiler := do
  let work ← WorkStack.Checked.push c.work d
  some { c with work := work }

/-- The position of the quote is that of the last draft. -/
def quote (c : Compiler) (text : Bytes) : Option Compiler := do
  let pushed ← push c (.leaf .quote text.toArray)
  if pushed.work.size = 0 then none
  else
    let openQuote := match c.openQuote with
      | none => some (pushed.work.size - 1)
      | some _ => none
    some { pushed with openQuote := openQuote }

def openBlock (c : Compiler) (text : Bytes) : Option Compiler := do
  let block : Block := { base := c.work.size }
  let pushed ← push c (.mark .opening text.toArray)
  some { pushed with blocks := block :: c.blocks }

def delimiter (c : Compiler) (text : Bytes) : Option Compiler :=
  match c with
  | ⟨options, work, [], openQuote⟩ => literal ⟨options, work, [], openQuote⟩ text
  | ⟨options, work, block :: outer, openQuote⟩ => do
    let delimiters ← increment maxUnsigned block.delimiters
    let demoted := decide (0 < block.separators)
    let work ← if demoted then WorkStack.Checked.demote work (block.base + 1) false else some work
    let block := { block with
      separators := 0
      ranging := block.ranging || demoted
      delimiters := delimiters }
    let work ← WorkStack.Checked.joinSegment work
    let work ← WorkStack.Checked.push work (.mark .delimiter text.toArray)
    some ⟨options, work, block :: outer, openQuote⟩

def rangeSeparator (c : Compiler) (text : Bytes) : Option Compiler :=
  match c with
  | ⟨options, work, [], openQuote⟩ => literal ⟨options, work, [], openQuote⟩ text
  | ⟨options, work, block :: outer, openQuote⟩ =>
    if 0 < block.delimiters || !block.ranging || 2 ≤ block.separators then
      literal ⟨options, work, block :: outer, openQuote⟩ text
    else do
      let size ← WorkStack.Checked.sizeFrom work block.base
      if separates size then
        let separators ← increment maxSigned block.separators
        let block := { block with separators := separators }
        let work ← WorkStack.Checked.push work (.mark .range text.toArray)
        some ⟨options, work, block :: outer, openQuote⟩
      else
        let block := { block with ranging := false }
        literal ⟨options, work, block :: outer, openQuote⟩ text

def closed (options : CompileOptions) (work : WorkStack) (block : Block) (text : Bytes) :
    Option WorkStack :=
  if 0 < block.delimiters then do
    let work ← WorkStack.Checked.joinSegment work
    WorkStack.Checked.gather work .alternate block.base
  else do
    let range ← if block.ranging && 0 < block.separators then
        WorkStack.Checked.closeRange work options block.base
      else some none
    match range with
    | some work => some work
    | none =>
      let work ← WorkStack.Checked.demote work block.base true
      WorkStack.Checked.appendLiteral work text

def closeBlock (c : Compiler) (text : Bytes) : Option Compiler :=
  match c with
  | ⟨options, work, [], openQuote⟩ => literal ⟨options, work, [], openQuote⟩ text
  | ⟨options, work, block :: outer, openQuote⟩ => do
    let work ← closed options work block text
    some ⟨options, work, outer, openQuote⟩

def step (pattern : Bytes) (c : Compiler) (t : Token) : Option Compiler := do
  let text ← source pattern t
  match t.kind with
  | .literal => literal c text
  | .escape => push c (.leaf .escape text.toArray)
  | .quote => quote c text
  | .opening => openBlock c text
  | .delimiter => delimiter c text
  | .range => rangeSeparator c text
  | .closing => closeBlock c text

/-! ## The end of the pattern -/

def settled (c : Compiler) : Option WorkStack := do
  let work ← match c.openQuote with
    | some quote => do
      let id ← c.work.items[quote]?
      let pool ← Pool.Checked.modify c.work.pool id Draft.toLiteral
      some { c.work with pool := pool }
    | none => some c.work
  match c.firstOpen? with
  | some start => WorkStack.Checked.demote work start true
  | none => some work

def finish (c : Compiler) : Option (Tree × Compiler) := do
  let work ← settled c
  let work ← WorkStack.Checked.join work 0
  match work.items.toList with
  | [id] =>
    let (root, forest) ← Pool.Checked.plant work.pool .empty id
    some (forest.toTree root, ⟨c.options, work.clear, [], none⟩)
  | _ => none

def compile (c : Compiler) (pattern : Bytes) : Option (Except PatternError Tree × Compiler) :=
  match Scanner.ofPattern c.options pattern with
  | .error e => some (.error e, c.start)
  | .ok scanner =>
    match scanner.foldTokens (fun c t => c.bind (step pattern · t)) (some c.start) with
    | (c, some e) => c.map fun c => (.error e, c)
    | (c, none) => do
      let c ← c
      let (tree, c) ← finish c
      some (.ok tree, c)

end Checked

variable {c : Compiler} {r : Reading} {text : Bytes}

/-! ## Operations that do not fail -/

lemma literal_checked (h : c.work.Bounded) (text : Bytes) :
    Checked.literal c text = some (c.literal text) := by
  rw [Checked.literal, h.appendLiteral text]
  rfl

lemma push_checked (h : c.work.Bounded) (d : Draft) : Checked.push c d = some (c.push d) := by
  rw [Checked.push, (h.push d).1]
  rfl

lemma quote_checked (h : c.work.Bounded) (text : Bytes) :
    Checked.quote c text = some (c.quote text) := by
  have hsize : (c.push (.leaf .quote text.toArray)).work.size = c.work.size + 1 :=
    WorkStack.size_push _ _
  simp only [Checked.quote, push_checked h, Option.bind_eq_bind, Option.bind_some, hsize]
  cases hquote : c.openQuote <;> simp [Compiler.quote, hquote]

lemma openBlock_checked (h : c.work.Bounded) (text : Bytes) :
    Checked.openBlock c text = some (c.openBlock text) := by
  simp only [Checked.openBlock, push_checked h, Option.bind_eq_bind, Option.bind_some,
    Compiler.openBlock]

section

variable {options : CompileOptions} {work : WorkStack} {block : Block} {outer : List Block}
  {openQuote : Option Nat}

/-- The opening mark of a block is on the stack. -/
lemma base_lt_size (hframes : Frames (block :: outer) work.kinds) : block.base < work.size := by
  rw [← work.length_kinds]
  exact hframes.base_lt List.mem_cons_self

/-- The opening mark of a block is a mark. -/
lemma isMark_base (hframes : Frames (block :: outer) work.kinds) :
    (work.get block.base).isMark = true := by
  have hkind := hframes.opening_iff.mpr ⟨block, List.mem_cons_self, rfl⟩
  have hget : (work.get block.base).kind = .braceOpen := by
    have hitems : block.base < work.items.size := base_lt_size hframes
    simpa [WorkStack.kinds, WorkStack.get, hitems] using hkind
  cases hdraft : work.get block.base with
  | mark m t => rfl
  | leaf k t => rw [hdraft] at hget; cases k <;> cases hget
  | range k p => rw [hdraft] at hget; cases k <;> cases hget
  | list k members => rw [hdraft] at hget; cases k <;> cases hget

/-- What is above the last mark is above the start of the innermost block. -/
lemma base_lt_aboveMark (hframes : Frames (block :: outer) work.kinds) :
    block.base < work.aboveMark work.size :=
  WorkStack.lt_aboveMark (isMark_base hframes) (base_lt_size hframes)

lemma delimiter_checked (h : work.Bounded) (hframes : Frames (block :: outer) work.kinds)
    (hcount : block.delimiters < Checked.maxUnsigned) (text : Bytes) :
    Checked.delimiter ⟨options, work, block :: outer, openQuote⟩ text
      = some (delimiter ⟨options, work, block :: outer, openQuote⟩ text) := by
  have hlt := base_lt_size hframes
  have hincrement : Checked.increment Checked.maxUnsigned block.delimiters
      = some (block.delimiters + 1) := if_pos hcount
  by_cases hseparators : 0 < block.separators
  · obtain ⟨hdemote, hdemoted⟩ := h.demote (show block.base + 1 ≤ work.size by omega) false
    obtain ⟨hjoin, hjoined⟩ := hdemoted.joinSegment
    simp only [Checked.delimiter, hincrement, hseparators, decide_true, if_true, hdemote, hjoin,
      (hjoined.push _).1, Option.bind_eq_bind, Option.bind_some, delimiter]
  · obtain ⟨hjoin, hjoined⟩ := h.joinSegment
    simp only [Checked.delimiter, hincrement, hseparators, decide_false, Bool.false_eq_true,
      if_false, hjoin, (hjoined.push _).1, Option.bind_eq_bind, Option.bind_some, delimiter]

lemma rangeSeparator_checked (h : work.Bounded) (hframes : Frames (block :: outer) work.kinds)
    (text : Bytes) : Checked.rangeSeparator ⟨options, work, block :: outer, openQuote⟩ text
      = some (rangeSeparator ⟨options, work, block :: outer, openQuote⟩ text) := by
  have hlt := base_lt_size hframes
  have hsize := WorkStack.Bounded.sizeFrom_eq (Nat.le_of_lt hlt)
  simp only [Checked.rangeSeparator, rangeSeparator, hsize, Option.bind_eq_bind, Option.bind_some]
  by_cases htext : (decide (0 < block.delimiters) || !block.ranging ||
      decide (2 ≤ block.separators)) = true
  · simp only [htext, if_true]
    exact literal_checked h text
  · have hfew : block.separators < 2 := by
      simp only [Bool.or_eq_true, decide_eq_true_eq, not_or] at htext
      omega
    have hincrement : Checked.increment Checked.maxSigned block.separators
        = some (block.separators + 1) := by
      refine if_pos ?_
      rw [Checked.maxSigned]
      omega
    simp only [htext, Bool.false_eq_true, if_false, hincrement, (h.push _).1, Option.bind_some]
    split
    · rfl
    · exact literal_checked h text

lemma closed_checked (h : work.Bounded) (hframes : Frames (block :: outer) work.kinds)
    (text : Bytes) : Checked.closed options work block text
      = some (closed options work block text) := by
  have hbase := Nat.le_of_lt (base_lt_size hframes)
  rw [Checked.closed, closed]
  by_cases hdelimiters : 0 < block.delimiters
  · obtain ⟨hjoin, hjoined⟩ := h.joinSegment
    have hsize := WorkStack.size_join (WorkStack.aboveMark_le work work.size)
    -- the join stops above the opening mark, so the block is still there
    have hlt := base_lt_aboveMark hframes
    have hle : block.base ≤ work.joinSegment.size := by
      rw [WorkStack.joinSegment, hsize]
      omega
    simp only [hdelimiters, if_true, hjoin, Option.bind_eq_bind, Option.bind_some,
      (hjoined.gather .alternate hle).1]
  · obtain ⟨hdemote, hdemoted⟩ := h.demote hbase true
    have hrange := h.closeRange_eq options hbase
    simp only [hdelimiters, if_false, Option.bind_eq_bind]
    by_cases hranging : (block.ranging && decide (0 < block.separators)) = true
    · simp only [hranging, if_true, hrange, Option.bind_some]
      cases work.closeRange? options block.base with
      | some w => rfl
      | none => simp only [hdemote, Option.bind_some, hdemoted.appendLiteral text]
    · simp only [hranging, Bool.false_eq_true, if_false, hdemote, Option.bind_some,
        hdemoted.appendLiteral text]

end

/-- One token, where there is room for one more comma. -/
lemma step_checked {pattern : Bytes} {t : Token} (h : c.Shows r)
    (hcount : ∀ b ∈ c.blocks, b.delimiters < Checked.maxUnsigned)
    (hsource : Checked.source pattern t = some t.text) :
    Checked.step pattern c t = some (c.step t) := by
  have hframes := h.frames
  have hbounded := h.work.bounded
  obtain ⟨options, work, blocks, openQuote⟩ := c
  obtain ⟨kind, start, text⟩ := t
  simp only [Checked.step, hsource, Option.bind_eq_bind, Option.bind_some, step]
  cases kind with
  | literal => exact literal_checked hbounded text
  | escape => exact push_checked hbounded _
  | quote => exact quote_checked hbounded text
  | opening => exact openBlock_checked hbounded text
  | delimiter =>
      cases blocks with
      | nil => exact literal_checked hbounded text
      | cons block outer =>
          exact delimiter_checked hbounded hframes (hcount block List.mem_cons_self) text
  | range =>
      cases blocks with
      | nil => exact literal_checked hbounded text
      | cons block outer => exact rangeSeparator_checked hbounded hframes text
  | closing =>
      cases blocks with
      | nil => exact literal_checked hbounded text
      | cons block outer =>
          simp only [Checked.closeBlock, closed_checked hbounded hframes text,
            Option.bind_eq_bind, Option.bind_some, closeBlock]

/-! ## The end of the pattern -/

/-- What is still open is on the stack. -/
lemma Shows.firstOpen_le (h : c.Shows r) {start : Nat} (hstart : c.firstOpen? = some start) :
    start ≤ c.work.size := by
  have hquote : ∀ i, c.openQuote = some i → i ≤ c.work.size := by
    intro i hi
    obtain ⟨hlt, -⟩ := List.getElem?_eq_some_iff.mp (h.quote_framed hi).1
    rw [c.work.length_kinds] at hlt
    exact Nat.le_of_lt hlt
  have hblock : ∀ b, c.blocks.getLast? = some b → b.base ≤ c.work.size := by
    intro b hb
    have hlt := h.frames.base_lt (List.mem_of_getLast? hb)
    rw [c.work.length_kinds] at hlt
    exact Nat.le_of_lt hlt
  rw [firstOpen?] at hstart
  split at hstart
  next i b hi hb =>
    cases hstart
    exact Nat.le_trans (Nat.min_le_left _ _) (hquote i hi)
  next i hi _ =>
    cases hstart
    exact hquote _ hi
  next b _ hb =>
    cases hstart
    exact hblock _ hb
  next => cases hstart

lemma settled_checked (h : c.Shows r) : Checked.settled c = some c.settled := by
  have hdemote : ∀ {w : WorkStack}, w.Bounded → w.size = c.work.size →
      (match c.firstOpen? with
        | some start => WorkStack.Checked.demote w start true
        | none => some w)
      = some (match c.firstOpen? with
        | some start => w.demote start true
        | none => w) := by
    intro w hw hsize
    cases hstart : c.firstOpen? with
    | none => rfl
    | some start => exact (hw.demote (hsize ▸ h.firstOpen_le hstart) true).1
  rw [Checked.settled, settled]
  cases hquote : c.openQuote with
  | none => exact hdemote h.work.bounded rfl
  | some quote =>
      obtain ⟨hlt, -⟩ := List.getElem?_eq_some_iff.mp (h.quote_framed hquote).1
      rw [c.work.length_kinds] at hlt
      have hitem : c.work.items[quote]? = some (c.work.items.getD quote 0) := by
        have hitems : quote < c.work.items.size := hlt
        simp [hitems]
      obtain ⟨n, hsized, hitems⟩ := h.work.bounded
      have hid := WorkStack.Bounded.lt_of_getElem? hitems hitem
      simp only [hitem, hsized.modify_eq hid, Option.bind_eq_bind, Option.bind_some]
      exact hdemote ⟨n, hsized.modify _ _, hitems⟩ rfl

/-- At the end there is one draft on the stack, and its tree has no punctuation in it. -/
lemma finish_checked (h : c.Shows r) : Checked.finish c = some c.finish := by
  have hsettled := h.settled.bounded.join (Nat.zero_le c.settled.size)
  rcases h.joined_single with ⟨id, used, hitems, hholds, howns⟩
  have hid : (#[id] : Array Nat).getD 0 0 = id := rfl
  simp only [Checked.finish, settled_checked h, hsettled.1, hitems, hholds.plant_checked howns,
    Option.bind_eq_bind, Option.bind_some, finish, hid]

end Compiler

end BraceExpansion
