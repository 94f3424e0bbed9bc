import BraceExpansion.Draft.Pool
import BraceExpansion.Progression.Endpoints

/-!
# The work stack

The drafts of the part of a pattern that has been read, in order, with the last one on top.  Marks
stand on the stack among the other drafts; what lies above a mark belongs to its block.

* `push`, `appendLiteral` — more of the pattern.
* `gather` — everything from a position on becomes one list.
* `join`, `joinSegment` — the drafts from a position, or above the last mark, become one draft.
* `demote` — from a position on, punctuation becomes text again.
* `closeRange?` — a block becomes a range.

`gather` and `demote` are what keeps trees small: lists take up the members of lists of their own
kind, and neighbouring pieces of text become one literal.
-/

namespace BraceExpansion

/-- Drafts in order, in the slots of a pool. -/
structure WorkStack where
  pool : Pool
  /-- The slots of the drafts, from the bottom up. -/
  items : Array Nat

namespace WorkStack

def empty : WorkStack := ⟨.empty, #[]⟩

instance : Inhabited WorkStack := ⟨empty⟩

/-- How many drafts there are. -/
def size (w : WorkStack) : Nat := w.items.size

/-- The draft at a position. -/
def get (w : WorkStack) (i : Nat) : Draft := w.pool.get (w.items.getD i 0)

/-- The drafts from a position on. -/
def draftsFrom (w : WorkStack) (i : Nat) : List Draft :=
  (w.items.extract i).toList.map w.pool.get

/-- The stack without drafts, and all slots free. -/
def clear (w : WorkStack) : WorkStack := ⟨w.pool.releaseAll, #[]⟩

/-! ## More of the pattern -/

/-- One draft more. -/
def push : WorkStack → Draft → WorkStack
  | ⟨pool, items⟩, d =>
    let (id, pool) := pool.insert d
    ⟨pool, items.push id⟩

/-- More literal text: behind the literal on top, or as a new one. -/
def appendLiteral (w : WorkStack) (text : Bytes) : WorkStack :=
  match w.items.back? with
  | some top =>
    if (w.pool.get top).isLiteral then
      { w with pool := w.pool.modify top (·.append text.toArray) }
    else w.push (.leaf .literal text.toArray)
  | none => w.push (.leaf .literal text.toArray)

/-! ## Lists -/

/-- What the draft in a slot adds to a list of this kind: nothing if it is punctuation, its
members if it is such a list itself, and itself in every other case. -/
def contribution (pool : Pool) (kind : ListKind) (id : Nat) : List Nat :=
  match pool.get id with
  | .mark _ _ => []
  | .list k members => if k = kind then members else [id]
  | _ => [id]

/-- The pool after a list of this kind has taken up the draft in a slot.  A list that gives its
members away keeps none. -/
def absorb (kind : ListKind) (pool : Pool) (id : Nat) : Pool :=
  match pool.get id with
  | .mark _ _ => pool.release id
  | .list k _ => if k = kind then (pool.set id (.list k [])).release id else pool
  | _ => pool

/-- The drafts from a position on as one list. -/
def gather : WorkStack → ListKind → Nat → WorkStack
  | ⟨pool, items⟩, kind, offset =>
    let (id, pool) := pool.insert (.list kind [])
    let taken := (items.extract offset).toList
    let members := taken.flatMap (contribution pool kind)
    let pool := taken.foldl (absorb kind) pool
    ⟨pool.set id (.list kind members), (items.shrink offset).push id⟩

/-- The drafts from a position on as one draft: an empty leaf if there is none, and a sequence if
there are several. -/
def join (w : WorkStack) (offset : Nat) : WorkStack :=
  match w.size - offset with
  | 0 => w.push (.leaf .empty #[])
  | 1 => w
  | _ => w.gather .concat offset

/-- The position above the last mark among the lowest `n` drafts. -/
def aboveMark (w : WorkStack) : Nat → Nat
  | 0 => 0
  | n + 1 => if (w.get n).isMark then n + 1 else w.aboveMark n

/-- The drafts above the last mark as one draft. -/
def joinSegment (w : WorkStack) : WorkStack := w.join (w.aboveMark w.size)

/-! ## Back to text -/

/-- A stack of which the upper part is being turned into text. -/
structure Demotion where
  pool : Pool
  /-- What is kept of the stack so far. -/
  kept : Array Nat
  /-- The literal on top of it, if the next piece of text belongs to that. -/
  run : Option Nat

/-- The next draft of the part that is turned into text.  The first of several pieces of text
becomes a literal and takes up the others. -/
def Demotion.step : Demotion → Nat → Demotion
  | ⟨pool, kept, run⟩, id =>
    match (pool.get id).foldable?, run with
    | some text, some first => ⟨(pool.modify first (·.append text)).release id, kept, some first⟩
    | some text, none => ⟨pool.set id (.leaf .literal text), kept.push id, some id⟩
    | none, _ => ⟨pool, kept.push id, none⟩

/-- Where a demotion from `offset` starts: with `joinBelow`, a literal just below belongs to the
first piece of text. -/
def demotionStart (w : WorkStack) (offset : Nat) (joinBelow : Bool) : Nat :=
  if joinBelow && 0 < offset && (w.get (offset - 1)).isLiteral then offset - 1 else offset

/-- From `offset` on, every longest run of literals and punctuation as one literal. -/
def demote (w : WorkStack) (offset : Nat) (joinBelow : Bool) : WorkStack :=
  let start := w.demotionStart offset joinBelow
  match w with
  | ⟨pool, items⟩ =>
    let upper := items.extract start
    let done := upper.foldl Demotion.step ⟨pool, items.shrink start, none⟩
    ⟨done.pool, done.kept⟩

/-! ## Ranges -/

/-- The range that the drafts of a block stand for: two bounds, and a step if there is one.  The
first draft is the mark that opens the block. -/
def readRange? (options : CompileOptions) : List Draft → Option (RangeKind × Progression)
  | [_, first, .mark .range _, last] => do
    Progression.ofTexts? options (← first.boundText?) (← last.boundText?) 0
  | [_, first, .mark .range _, last, .mark .range _, .leaf .literal step] => do
    let step ← Decimal.read? step.toList
    Progression.ofTexts? options (← first.boundText?) (← last.boundText?) step
  | _ => none

/-- The block from a position on as a range. -/
def closeRange? (w : WorkStack) (options : CompileOptions) (base : Nat) : Option WorkStack :=
  match readRange? options (w.draftsFrom base) with
  | none => none
  | some (kind, progression) =>
    match w with
    | ⟨pool, items⟩ =>
      let pool := (items.extract base).foldl Pool.release pool
      some (push ⟨pool, items.shrink base⟩ (.range kind progression))

end WorkStack

end BraceExpansion
