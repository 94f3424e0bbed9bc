import BraceExpansion.Options
import BraceExpansion.Text.Decimal
import BraceExpansion.Text.Utf8
import BraceExpansion.Tree

/-!
# Walking a tree

A walk writes the expansions of a tree one after the other into one buffer, and hands each to a
function when it is complete.

* `Tree.visit` — the expansions that begin with what is in the buffer and go on with a node.
* `Tree.walk` — all expansions, in order.
* `Tree.expansions`, `Tree.expand` — the list of them, as bytes and as strings.

An alternative and a value of a range are written onto what stood in the buffer before the first of
them, so a common beginning is written once for all expansions that share it.  The walk follows
links: from a sequence it enters the first child only, and that child's link leads to the second.
-/

namespace BraceExpansion

/-! ## What a node writes -/

/-- What is written for a leaf: its text, without the backslash of an escape and without quotes
unless they are kept. -/
def ExpandOptions.shown (options : ExpandOptions) (kind : LeafKind) (value : Bytes) : Bytes :=
  match kind with
  | .escape => if options.keepEscape then value else value.drop 1
  | .quote => if options.keepQuote then value else []
  | .empty | .literal => value

/-- A value of a range, written at the end of a buffer. -/
def RangeKind.write (kind : RangeKind) (buffer : Buffer) (width : Nat) (value : Int64) : Buffer :=
  match kind with
  | integer => Decimal.appendPadded buffer value width
  | char => buffer ++ String.utf8EncodeChar (Progression.character value)

/-! ## The walk -/

namespace Tree

/-- The walk from a node on, or from the end of the pattern, over at most `depth` nodes in a row.
It takes and returns what `emit` has made of the expansions so far, and the buffer. -/
def visit {σ : Type} (t : Tree) (options : ExpandOptions) (emit : σ → Buffer → σ) :
    (depth : Nat) → Option Nat → σ × Buffer → σ × Buffer
  | _, none, (acc, buffer) => (emit acc buffer, buffer)
  | 0, some _, state => state
  | depth + 1, some id, (acc, buffer) =>
    match t.node id with
    | .list .concat children => t.visit options emit depth children.head? (acc, buffer)
    | .list .alternate children =>
      let length := buffer.size
      children.foldl
        (fun (acc, buffer) child =>
          t.visit options emit depth (some child) (acc, buffer.shrink length))
        (acc, buffer)
    | .range kind p =>
      let length := buffer.size
      Nat.fold p.length
        (fun i _ (acc, buffer) =>
          t.visit options emit depth (t.next id)
            (acc, kind.write (buffer.shrink length) p.width (p.value i)))
        (acc, buffer)
    | .leaf kind value =>
      t.visit options emit depth (t.next id) (acc, buffer ++ options.shown kind value)

/-- `emit` applied to every expansion in order.  The buffer is emptied first and comes back with
what was written last. -/
def walk {σ : Type} (t : Tree) (options : ExpandOptions) (emit : σ → Buffer → σ) (acc : σ)
    (buffer : Buffer) : σ × Buffer :=
  t.visit options emit t.size (some t.root) (acc, buffer.shrink 0)

/-! ## Lists of expansions -/

/-- All expansions. -/
def expansions (t : Tree) (options : ExpandOptions) : Array Bytes :=
  (t.walk options (fun found buffer => found.push buffer.toList) #[] #[]).1

/-- All expansions as strings, behind those that are there already. -/
def expandOnto (data : Array String) (t : Tree) (options : ExpandOptions) : Array String :=
  (t.walk options (fun data buffer => data.push (Utf8.lossy buffer.toList)) data #[]).1

/-- All expansions as strings. -/
def expand (t : Tree) (options : ExpandOptions) : Array String := expandOnto #[] t options

end Tree

end BraceExpansion
