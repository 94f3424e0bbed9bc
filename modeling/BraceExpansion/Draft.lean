import BraceExpansion.Kind
import BraceExpansion.Progression
import BraceExpansion.Text.Bytes

/-!
# Drafts

A draft is a piece of a pattern whose meaning may still change: a literal can grow, punctuation
can turn out to be text, and a list can be taken up into a larger one.

Drafts stand in the slots of a pool, and a list refers to its members by their slots.
-/

namespace BraceExpansion

/-- A piece of a pattern whose meaning may still change. -/
inductive Draft
  | leaf (kind : LeafKind) (text : Buffer)
  | range (kind : RangeKind) (progression : Progression)
  /-- A list of the drafts in these slots. -/
  | list (kind : ListKind) (members : List Nat)
  /-- Punctuation, with the text it stands for if its block comes to nothing. -/
  | mark (mark : Mark) (text : Buffer)
  deriving DecidableEq

namespace Draft

instance : Inhabited Draft := ⟨.leaf .empty #[]⟩

def kind : Draft → Kind
  | leaf k _ => k.kind
  | range k _ => k.kind
  | list k _ => k.kind
  | mark m _ => m.kind

def isMark : Draft → Bool
  | mark _ _ => true
  | _ => false

def isLiteral : Draft → Bool
  | leaf .literal _ => true
  | _ => false

/-- The slots a draft refers to. -/
def members : Draft → List Nat
  | list _ members => members
  | _ => []

/-- The text of a draft that may become part of a literal: a literal, or punctuation. -/
def foldable? : Draft → Option Buffer
  | leaf .literal text => some text
  | mark _ text => some text
  | _ => none

/-- The draft with more text behind its own. -/
def append (d : Draft) (more : Buffer) : Draft :=
  match d with
  | leaf kind text => leaf kind (text ++ more)
  | mark m text => mark m (text ++ more)
  | d => d

/-- A leaf as literal text. -/
def toLiteral : Draft → Draft
  | leaf _ text => leaf .literal text
  | d => d

/-- The text a draft stands for as the bound of a range: a literal as it is, an escape without its
backslash. -/
def boundText? : Draft → Option Bytes
  | leaf .literal text => some text.toList
  | leaf .escape text => some (text.toList.drop 1)
  | _ => none

end Draft

end BraceExpansion
