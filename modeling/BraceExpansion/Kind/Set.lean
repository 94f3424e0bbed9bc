import BraceExpansion.Kind

/-!
# Sets of kinds

A set of kinds is a word of thirteen bits, one for each kind in order.  Two sets with the same
members are equal, in whatever order and however often the members were listed.

The four named sets classify kinds by what a node of that kind carries.
-/

namespace BraceExpansion

/-- A set of kinds, one bit for each. -/
structure KindSet where
  bits : BitVec 13
  deriving DecidableEq

namespace KindSet

def empty : KindSet := ⟨0⟩

def singleton (k : Kind) : KindSet := ⟨BitVec.twoPow 13 k.index⟩

def union (a b : KindSet) : KindSet := ⟨a.bits ||| b.bits⟩

/-- The set with these members. -/
def ofList (kinds : List Kind) : KindSet :=
  kinds.foldl (fun set k => set.union (singleton k)) empty

def contains (set : KindSet) (k : Kind) : Bool := set.bits.getLsb k.index

@[simp] theorem contains_empty (k : Kind) : empty.contains k = false := by
  simp [contains, empty]

@[simp] theorem contains_singleton (j k : Kind) : (singleton j).contains k = decide (j = k) := by
  cases j <;> cases k <;> rfl

@[simp] theorem contains_union (a b : KindSet) (k : Kind) :
    (a.union b).contains k = (a.contains k || b.contains k) := by
  simp [contains, union]

/-- The members in their order. -/
def toList (set : KindSet) : List Kind := Kind.all.filter set.contains

end KindSet

namespace Kind

/-- Punctuation that is still open. -/
def marks : KindSet := .ofList [braceOpen, braceDelimiter, braceRange]

/-- Leaves whose value is source text. -/
def texts : KindSet := .ofList [literal, escape, quote]

def ranges : KindSet := .ofList [integerRange, charRange]

def lists : KindSet := .ofList [concat, alternate]

def isMark (k : Kind) : Bool := marks.contains k

def isText (k : Kind) : Bool := texts.contains k

def isRange (k : Kind) : Bool := ranges.contains k

def isList (k : Kind) : Bool := lists.contains k

end Kind

end BraceExpansion
