import BraceExpansion.Compiler
import BraceExpansion.Forest.Outline
import BraceExpansion.Tree.Walk

/-!
# Patterns

A pattern is compiled text together with the way its expansions are written: what a program keeps
that expands the same text again and again.

* `Pattern.ofString` — a pattern from its text, unless the text cannot be read.
* `Pattern.walk`, `Pattern.expandOnto` and `Pattern.expansions` — its expansions.
* `Tree.dump` — the structure of a tree as text.

Two patterns are equal when they have the same tree, whatever their texts and options.
-/

namespace BraceExpansion

/-- The structure of a tree as text. -/
def Tree.dump (t : Tree) : String := t.forest.dump t.root

/-- A compiled text. -/
structure Pattern where
  source : String
  tree : Tree
  options : ExpandOptions

namespace Pattern

/-- The pattern with this text. -/
def ofString (source : String) (compileOptions : CompileOptions := {})
    (options : ExpandOptions := {}) : Except PatternError Pattern :=
  (compilePacked compileOptions source.toUTF8).map fun tree => ⟨source, tree, options⟩

/-- `emit` applied to every expansion in order, each shown as a string. -/
def walk {σ : Type} (p : Pattern) (emit : σ → String → σ) (acc : σ) (buffer : Buffer) : σ × Buffer :=
  p.tree.walk p.options (fun acc expansion => emit acc (Utf8.lossy expansion.toList)) acc buffer

/-- The expansions, behind those that are there already. -/
def expandOnto (data : Array String) (p : Pattern) : Array String :=
  Tree.expandOnto data p.tree p.options

def expansions (p : Pattern) : Array String := p.expandOnto #[]

instance : BEq Pattern := ⟨fun p q => p.tree == q.tree⟩

instance : ToString Pattern := ⟨Pattern.source⟩

end Pattern

end BraceExpansion
