import BraceExpansion.Proofs.Compiler.Finish
import BraceExpansion.Proofs.Draft.Transport

/-!
# A compiler can be used again

A compiler that has been used still has its slots, with whatever the patterns before have left in
them, and after an error it has been left in the middle of a pattern.  The next pattern is then read
into other slots, in another order, than a new compiler would take.

Both read the same (`Compiler.Shows.reads`), and what is planted depends on what has been read and
not on the slots (`Compiler.Shows.finish_congr`).  So **`Compiler.compileAll_eq`**: no pattern has an
influence on the ones behind it.
-/

namespace BraceExpansion

namespace Compiler

variable {c d : Compiler} {r : Reading} {pattern : Bytes}

/-- What some patterns come to that are compiled one after the other by one compiler. -/
def compileAll (c : Compiler) : List Bytes → List (Except PatternError Tree)
  | [] => []
  | pattern :: patterns => (c.compile pattern).1 :: (c.compile pattern).2.compileAll patterns

/-- Two compilers that have read the same make the same tree. -/
theorem Shows.finish_congr (h : c.Shows r) (h' : d.Shows r) : c.finish.1 = d.finish.1 := by
  rcases h.joined_single with ⟨id, used, hitems, hholds, howns⟩
  rcases h'.joined_single with ⟨id', used', hitems', hholds', howns'⟩
  have hid : (c.settled.join 0).items.getD 0 0 = id := by simp [hitems]
  have hid' : (d.settled.join 0).items.getD 0 0 = id' := by simp [hitems']
  rw [finish_tree, finish_tree, hid, hid', hholds.plant_congr howns hholds' howns']

/-- **What a pattern comes to depends on the way of reading, and not on the compiler.** -/
lemma compile_congr (hoptions : c.options = d.options) (pattern : Bytes) :
    (c.compile pattern).1 = (d.compile pattern).1 := by
  cases hs : Scanner.ofPattern c.options pattern with
  | error e =>
      have hs' := hs
      rw [hoptions] at hs'
      rw [compile, compile, hs, hs']
  | ok s =>
      have hs' := hs
      rw [hoptions] at hs'
      rcases s.exists_reads with ⟨ts, s', hreads, hends⟩
      have hquote : (({} : Reading).quote.isSome) = s.openQuote.isSome := by
        rw [ofPattern_eq hs]
        rfl
      have hshows := (Shows.reads hreads c.shows_start hquote).1
      have hshows' := (Shows.reads hreads d.shows_start hquote).1
      rw [options_start, ← hoptions] at hshows'
      have hfinish := hshows.finish_congr hshows'
      rw [compile_of_reads hs hreads hends, compile_of_reads hs' hreads hends]
      cases s'.failure? with
      | some e => rfl
      | none => exact congrArg Except.ok hfinish

lemma options_foldl_step (c : Compiler) (ts : List Token) :
    (ts.foldl step c).options = c.options := by
  induction ts generalizing c with
  | nil => rfl
  | cons t ts ih => exact (ih (c.step t)).trans (c.options_step t)

/-- A compiler goes on reading in the same way, also after an error. -/
lemma options_compile (c : Compiler) (pattern : Bytes) :
    (c.compile pattern).2.options = c.options := by
  cases hs : Scanner.ofPattern c.options pattern with
  | error e => rw [compile, hs]; rfl
  | ok s =>
      rcases s.exists_reads with ⟨ts, s', hreads, hends⟩
      have hstart := options_foldl_step c.start ts
      rw [compile_of_reads hs hreads hends]
      cases s'.failure? with
      | some e => exact hstart
      | none => exact hstart

/-- **A compiler that has been used does what a new one does**, whatever the patterns before were,
and whether or not they could be read: each pattern in turn comes to the same error, or to a tree
with the same nodes under the same numbers and with the same links, as it does by itself. -/
theorem compileAll_eq (options : CompileOptions) (patterns : List Bytes) :
    (new options).compileAll patterns = patterns.map (BraceExpansion.compile options) := by
  have hused : ∀ c : Compiler, c.options = options →
      c.compileAll patterns = patterns.map (BraceExpansion.compile options) := by
    induction patterns with
    | nil => exact fun _ _ => rfl
    | cons pattern patterns ih =>
        intro c hc
        have hhere : (c.compile pattern).1 = BraceExpansion.compile options pattern :=
          compile_congr hc pattern
        rw [compileAll, hhere, ih _ ((c.options_compile pattern).trans hc)]
        rfl
  exact hused (new options) rfl

end Compiler

end BraceExpansion
