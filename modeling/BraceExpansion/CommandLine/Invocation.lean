import BraceExpansion.Options

/-!
# Invocations

What the words on the command line ask for.

* `Invocation.ofWords?` — the invocation, unless the words are not one.

The first word is the command.  Of the others, those that begin with a minus sign are options, and
the rest are patterns, in order.  A lone minus sign is a pattern, and everything behind `--` is.
No option may be given twice.
-/

namespace BraceExpansion

/-- What to do with each pattern. -/
inductive Command
  /-- Write its expansions, one on a line. -/
  | expand
  /-- Write the structure of its tree. -/
  | tree
  deriving DecidableEq

/-- What the words on the command line ask for. -/
structure Invocation where
  command : Command
  patterns : Array String := #[]
  /-- The file that holds more patterns, one on a line. -/
  file : Option String := none
  compileOptions : CompileOptions := {}
  expandOptions : ExpandOptions := {}

/-- An option without a value. -/
structure Switch where
  name : String
  isOn : Invocation → Bool
  turnOn : Invocation → Invocation

namespace Switch

def all : List Switch := [
  ⟨"--ignore-escape", (·.compileOptions.ignoreEscape),
    fun i => { i with compileOptions.ignoreEscape := true }⟩,
  ⟨"--ignore-quote", (·.compileOptions.ignoreQuote),
    fun i => { i with compileOptions.ignoreQuote := true }⟩,
  ⟨"--any-char-range", (·.compileOptions.anyCharRange),
    fun i => { i with compileOptions.anyCharRange := true }⟩,
  ⟨"--strict", (·.compileOptions.strict),
    fun i => { i with compileOptions.strict := true }⟩,
  ⟨"--keep-escape", (·.expandOptions.keepEscape),
    fun i => { i with expandOptions.keepEscape := true }⟩,
  ⟨"--keep-quote", (·.expandOptions.keepQuote),
    fun i => { i with expandOptions.keepQuote := true }⟩]

end Switch

namespace Invocation

def command? : String → Option Command
  | "expand" => some .expand
  | "tree" => some .tree
  | _ => none

/-- Whether a word is an option. -/
def isOption (word : String) : Bool := word.startsWith "-" && word != "-"

/-- The value of an option that is written in one word with it. -/
def valueOf? (option word : String) : Option String :=
  if word.startsWith (option ++ "=") then
    some (String.ofList (word.toList.drop (option.length + 1)))
  else none

def addPattern (i : Invocation) (pattern : String) : Invocation :=
  { i with patterns := i.patterns.push pattern }

def setFile? (i : Invocation) (path : String) : Option Invocation :=
  match i.file with
  | some _ => none
  | none => some { i with file := some path }

def switch? (i : Invocation) (name : String) : Option Invocation :=
  match Switch.all.find? (·.name == name) with
  | none => none
  | some s => if s.isOn i then none else some (s.turnOn i)

/-- The invocation with the words behind the command. -/
def addWords? (i : Invocation) : List String → Option Invocation
  | [] => some i
  | "--" :: patterns => some (patterns.foldl addPattern i)
  | "--file" :: path :: rest =>
    if isOption path then none
    else
      match i.setFile? path with
      | none => none
      | some i => i.addWords? rest
  | word :: rest =>
    if !isOption word then (i.addPattern word).addWords? rest
    else
      match match valueOf? "--file" word with
        | some path => i.setFile? path
        | none => i.switch? word with
      | none => none
      | some i => i.addWords? rest

/-- What the words ask for. -/
def ofWords? : List String → Option Invocation
  | [] => none
  | word :: rest =>
    match command? word with
    | none => none
    | some command => addWords? { command } rest

end Invocation

end BraceExpansion
