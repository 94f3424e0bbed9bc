import BraceExpansion.CommandLine.Invocation
import BraceExpansion.Compiler
import BraceExpansion.Error.Report
import BraceExpansion.Forest.Outline
import BraceExpansion.Tree.Walk

/-!
# Running an invocation

What an invocation writes, as a function of the file it names.

* `Invocation.sources` — the patterns, each with the place it comes from: first those on the
  command line, then the lines of the file.
* `Run.step` — one pattern.
* `Invocation.run` — all of them.

A pattern that cannot be read is reported and the others go on.  A file that cannot be read stops
the run before anything is written.  One compiler and one buffer serve all patterns.
-/

namespace BraceExpansion

/-! ## Patterns and where they come from -/

/-- A pattern, and the name of the place it comes from. -/
structure Source where
  origin : String
  text : String

/-- A line without the carriage return that belongs to its end.  The line is given backwards, and
so is the carriage return in front. -/
def endedLine : List Char → String
  | '\r' :: line => String.ofList line.reverse
  | line => String.ofList line.reverse

/-- The lines of a text behind those that are there already, the first of them being begun with
the characters of `line`, backwards. -/
def linesOnto (lines : Array String) (line : List Char) : List Char → Array String
  | [] => if line.isEmpty then lines else lines.push (String.ofList line.reverse)
  | '\n' :: rest => linesOnto (lines.push (endedLine line)) [] rest
  | c :: rest => linesOnto lines (c :: line) rest

/-- The lines of a text, which end with a line feed or with the text. -/
def lines (text : String) : Array String := linesOnto #[] [] text.toList

/-- Texts with their places, which are named by a number counted from one. -/
def numbered (origin : Nat → String) (texts : Array String) : Array Source :=
  texts.mapIdx fun i text => ⟨origin (i + 1), text⟩

/-- Why a file cannot be read. -/
inductive FileFault
  | missing
  | notText
  /-- Any other reason, as the system gives it. -/
  | other (reason : String)

def FileFault.message : FileFault → String
  | missing => "No such file or directory (os error 2)"
  | notText => "stream did not contain valid UTF-8"
  | other reason => reason

/-- The patterns of an invocation, where `read` gives the contents of a file. -/
def Invocation.sources (i : Invocation) (read : String → Except FileFault Bytes) :
    Except FileFault (Array Source) :=
  let arguments := numbered (fun n => "<argument " ++ toString n ++ ">") i.patterns
  match i.file with
  | none => .ok arguments
  | some path =>
    match read path with
    | .error fault => .error fault
    | .ok contents =>
      match Utf8.decode? contents with
      | none => .error .notText
      | some text =>
        .ok (arguments ++ numbered (fun n => path ++ ":" ++ toString n) (lines text))

/-! ## One pattern after the other -/

/-- A run on the way through its patterns. -/
structure Run where
  compiler : Compiler
  /-- The buffer that expansions are written into. -/
  scratch : Buffer
  /-- What has been written to the standard output. -/
  output : Buffer
  /-- What has been written to the standard error. -/
  errors : String
  failed : Bool

namespace Run

def start (options : CompileOptions) : Run := ⟨.new options, #[], #[], "", false⟩

/-- What a command writes for a tree; with it comes the buffer it used. -/
def write (command : Command) (options : ExpandOptions) (t : Tree) (output scratch : Buffer) :
    Buffer × Buffer :=
  match command with
  | .tree => (output ++ Utf8.encode (t.forest.dump t.root), scratch)
  | .expand =>
    t.walk options (fun output expansion => (output ++ expansion).push Ascii.lineFeed) output
      scratch

/-- One pattern.  It may have line feeds, which a report takes for characters of its one line. -/
def step (command : Command) (options : ExpandOptions) : Run → Source → Run
  | ⟨compiler, scratch, output, errors, failed⟩, source =>
    match compiler.compile (Utf8.encode source.text) with
    | (.ok t, compiler) =>
      let (output, scratch) := write command options t output scratch
      ⟨compiler, scratch, output, errors, failed⟩
    | (.error e, compiler) =>
      let report := e.report .colored source.origin source.text
      ⟨compiler, scratch, output, (errors ++ report).push '\n', true⟩

end Run

/-! ## The whole run -/

/-- What a run leaves behind. -/
structure Outcome where
  code : UInt32
  output : Buffer
  errors : String

/-- The outcome when the file at `path` cannot be read. -/
def Outcome.unreadable (path : String) (fault : FileFault) : Outcome :=
  ⟨1, #[], "Error: failed to read `" ++ path ++ "`\n\nCaused by:\n    " ++ fault.message ++ "\n"⟩

/-- The outcome when the words on the command line ask for nothing. -/
def Outcome.misused : Outcome :=
  ⟨2, #[],
    "usage: (expand | tree) [--ignore-escape] [--ignore-quote] [--any-char-range] [--strict]"
      ++ " [--keep-escape] [--keep-quote] [--file PATH] [--] [PATTERN]...\n"⟩

/-- The outcome of an invocation, where `read` gives the contents of a file. -/
def Invocation.run (i : Invocation) (read : String → Except FileFault Bytes) : Outcome :=
  match i.sources read with
  | .error fault => .unreadable (i.file.getD "") fault
  | .ok sources =>
    let run := sources.foldl (Run.step i.command i.expandOptions) (.start i.compileOptions)
    ⟨if run.failed then 1 else 0, run.output, run.errors⟩

end BraceExpansion
