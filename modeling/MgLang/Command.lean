import MgLang.Navigation
import MgLang.Project.Load
/-!
# The command line

What a user can ask for, and what is answered: the text on both output streams and the exit code.
`parse?` reads the arguments as the fields of `Cli` describe them; `run` and `answer` are `main`.
-/

namespace MgLang

/-- What a user asks for (`Commands`). -/
inductive Command where
  /-- Check files as one package. -/
  | check (files : List String) (package : String)
  /-- Check the project in a directory. -/
  | checkProject (root : String)
  /-- List the symbols that files declare. -/
  | symbols (files : List String) (package : String)
  /-- Tell the version. -/
  | version
deriving DecidableEq, Repr

/-- What is answered. -/
structure Outcome where
  stdout : String := ""
  stderr : String := ""
  exitCode : Nat := 0
deriving DecidableEq, Repr

namespace Command

/-! ### Reading the arguments -/

/-- The arguments of a command that takes one option. -/
structure Arguments where
  files : List String := []
  option : Option String := none

/-- The text behind `option=`. -/
def attached? (option arg : String) : Option String :=
  ((option ++ "=").toList.isPrefixOf? arg.toList).map .ofList

/-- The argument looks like an option. A lone dash does not. -/
def isOption (arg : String) : Bool :=
  arg.toList.head? == some '-' && arg != "-"

/-- Takes the value of the option, which can be given only once. -/
def Arguments.setOption (a : Arguments) (value : String) : Option Arguments :=
  if a.option.isSome then none else some { a with option := some value }

/-- Takes the path of a file, which cannot be empty. -/
def Arguments.addFile (a : Arguments) (path : String) : Option Arguments :=
  if path = "" then none else some { a with files := a.files ++ [path] }

/-- Reads the arguments of a command that takes the option `--name`. Behind `--` all arguments are
files. -/
def readArguments (option : String) (a : Arguments) : List String → Option Arguments
  | [] => some a
  | arg :: args =>
    if arg = "--" then args.foldlM Arguments.addFile a
    else if arg = option then
      match args with
      | value :: rest =>
        if isOption value then none
        else (a.setOption value).bind fun a => readArguments option a rest
      | [] => none
    else
      match attached? option arg with
      | some value => (a.setOption value).bind fun a => readArguments option a args
      | none =>
        if isOption arg then none
        else (a.addFile arg).bind fun a => readArguments option a args

/-- The files and the package from arguments. -/
def filesAndPackage (args : List String) : Option (List String × String) := do
  let a ← readArguments "--package" {} args
  if a.files.isEmpty then none else some (a.files, a.option.getD "main")

/-- The argument asks for the version: `--version`, or one-letter options of which `V` is the
first. -/
def asksVersion (arg : String) : Bool :=
  arg = "--version" || ['-', 'V'].isPrefixOf arg.toList

/-- What a user asks for by some arguments, if they make sense. What follows the question for the
version is not looked at. -/
def parse? : List String → Option Command
  | "check" :: args => (filesAndPackage args).map fun (files, package) => check files package
  | "symbols" :: args => (filesAndPackage args).map fun (files, package) => symbols files package
  | "check-project" :: args => do
    let a ← readArguments "--root" {} args
    let root := a.option.getD "."
    if a.files.isEmpty && root != "" then some (checkProject root) else none
  | arg :: _ => if asksVersion arg then some version else none
  | [] => none

/-! ### Answers -/

/-- What is answered to arguments that make no sense. -/
def usage : Outcome where
  stderr :=
    "Usage: magolor check FILES... [--package NAME]\n" ++
    "       magolor check-project [--root DIR]\n" ++
    "       magolor symbols FILES... [--package NAME]\n"
  exitCode := 2

/-- What is answered if files cannot be loaded. -/
def failed (fault : LoadFault) : Outcome where
  stderr := s!"error: {fault.text}\n"
  exitCode := 1

/-- What is answered to a check: every fault, and how many there are (`print_report`). -/
def reportOutcome (c : Compilation) (r : Report) : Outcome :=
  if r.hasErrors then
    let faults := r.diagnostics.map fun d => c.render d ++ "\n"
    { stderr := String.join faults ++ s!"{r.errorCount} error(s) found\n", exitCode := 1 }
  else { stdout := "no errors found\n" }

/-- What is answered to the check of a project (`check_project`). -/
def projectOutcome (manifest : Manifest) (c : Compilation) : Outcome :=
  let (report, checked) := c.check
  let outcome := reportOutcome checked report
  let count := report.modules.length
  { outcome with
    stdout := s!"{manifest.name} {manifest.version}: {count} modules\n" ++ outcome.stdout }

/-- The line of a list of symbols. -/
def symbolLine (s : Symbol) : String :=
  let visibility := if s.isPublic then "pub" else "priv"
  s!"{s.module}.{s.name}\t{s.kind.text}\t{visibility}\n"

/-- What is answered to a question for symbols (`list_symbols`). -/
def symbolsOutcome (c : Compilation) : Outcome where
  stdout := String.join (c.registry.sourceSymbols.map symbolLine)

/-- Does what a user asks for (`main`, with `check_files`, `check_project` and `list_symbols`). -/
def run {m : Type → Type} [Monad m] (fs : FileAccess m) (cwd : String) :
    Command → m Outcome
  | check files package => do
    match ← (loadLoose fs cwd package files).run with
    | .ok c =>
      let (report, checked) := c.check
      return reportOutcome checked report
    | .error fault => return failed fault
  | checkProject root => do
    match ← (loadProject fs root).run with
    | .ok (manifest, c) => return projectOutcome manifest c
    | .error fault => return failed fault
  | symbols files package => do
    match ← (loadLoose fs cwd package files).run with
    | .ok c => return symbolsOutcome c
    | .error fault => return failed fault
  | version => return { stdout := "magolor 0.1.0\n" }

/-- Answers to arguments. -/
def answer {m : Type → Type} [Monad m] (fs : FileAccess m) (cwd : String) (args : List String) :
    m Outcome :=
  match parse? args with
  | some command => run fs cwd command
  | none => return usage

end Command

end MgLang
