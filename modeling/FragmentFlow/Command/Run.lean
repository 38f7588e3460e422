import FragmentFlow.Check.Runner
import FragmentFlow.Command.Help
import FragmentFlow.Graph.Print
import FragmentFlow.Settings.Basic
import FragmentFlow.Source.Read
import FragmentFlow.Tree.Numbering

/-!
# Running a command

A command reads files, writes text, and ends with a code: 0 if all is well, 1 if
a check found an error, 2 if the command could not be carried out.  Files are
given as a function, so that running a command is a plain computation.
-/

namespace FragmentFlow.Command

/-- Why a command could not be carried out. -/
inductive Problem where
  /-- The command line is wrong. -/
  | usage
  /-- A unit could not be read from its file. -/
  | unreadUnit (file reason : String)
  /-- The settings could not be read from their file. -/
  | unreadSettings (file reason : String)
  /-- A file does not hold a unit. -/
  | invalidUnit (file : String) (fault : Json.ReadError)
  /-- A file does not hold settings. -/
  | invalidSettings (file : String)
  /-- A checker failed. -/
  | check (failure : CheckFailure)
  /-- A graph could not be built. -/
  | noGraph (fragment : String) (cause : Failure)
  /-- There is no fragment of the name that is asked for. -/
  | noFragment (name file : String)

namespace Problem

/-- A fault of a text in words. -/
def faultMessage : Json.ReadError → String
  | .malformed => "malformed JSON"
  | .truncated => "unexpected end of JSON"
  | .mismatched => "JSON of another shape"

/-- What could not be done, without the reason where another text is at fault. -/
def headline : Problem → String
  | usage => "wrong arguments"
  | unreadUnit file reason => "failed to read " ++ file ++ ": " ++ reason
  | unreadSettings file reason => "failed to read config " ++ file ++ ": " ++ reason
  | invalidUnit file _ => "failed to parse compilation unit " ++ file
  | invalidSettings file => "invalid config " ++ file
  | check failure => failure.message
  | noGraph fragment cause => "failed to build the CFG of " ++ fragment ++ ": " ++ cause.message
  | noFragment name file => "no fragment named `" ++ name ++ "` in " ++ file

/-- A problem in words. -/
def message (problem : Problem) : String :=
  match problem with
  | invalidUnit _ fault => problem.headline ++ ": " ++ faultMessage fault
  | invalidSettings _ => problem.headline ++ ": not a TOML document of the right shape"
  | _ => problem.headline

end Problem

/-- What a command has done. -/
structure Outcome where
  code : Nat
  output : String := ""
  problem : Option Problem := none

/-- The outcome of a command that could not be carried out. -/
def Outcome.failed (problem : Problem) (output : String := "") : Outcome :=
  { code := 2, output, problem := some problem }

/-- The texts of files, or why they cannot be read. -/
abbrev Files := String → Except String String

/-- The settings of a file, or the usual ones. -/
def loadSettings (files : Files) : Option String → Except Problem Settings
  | none => .ok {}
  | some file => do
    let text ← (files file).mapError (.unreadSettings file)
    match Settings.parse text with
    | none => .error (.invalidSettings file)
    | some settings => .ok settings

/-- The tree of the unit in a file. -/
def loadTree (files : Files) (file : String) (serial : Nat) : Except Problem Tree := do
  let text ← (files file).mapError (.unreadUnit file)
  let unit ← (Source.CompilationUnit.parse text).mapError (.invalidUnit file)
  return Tree.ofUnit unit serial

/-- The type names that are known to a unit. -/
def typeTable (tree : Tree) (settings : Settings) (knownTypes : List String) : TypeTable :=
  ((TypeTable.builtins.extend tree.classNames).extend settings.knownTypes).extend knownTypes

/-- Checks the units of some files in their order; the trees are numbered by the
reports before them. -/
def checkFiles (files : Files) (settings : Settings) (knownTypes : List String) :
    List String → Runner → List Report → Except Problem (List Report × Runner)
  | [], runner, reports => .ok (reports, runner)
  | file :: rest, runner, reports => do
    let tree ← loadTree files file reports.length
    match runner.checkTree tree (typeTable tree settings knownTypes).environment with
    | (.error failure, _) => .error (.check failure)
    | (.ok report, runner) => checkFiles files settings knownTypes rest runner (reports ++ [report])

/-- The reports on the units of some files, and the counters of the session. -/
def check (files : Files) (paths : List String) (settings : Option String)
    (knownTypes disabled : List String) : Except Problem (List Report × Counters) := do
  let settings ← loadSettings files settings
  let (_, runner) := (Runner.standard settings.limits).disable (settings.disabled ++ disabled)
  let (reports, runner) ← checkFiles files settings knownTypes paths runner []
  return (reports, runner.session.counters)

/-- Prints graphs of fragments up to one that cannot be built; `printed` is what was
printed before. -/
def printGraphs (env : Environment) : List Fragment → String → Outcome
  | [], printed => { code := 0, output := printed }
  | fragment :: fragments, printed =>
    match Graph.ofFragment fragment env with
    | .error cause => .failed (.noGraph fragment.name cause) printed
    | .ok graph =>
      let gap := if printed.isEmpty then "" else "\n"
      printGraphs env fragments (printed ++ gap ++ graph.print)

/-- Prints the graphs of the fragments of a unit that have a body, or of those with
a certain name. -/
def graphs (files : Files) (file : String) (name : Option String) (settings : Option String)
    (knownTypes : List String) : Except Problem Outcome := do
  let settings ← loadSettings files settings
  let tree ← loadTree files file 0
  let chosen := tree.fragments.filter fun fragment =>
    fragment.hasBody && name.all (· == fragment.name)
  if chosen.isEmpty then
    match name with
    | some name => .error (.noFragment name file)
    | none => return { code := 0, output := tree.name ++ " has no fragments with a body\n" }
  else return printGraphs (typeTable tree settings knownTypes).environment chosen ""

/-- Carries out a request. -/
def Request.run (palette : Palette) (files : Files) : Request → Outcome
  | version => { code := 0, output := versionLine ++ "\n" }
  | help topic => { code := 0, output := topic.page.text ++ "\n" }
  | check paths settings format knownTypes disabled plain =>
    match Command.check files paths settings knownTypes disabled with
    | .error problem => .failed problem
    | .ok (reports, counters) =>
      let text := match format with
        | .human => Report.renderText (if plain then .plain else palette) reports
        | .json => Report.renderJson reports counters
      { code := if reports.any Report.hasErrors then 1 else 0, output := text ++ "\n" }
  | graphs file fragment settings knownTypes =>
    match Command.graphs files file fragment settings knownTypes with
    | .error problem => .failed problem
    | .ok outcome => outcome

/-- Carries out a command line. -/
def run (palette : Palette) (files : Files) (arguments : List String) : Outcome :=
  match request? arguments with
  | none => .failed .usage
  | some request => request.run palette files

end FragmentFlow.Command
