import Marksmith.CommandLine.Arguments
import Marksmith.CommandLine.Disk
import Marksmith.CommandLine.Listing
import Marksmith.Host.Load
import Marksmith.Pass.Session

/-!
Running of commands. A command reads and writes by way of a disk, and gives what it prints and its
exit code. A pass that finds errors still writes its files.

The settings of the model are overridden by the command line. A tag manager path of the model is
seen from the model's directory, one of the command line is not.
-/

namespace Marksmith

open CommandLine

/-! ### Inputs of a pass -/

/-- Where the settings of a model say that the tag manager asset lies, seen from the model's
directory. -/
def Settings.assetPath (s : Settings) (root : Option String) : String :=
  Path.join (root.getD ".") (s.tagManagerPath.getD Engine.tagManagerAsset)

namespace CommandLine.Overrides

/-- Settings with those of the command line in place. -/
def apply (o : Overrides) (s : Settings) : Settings :=
  { emitDocumentation := s.emitDocumentation && !o.noDocs
    alwaysEmitIndex := s.alwaysEmitIndex || o.alwaysEmitIndex
    tagManagerPath := o.tagManager.or s.tagManagerPath }

/-- Where the tag manager asset lies. -/
def assetPath (o : Overrides) (s : Settings) (root : Option String) : String :=
  o.tagManager.getD (s.assetPath root)

/-- The inputs of a pass, with the asset as it has been read. -/
def inputs (o : Overrides) (s : Settings) (asset : Option String) : PassInputs :=
  { settings := o.apply s, tagManager := asset }

end CommandLine.Overrides

/-! ### Commands -/

namespace CommandLine

/-- What a command prints, and its exit code. -/
structure Outcome where
  exitCode : Nat := 0
  stdout : String := ""
  stderr : String := ""
deriving DecidableEq, Repr

/-- Why a command ends early. -/
inductive Failure where
  | unreadable (path : String)
  | load (e : LoadError)
  | cancelled (c : Cancelled)
  /-- The output directory goes up somewhere. -/
  | traversal (dir : String)
  | cannotCreate (dir : String) (e : DiskError)
  | cannotWrite (file : String) (e : DiskError)
  | method (e : Listing.MethodError)
deriving Repr

/-- A report over several lines: a heading, and details below it. -/
def reportText (heading : String) (details : List String) : String :=
  heading ++ "\n\n" ++ String.join (details.map fun line => "  " ++ line ++ "\n")

/-- What is printed of a diagnostic. -/
def diagnosticReport (d : Diagnostic) : String :=
  reportText d.code.id [d.severity.heading ++ ": " ++ d.message, "help: at " ++ d.location.text]

/-- What is printed of a failure. -/
def Failure.text : Failure → String
  | unreadable path => reportText "Error" ["cannot read `" ++ path ++ "`"]
  | load e => reportText "Error" [e.message]
  | cancelled c => reportText "Error" [c.message]
  | traversal dir => "Output directory '" ++ dir ++ "' contains path traversal (..)\n"
  | cannotCreate dir e => "Cannot create '" ++ dir ++ "': " ++ e.message ++ "\n"
  | cannotWrite file e => "Cannot write '" ++ file ++ "': " ++ e.message ++ "\n"
  | method e => e.message ++ "\n"

/-- The outcome of a command that has failed behind some reports. -/
def Failure.outcome (reports : String) (f : Failure) : Outcome :=
  { exitCode := 1, stderr := reports ++ f.text }

section

variable {m : Type → Type} [Monad m] (disk : Disk m)

/-- Loads the project with a model file. -/
def loadHost (path : String) : ExceptT Failure m Host := ExceptT.mk do
  match ← disk.read path with
  | none => return .error (.unreadable path)
  | some text => return (Host.ofText text).mapError .load

/-- Runs a pass over a project with the model file at a path. -/
def runPass (host : Host) (path : String) (overrides : Overrides) : ExceptT Failure m PassResult :=
  ExceptT.mk do
    let settings := host.model.settings
    let asset ← disk.read (overrides.assetPath settings (Path.parent? path))
    return (generate host (overrides.inputs settings asset) .live).mapError .cancelled

/-- The exit code that tells whether a pass has found errors. -/
def passExitCode (r : PassResult) : Nat := if r.hasErrors then 1 else 0

/-- What is printed of the diagnostics of a pass. -/
def passReports (r : PassResult) : String := String.join (r.diagnostics.map diagnosticReport)

/-- The directory that generated files go to if no other one is given. -/
def defaultOutput : String := "Generated"

/-- Writes files into a directory, until one cannot be written. -/
def writeFiles (dir : String) : List SourceFile → ExceptT Failure m Unit
  | [] => return
  | file :: files => do
    let path := Path.join dir file.name
    match ← disk.write path file.text with
    | .error e => throw (.cannotWrite path e)
    | .ok () => writeFiles dir files

/-- Writes the files of a pass into a directory that is made for them. -/
def writePass (dir : String) (r : PassResult) : ExceptT Failure m Unit := do
  match ← disk.makeDir dir with
  | .error e => throw (.cannotCreate dir e)
  | .ok () => writeFiles disk dir r.files

/-- Generates into a directory. -/
def runGenerate (path : String) (output : Option String) (overrides : Overrides) :
    ExceptT Failure m Outcome := do
  let host ← loadHost disk path
  let dir := output.getD (Path.join ((Path.parent? path).getD "") defaultOutput)
  if Path.goesUp dir then throw (.traversal dir)
  let r ← runPass disk host path overrides
  let reports := passReports r
  ExceptT.mk do
    match ← (writePass disk dir r).run with
    | .error e => return .ok (e.outcome reports)
    | .ok () =>
      return .ok
        { exitCode := passExitCode r
          stdout := "Generated " ++ toString r.files.length ++ " file(s) in " ++ dir ++ "\n"
          stderr := reports }

/-- Reports without writing files. -/
def runCheck (path : String) (overrides : Overrides) : ExceptT Failure m Outcome := do
  let host ← loadHost disk path
  let r ← runPass disk host path overrides
  let errors := (r.diagnostics.filter (·.isError)).length
  return {
    exitCode := passExitCode r
    stdout := toString r.files.length ++ " source(s), " ++ toString errors ++ " error(s), " ++
      toString (r.diagnostics.length - errors) ++ " warning(s)\n"
    stderr := passReports r }

/-- Lists the ids of union variants. -/
def runUnionIds (path : String) : ExceptT Failure m Outcome := do
  let index := MarkerIndex.ofHost (← loadHost disk path)
  return {
    exitCode := if index.families.values.any fun f => f.ids.toOption.isNone then 1 else 0
    stdout := Listing.textOf (Listing.unionLines index) }

/-- Lists how the assignments of a method resolve. -/
def runResolve (path typeName method : String) : ExceptT Failure m Outcome := do
  let host ← loadHost disk path
  match Listing.methodLines host (MarkerIndex.ofHost host) .live typeName method with
  | .error e => throw (.method e)
  | .ok lines => return { stdout := Listing.textOf lines }

/-- Runs a command. -/
def Command.run (command : Command) : m Outcome := do
  let result ← (match command with
    | .generate model output overrides => runGenerate disk model output overrides
    | .check model overrides => runCheck disk model overrides
    | .unionIds model => runUnionIds disk model
    | .resolve model typeName method => runResolve disk model typeName method).run
  match result with
  | .ok outcome => return outcome
  | .error f => return f.outcome ""

end

/-! ### Invocations -/

/-- The version of the program. -/
def versionText : String := "derivgen 0.1.0-alpha.1\n"

/-- How the program is used. -/
def usageText (topic : Option CommandName) : String :=
  "Usage: " ++ (topic.map (·.usage)).getD "derivgen <COMMAND>" ++ "\n"

/-- The help for a command, or for the program. -/
def helpText (topic : Option CommandName) : String :=
  match topic with
  | some name => name.summary ++ "\n\n" ++ usageText topic
  | none =>
    "Attribute-driven source generator for Unity C# projects\n\n" ++ usageText none ++
      "\nCommands:\n" ++
      String.join
        (CommandName.all.map fun name => "  " ++ name.text ++ ": " ++ name.summary ++ "\n")

/-- Runs the program with its arguments. -/
def run {m : Type → Type} [Monad m] (disk : Disk m) (args : List String) : m Outcome :=
  match Invocation.ofArgs args with
  | .run command => command.run disk
  | .help topic => return { stdout := helpText topic }
  | .version => return { stdout := versionText }
  | .refused topic e =>
    return { exitCode := 2, stderr := "error: " ++ e.message ++ "\n\n" ++ usageText topic }

end CommandLine

end Marksmith
