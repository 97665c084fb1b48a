/-!
Arguments of the command line. They are read from the front, and the first thing that is wrong is
reported; a request for help or for the version ends the reading where it stands.
-/

namespace Marksmith.CommandLine

/-- Settings given on the command line. -/
structure Overrides where
  tagManager : Option String := none
  noDocs : Bool := false
  alwaysEmitIndex : Bool := false
deriving DecidableEq, Repr

/-- What the program is asked to do with a project. -/
inductive Command where
  /-- Write the generated files. -/
  | generate (model : String) (output : Option String) (overrides : Overrides)
  /-- Report only. -/
  | check (model : String) (overrides : Overrides)
  /-- List the ids of union variants. -/
  | unionIds (model : String)
  /-- List how the assignments of a method resolve. -/
  | resolve (model typeName method : String)
deriving DecidableEq, Repr

/-- The commands by name. -/
inductive CommandName where
  | generate | check | unionIds | resolve
deriving DecidableEq, Repr

namespace CommandName

def all : List CommandName := [generate, check, unionIds, resolve]

/-- The name of a command. -/
def text : CommandName → String
  | generate => "generate"
  | check => "check"
  | unionIds => "union-ids"
  | resolve => "resolve"

/-- What a command does. -/
def summary : CommandName → String
  | generate => "Run a generation pass and write the generated sources"
  | check => "Run a generation pass and report diagnostics without writing files"
  | unionIds => "Print the type ids assigned to each union family"
  | resolve => "Show the resolved type of each assignment in an `[Inject]` method"

/-- How a command is used. -/
def usage : CommandName → String
  | generate => "derivgen generate [OPTIONS] <MODEL>"
  | check => "derivgen check [OPTIONS] <MODEL>"
  | unionIds => "derivgen union-ids <MODEL>"
  | resolve => "derivgen resolve <MODEL> <TYPE> <METHOD>"

end CommandName

/-- What is wrong with the arguments. -/
inductive UsageError where
  | missingCommand
  | unknownCommand (name : String)
  | unexpectedArgument (arg : String)
  | repeatedOption (option : String)
  | missingValue (option : String)
  | unexpectedValue (option value : String)
  | missingArgument (name : String)
deriving DecidableEq, Repr

/-- The wording of a usage error. -/
def UsageError.message : UsageError → String
  | missingCommand => "a subcommand is required but was not provided"
  | unknownCommand name => "unrecognized subcommand '" ++ name ++ "'"
  | unexpectedArgument arg => "unexpected argument '" ++ arg ++ "' found"
  | repeatedOption option => "the argument '" ++ option ++ "' cannot be used multiple times"
  | missingValue option => "a value is required for '" ++ option ++ "' but none was supplied"
  | unexpectedValue option value =>
    "unexpected value '" ++ value ++ "' for '" ++ option ++ "' found; no more were expected"
  | missingArgument name => "the following required arguments were not provided: <" ++ name ++ ">"

/-- What an invocation of the program asks for. -/
inductive Invocation where
  | run (command : Command)
  | help (topic : Option CommandName)
  | version
  /-- The command whose arguments are wrong, if there is one, and what is wrong. -/
  | refused (topic : Option CommandName) (e : UsageError)
deriving DecidableEq, Repr

/-! ### Arguments of a command -/

/-- An argument by its place. -/
structure Positional where
  name : String
  mayBeEmpty : Bool

/-- The arguments that a command takes. -/
structure Grammar where
  positionals : List Positional
  /-- Long options with a value. -/
  valued : List String := []
  /-- Short options, with the long ones that they stand for. -/
  short : List (Char × String) := []
  /-- Long options without a value. -/
  flags : List String := []

/-- The arguments given so far. -/
structure Given where
  positionals : List String := []
  values : List (String × String) := []
  flags : List String := []

/-- Why the reading of a command's arguments ends early. -/
inductive Stop where
  | help
  | refused (e : UsageError)

namespace Grammar

variable (grammar : Grammar)

/-- Takes an argument by its place. -/
def addPositional (given : Given) (arg : String) : Except Stop Given :=
  match grammar.positionals[given.positionals.length]? with
  | none => .error (.refused (.unexpectedArgument arg))
  | some p =>
    if arg.isEmpty && !p.mayBeEmpty then .error (.refused (.missingValue p.name))
    else .ok { given with positionals := given.positionals ++ [arg] }

/-- Takes an option without a value. -/
def addFlag (given : Given) (option : String) : Except Stop Given :=
  if given.flags.contains option then .error (.refused (.repeatedOption option))
  else .ok { given with flags := option :: given.flags }

/-- Takes an option with its value, which is a path. -/
def addValue (given : Given) (option value : String) : Except Stop Given :=
  if value.isEmpty then .error (.refused (.missingValue option))
  else if (given.values.lookup option).isSome then .error (.refused (.repeatedOption option))
  else .ok { given with values := (option, value) :: given.values }

/-- Whether an argument stands for itself: it is no option. -/
def isPlain (arg : String) : Bool :=
  match arg.toList with
  | '-' :: _ :: _ => false
  | _ => true

/-- The name of an option and the value behind an equals sign. -/
def splitOption (s : List Char) : String × Option String :=
  let name := s.takeWhile (· != '=')
  match s.dropWhile (· != '=') with
  | [] => (String.ofList name, none)
  | _ :: value => (String.ofList name, some (String.ofList value))

/-- What an argument is. -/
inductive Meaning where
  | positional
  | help
  | flag (name : String)
  | valued (name : String) (attached : Option String)
  | wrong (e : UsageError)

/-- What a long option means. -/
def longMeaning (s : List Char) : Meaning :=
  match splitOption s with
  | ("help", none) => .help
  | (name, attached) =>
    if grammar.valued.contains name then .valued name attached
    else if grammar.flags.contains name || name == "help" then
      match attached with
      | none => .flag name
      | some value => .wrong (.unexpectedValue name value)
    else .wrong (.unexpectedArgument ("--" ++ name))

/-- What a short option means, with what is attached to it. -/
def shortMeaning (c : Char) (behind : List Char) : Meaning :=
  if c = 'h' then .help
  else
    match grammar.short.lookup c, behind with
    | some name, [] => .valued name none
    | some name, '=' :: value => .valued name (some (String.ofList value))
    | some name, value => .valued name (some (String.ofList value))
    | none, _ => .wrong (.unexpectedArgument (String.ofList ['-', c]))

/-- What an argument means. -/
def meaning (arg : String) : Meaning :=
  match arg.toList with
  | '-' :: '-' :: long => grammar.longMeaning long
  | '-' :: c :: behind => grammar.shortMeaning c behind
  | _ => .positional

/-- Reads the arguments of a command. Behind two dashes everything is taken by its place. -/
def read (given : Given) : List String → Except Stop Given
  | [] => .ok given
  | "--" :: rest => rest.foldlM grammar.addPositional given
  | arg :: rest =>
    match grammar.meaning arg with
    | .positional => do read (← grammar.addPositional given arg) rest
    | .help => .error .help
    | .flag name => do read (← addFlag given name) rest
    | .valued name (some value) => do read (← addValue given name value) rest
    | .valued name none =>
      match rest with
      | value :: more =>
        if isPlain value then do read (← addValue given name value) more
        else .error (.refused (.missingValue name))
      | [] => .error (.refused (.missingValue name))
    | .wrong e => .error (.refused e)

/-- The first argument that is missing. -/
def missing? (given : Given) : Option UsageError :=
  (grammar.positionals[given.positionals.length]?).map fun p => .missingArgument p.name

end Grammar

namespace CommandName

def modelArgument : Positional := ⟨"MODEL", false⟩

/-- The option with the path of the tag manager asset. -/
def tagManagerOption : String := "tag-manager"

def outputOption : String := "output"

def noDocsFlag : String := "no-docs"

def alwaysEmitIndexFlag : String := "always-emit-index"

/-- The arguments of a command. -/
def grammar : CommandName → Grammar
  | generate =>
    { positionals := [modelArgument]
      valued := [outputOption, tagManagerOption]
      short := [('o', outputOption)]
      flags := [noDocsFlag, alwaysEmitIndexFlag] }
  | check =>
    { positionals := [modelArgument]
      valued := [tagManagerOption]
      flags := [noDocsFlag, alwaysEmitIndexFlag] }
  | unionIds => { positionals := [modelArgument] }
  | resolve => { positionals := [modelArgument, ⟨"TYPE", true⟩, ⟨"METHOD", true⟩] }

/-- The settings among the arguments. -/
def overrides (given : Given) : Overrides :=
  { tagManager := given.values.lookup tagManagerOption
    noDocs := given.flags.contains noDocsFlag
    alwaysEmitIndex := given.flags.contains alwaysEmitIndexFlag }

/-- The command with its arguments, if none is missing. -/
def command? (name : CommandName) (given : Given) : Option Command :=
  match name, given.positionals with
  | generate, [model] => some (.generate model (given.values.lookup outputOption) (overrides given))
  | check, [model] => some (.check model (overrides given))
  | unionIds, [model] => some (.unionIds model)
  | resolve, [model, type, method] => some (.resolve model type method)
  | _, _ => none

/-- What a command is asked to do. -/
def invocation (name : CommandName) (args : List String) : Invocation :=
  match name.grammar.read {} args with
  | .error .help => .help name
  | .error (.refused e) => .refused name e
  | .ok given =>
    match name.command? given with
    | some command => .run command
    | none => .refused name ((name.grammar.missing? given).getD .missingCommand)

/-- The command of a name. -/
def ofText? (s : String) : Option CommandName := all.find? (·.text == s)

end CommandName

namespace Invocation

/-- The command that help for commands goes by. -/
def helpName : String := "help"

/-- What is asked for behind the command for help. -/
def helpFor : List String → Invocation
  | [] => .help none
  | [name] =>
    match CommandName.ofText? name with
    | some topic => .help topic
    | none => if name = helpName then .help none else .refused none (.unknownCommand name)
  | name :: other :: _ =>
    match CommandName.ofText? name with
    | some topic => .refused topic (.unknownCommand other)
    | none => .refused none (.unknownCommand name)

/-- What the program is asked to do. -/
def ofArgs : List String → Invocation
  | [] => .refused none .missingCommand
  | arg :: rest =>
    match arg.toList with
    | '-' :: 'h' :: _ => .help none
    | '-' :: 'V' :: _ => .version
    | '-' :: _ :: _ =>
      if arg = "--help" then .help none
      else if arg = "--version" then .version
      else .refused none (.unexpectedArgument arg)
    | _ =>
      if arg = helpName then helpFor rest
      else
        match CommandName.ofText? arg with
        | some name => name.invocation rest
        | none => .refused none (.unknownCommand arg)

end Invocation

end Marksmith.CommandLine
