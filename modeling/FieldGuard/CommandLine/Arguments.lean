/-!
# `FieldGuard.CommandLine.Arguments`: the arguments of the command line

The program inspects or validates a fixture. Options stand as `--name value` or
`--name=value`, at most once each; what follows `--` is no option. Asking for help
or for the version ends the reading of arguments, as does the first mistake.

What a library for command lines would print as help or as an explanation of a mistake
is not written here: a request for information and a misuse are told apart, no more.
-/

set_option autoImplicit false

namespace FieldGuard.CommandLine

/-- What is done with a fixture. -/
inductive Command where
  /-- Renders every component and reports its metadata. -/
  | inspect
  /-- Renders and validates every component, then the objects that wait. -/
  | validate
  deriving DecidableEq, Repr, Inhabited

/-- The command of a name. -/
def Command.ofName? : String → Option Command
  | "inspect" => some .inspect
  | "validate" => some .validate
  | _ => none

/-- A command with its options. -/
structure Invocation where
  /-- Name of the settings file without its ending. -/
  config : String := "extval"
  command : Command
  fixture : String
  view : Option String := none
  deriving DecidableEq, Repr, Inhabited

/-- What the arguments ask for. -/
inductive Request where
  | run (i : Invocation)
  /-- Help or the version. -/
  | information
  | misuse
  deriving DecidableEq, Repr, Inhabited

/-- Whether an argument looks like an option. -/
def isOption (arg : String) : Bool :=
  arg.toList.head? == some '-' && arg != "-"

/-- Whether an argument asks for help. -/
def asksForHelp (arg : String) : Bool :=
  arg == "--help" || "-h".toList.isPrefixOf arg.toList

/-- Whether an argument asks for the version. -/
def asksForVersion (arg : String) : Bool :=
  arg == "--version" || "-V".toList.isPrefixOf arg.toList

/-- The value of an option that is written with an equals sign. -/
def inlineValue? (option arg : String) : Option String :=
  let start := (option ++ "=").toList
  if start.isPrefixOf arg.toList then some (String.ofList (arg.toList.drop start.length)) else none

/-- The arguments of a command that have been read. -/
structure Progress where
  fixture : Option String := none
  view : Option String := none

/-- Takes an argument as the fixture. -/
def Progress.takeFixture (p : Progress) (arg : String) : Option Progress :=
  if p.fixture.isSome || arg.isEmpty then none else some { p with fixture := some arg }

/-- Takes the value of the view option. -/
def Progress.takeView (p : Progress) (value : String) : Option Progress :=
  if p.view.isSome then none else some { p with view := some value }

/-- The request of a command whose arguments are complete. -/
def Progress.request (config : String) (command : Command) (p : Progress) : Request :=
  match p.fixture with
  | some fixture => .run { config, command, fixture, view := p.view }
  | none => .misuse

/-- Reads arguments that are no options. -/
def readPlain (config : String) (command : Command) (p : Progress) : List String → Request
  | [] => p.request config command
  | arg :: rest =>
    match p.takeFixture arg with
    | some p => readPlain config command p rest
    | none => .misuse

/-- Reads the arguments after a command. -/
def readCommand (config : String) (command : Command) (p : Progress) : List String → Request
  | [] => p.request config command
  | "--view" :: value :: rest =>
    if isOption value then .misuse
    else
      match p.takeView value with
      | some p => readCommand config command p rest
      | none => .misuse
  | "--" :: rest => readPlain config command p rest
  | arg :: rest =>
    if asksForHelp arg then .information
    else
      match inlineValue? "--view" arg with
      | some value =>
        match p.takeView value with
        | some p => readCommand config command p rest
        | none => .misuse
      | none =>
        if isOption arg then .misuse
        else
          match p.takeFixture arg with
          | some p => readCommand config command p rest
          | none => .misuse

/-- Whether the names after `help` are those of a command, or missing. -/
def helpRequest : List String → Request
  | [] => .information
  | [name] => if (Command.ofName? name).isSome || name == "help" then .information else .misuse
  | _ => .misuse

/-- Reads the arguments; `config` is the value of the option that has been read. -/
def readAll (config : Option String) : List String → Request
  | [] => .misuse
  | "--config" :: value :: rest =>
    if isOption value || config.isSome then .misuse else readAll (some value) rest
  | "help" :: names => helpRequest names
  | arg :: rest =>
    if asksForHelp arg || asksForVersion arg then .information
    else
      match inlineValue? "--config" arg with
      | some value => if config.isSome then .misuse else readAll (some value) rest
      | none =>
        match Command.ofName? arg with
        | some command => readCommand (config.getD "extval") command {} rest
        | none => .misuse

/-- What the arguments ask for. -/
def Request.ofArguments (args : List String) : Request :=
  readAll none args

end FieldGuard.CommandLine
