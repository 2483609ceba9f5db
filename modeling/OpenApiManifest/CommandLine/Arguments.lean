/-!
# Arguments

What a list of arguments asks for.  A command has options, which take values, and flags, which take
none; each has a long name, and some have a letter.  Several letters may share an argument, and a
value may be joined to its option.  An option that is not given its value, an unknown argument and a
repeated option are wrong usage, and so is a command that lacks something that it needs.
-/

namespace OpenApiManifest.CommandLine

/-- When the output is coloured. -/
inductive ColorMode where
  | always | auto | never
  deriving DecidableEq, Repr

/-- The kind of background that colours are chosen for. -/
inductive ThemeMode where
  | dark | light | auto
  deriving DecidableEq, Repr

/-- What is to be generated. -/
structure GenerateCommand where
  inputs : List String
  output : String
  config : Option String
  allSchemas : Bool
  verbose : Bool
  quiet : Bool
  deriving DecidableEq, Repr

/-- What is to be done. -/
inductive Command where
  | listOperations (input : String)
  | listModels (input : String) (config : Option String) (allSchemas : Bool)
  | generate (command : GenerateCommand)
  deriving DecidableEq, Repr

/-- What is to be done, and how its output looks. -/
structure Invocation where
  color : ColorMode
  theme : ThemeMode
  command : Command
  deriving DecidableEq, Repr

/-- What a list of arguments asks for. -/
inductive Request where
  | run (invocation : Invocation)
  | help
  | version
  | misuse
  deriving DecidableEq, Repr

def ColorMode.ofName? (name : String) : Option ColorMode :=
  [("always", ColorMode.always), ("auto", .auto), ("never", .never)].lookup name

def ThemeMode.ofName? (name : String) : Option ThemeMode :=
  [("dark", ThemeMode.dark), ("light", .light), ("auto", .auto)].lookup name

/-- The options and the flags. -/
inductive Setting where
  | color | theme | input | output | config | allSchemas | verbose | quiet | help | version
  deriving DecidableEq, Repr

/-- How many values a setting takes. -/
inductive Arity where
  | none | one | many
  deriving DecidableEq, Repr

namespace Setting

/-- The name of a setting after two dashes. -/
def name : Setting → String
  | .color => "color"
  | .theme => "theme"
  | .input => "input"
  | .output => "output"
  | .config => "config"
  | .allSchemas => "all-schemas"
  | .verbose => "verbose"
  | .quiet => "quiet"
  | .help => "help"
  | .version => "version"

/-- The letter of a setting after one dash. -/
def letter? : Setting → Option Char
  | .input => some 'i'
  | .output => some 'o'
  | .config => some 'c'
  | .verbose => some 'v'
  | .quiet => some 'q'
  | .help => some 'h'
  | .version => some 'V'
  | _ => none

def accepts : Setting → String → Bool
  | .color, value => (ColorMode.ofName? value).isSome
  | .theme, value => (ThemeMode.ofName? value).isSome
  | _, value => !value.isEmpty

end Setting

/-- The places at which arguments are read: before the first command, or after a command. -/
inductive Scope where
  | top | list | generate | listOperations | listModels
  deriving DecidableEq, Repr

namespace Scope

def common : List (Setting × Arity) :=
  [(.color, .one), (.theme, .one), (.help, .none)]

/-- The settings that are known at a place. -/
def settings : Scope → List (Setting × Arity)
  | .top => common ++ [(.version, .none)]
  | .list => common
  | .generate =>
    common ++ [(.input, .many), (.output, .one), (.config, .one), (.allSchemas, .none),
      (.verbose, .none), (.quiet, .none)]
  | .listOperations => common ++ [(.input, .one)]
  | .listModels => common ++ [(.input, .one), (.config, .one), (.allSchemas, .none)]

/-- The commands that may follow at a place. -/
def commands : Scope → List (String × Scope)
  | .top => [("list", .list), ("generate", .generate)]
  | .list => [("operations", .listOperations), ("models", .listModels)]
  | _ => []

/-- Whether a word is a command at a place.  Where there are commands, one shows help on them. -/
def isCommand (scope : Scope) (word : String) : Bool :=
  !scope.commands.isEmpty && (word = "help" || (scope.commands.lookup word).isSome)

def named? (scope : Scope) (name : String) : Option (Setting × Arity) :=
  scope.settings.find? fun entry => entry.1.name = name

def lettered? (scope : Scope) (letter : Char) : Option (Setting × Arity) :=
  scope.settings.find? fun entry => entry.1.letter? = some letter

end Scope

/-- Why the reading of arguments ends early. -/
inductive Stop where
  | help | version | misuse
  deriving DecidableEq, Repr

/-- The settings that were given, with their values. -/
abbrev Given := List (Setting × List String)

namespace Given

/-- Adds a setting and its values.  Only a setting that takes many values may be given again. -/
def add (given : Given) (setting : Setting) (arity : Arity) (values : List String) :
    Except Stop Given :=
  if !values.all setting.accepts || (arity ≠ .none && values.isEmpty) then .error .misuse
  else
    match given.lookup setting with
    | none => .ok (given ++ [(setting, values)])
    | some earlier =>
      if arity = .many then
        .ok (given.map fun entry =>
          if entry.1 = setting then (setting, earlier ++ values) else entry)
      else .error .misuse

def addFlag (given : Given) : Setting → Except Stop Given
  | .help => .error .help
  | .version => .error .version
  | setting => given.add setting .none []

def has (given : Given) (setting : Setting) : Bool :=
  (given.lookup setting).isSome

def values (given : Given) (setting : Setting) : List String :=
  (given.lookup setting).getD []

def value? (given : Given) (setting : Setting) : Option String :=
  (given.values setting).head?

end Given

/-- An option that may take further values. -/
structure OpenOption where
  setting : Setting
  arity : Arity
  values : List String

def Given.settle (given : Given) : Option OpenOption → Except Stop Given
  | none => .ok given
  | some option => given.add option.setting option.arity option.values

/-- The name and the value of an argument with two dashes. -/
def longArgument? (argument : String) : Option (String × Option String) :=
  match argument.toList with
  | '-' :: '-' :: rest =>
    let name := rest.takeWhile (· ≠ '=')
    match rest.dropWhile (· ≠ '=') with
    | [] => some (String.ofList name, none)
    | _ :: value => some (String.ofList name, some (String.ofList value))
  | _ => none

/-- The letters of an argument with one dash; a dash alone is a value. -/
def letters? (argument : String) : Option (List Char) :=
  match argument.toList with
  | '-' :: letter :: rest => some (letter :: rest)
  | _ => none

/-- Reads letters that share an argument.  What follows the letter of an option is its value. -/
def readLetters (scope : Scope) :
    Given → List Char → Except Stop (Given × Option OpenOption)
  | given, [] => .ok (given, none)
  | given, letter :: rest =>
    match scope.lettered? letter with
    | none => .error .misuse
    | some (setting, .none) => do readLetters scope (← given.addFlag setting) rest
    | some (setting, arity) =>
      match rest with
      | [] => .ok (given, some ⟨setting, arity, []⟩)
      | '=' :: value => do
        return (← given.add setting arity [String.ofList value], none)
      | value => do return (← given.add setting arity [String.ofList value], none)

/-- Reads the arguments at a place up to a command, and gives the arguments from that command on. -/
def readArguments (scope : Scope) :
    Option OpenOption → Given → List String → Except Stop (Given × List String)
  | option, given, [] => do return (← given.settle option, [])
  | option, given, argument :: rest =>
    if option.isNone && scope.isCommand argument then .ok (given, argument :: rest)
    else if argument = "--" then
      if rest.isEmpty then do return (← given.settle option, []) else .error .misuse
    else
      match longArgument? argument, letters? argument with
      | some (name, value?), _ => do
        let given ← given.settle option
        match scope.named? name, value? with
        | none, _ => .error .misuse
        | some (_, .none), some _ => .error .misuse
        | some (setting, .none), none =>
          readArguments scope none (← given.addFlag setting) rest
        | some (setting, arity), some value =>
          readArguments scope none (← given.add setting arity [value]) rest
        | some (setting, arity), none =>
          readArguments scope (some ⟨setting, arity, []⟩) given rest
      | none, some letters => do
        let (given, option) ← readLetters scope (← given.settle option) letters
        readArguments scope option given rest
      | none, none =>
        match option with
        | none => .error .misuse
        | some option => do
          let option := { option with values := option.values ++ [argument] }
          if option.arity = .many then readArguments scope (some option) given rest
          else readArguments scope none (← given.settle (some option)) rest

/-- What becomes of a demand for help on some commands. -/
def helpOn (scope : Scope) : List String → Stop
  | [] => .help
  | word :: rest =>
    match scope.commands.lookup word with
    | some inner => helpOn inner rest
    | none => if scope.isCommand word ∧ rest.isEmpty then .help else .misuse

/-- Reads the arguments from a place on: the last command, and what was given at each place, the last
one first. -/
def readCommands : Nat → Scope → List String → Except Stop (Scope × List Given)
  | 0, _, _ => .error .misuse
  | levels + 1, scope, arguments => do
    let (given, rest) ← readArguments scope none [] arguments
    match rest with
    | [] => return (scope, [given])
    | word :: rest =>
      match scope.commands.lookup word with
      | some inner => do
        let (last, all) ← readCommands levels inner rest
        return (last, all ++ [given])
      | none => .error (helpOn scope rest)

/-- The command that was given at a place. -/
def Command.ofGiven? (scope : Scope) (given : Given) : Option Command := do
  match scope with
  | .top => none
  | .list => none
  | .listOperations => return .listOperations (← given.value? .input)
  | .listModels =>
    return .listModels (← given.value? .input) (given.value? .config) (given.has .allSchemas)
  | .generate =>
    if given.has .verbose && given.has .quiet then none
    else
      let _ ← given.value? .input
      return .generate
        { inputs := given.values .input
          output := ← given.value? .output
          config := given.value? .config
          allSchemas := given.has .allSchemas
          verbose := given.has .verbose
          quiet := given.has .quiet }

/-- The value that was given at the last place where there was one. -/
def lastGiven? (all : List Given) (setting : Setting) : Option String :=
  all.findSome? fun given => given.value? setting

def Request.ofArguments (arguments : List String) : Request :=
  match readCommands 3 .top arguments with
  | .error .help => .help
  | .error .version => .version
  | .error .misuse => .misuse
  | .ok (scope, all) =>
    match Command.ofGiven? scope (all.headD []) with
    | none => .misuse
    | some command =>
      .run
        { color := ((lastGiven? all .color).bind ColorMode.ofName?).getD .auto
          theme := ((lastGiven? all .theme).bind ThemeMode.ofName?).getD .auto
          command }

end OpenApiManifest.CommandLine
