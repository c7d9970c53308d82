/-
The arguments of the program.

* `Arguments.parse` : what the arguments ask for.

Options may stand before and behind the command that they hold for, those of all commands on either
side.  A word behind two hyphens is an option, and the letters behind one are options each.  The
value of an option is the rest of its word or else the next word, which must not look like an option
itself.
-/

namespace CollectorTemplate

/-- The forms in which template data is printed. -/
inductive OutputFormat
  | json
  | yaml
  deriving Repr, DecidableEq, Inhabited

/-- What is to be done with a manifest. -/
inductive Command
  /-- Print the template data of the manifest. -/
  | render (input : String) (format : OutputFormat)
  /-- Print what is wrong with the exporters of the manifest. -/
  | check (input : String)
  deriving Repr, DecidableEq, Inhabited

/-- The manifest. -/
def Command.input : Command → String
  | render input _ => input
  | check input => input

/-- A command, with the options that hold for all of them. -/
structure Invocation where
  verbose : Bool
  /-- The configuration file. -/
  config : Option String
  command : Command
  deriving Repr, DecidableEq, Inhabited

/-- What the arguments ask for. -/
inductive Request
  | run (invocation : Invocation)
  | version
  | help
  /-- The arguments are malformed. -/
  | misuse
  deriving Repr, DecidableEq, Inhabited

namespace Arguments

/-- Where options stand. -/
inductive Place
  /-- Before the command. -/
  | front
  /-- Behind a command. -/
  | render
  | check
  deriving Repr, DecidableEq, Inhabited

/-- The options that have a value. -/
inductive Valued
  | config
  | input
  | format
  deriving Repr, DecidableEq, Inhabited

/-- The options without a value. -/
inductive Flag
  | verbose
  | version
  | help
  deriving Repr, DecidableEq, Inhabited

/-- An option. -/
inductive Choice
  | valued (option : Valued)
  | flag (flag : Flag)
  deriving Repr, DecidableEq, Inhabited

/-- The names of all options, with the places where they may stand. -/
def table : List (String × Char × Choice × List Place) :=
  [("verbose", 'v', .flag .verbose, [.front, .render, .check]),
    ("config", 'c', .valued .config, [.front, .render, .check]),
    ("version", 'V', .flag .version, [.front]),
    ("help", 'h', .flag .help, [.front, .render, .check]),
    ("input", 'i', .valued .input, [.render, .check]),
    ("format", 'f', .valued .format, [.render])]

def long? (place : Place) (name : String) : Option Choice :=
  (table.find? fun row => row.1 = name ∧ place ∈ row.2.2.2).map (·.2.2.1)

def short? (place : Place) (letter : Char) : Option Choice :=
  (table.find? fun row => row.2.1 = letter ∧ place ∈ row.2.2.2).map (·.2.2.1)

/-- The options that were read at one place. -/
structure Options where
  verbose : Bool := false
  config : Option String := none
  input : Option String := none
  format : Option OutputFormat := none
  deriving Repr, DecidableEq, Inhabited

/-- What the reading of options yields, unless something else is asked for before it ends. -/
abbrev Reads := Except Request

namespace Options

/-- Gives an option its value, which is not empty.  No option is given twice. -/
def give (o : Options) (option : Valued) (value : String) : Reads Options :=
  if value = "" then .error .misuse
  else
    match option with
    | .config => if o.config.isSome then .error .misuse else .ok { o with config := some value }
    | .input => if o.input.isSome then .error .misuse else .ok { o with input := some value }
    | .format =>
      if o.format.isSome then .error .misuse
      else if value = "json" then .ok { o with format := some .json }
      else if value = "yaml" then .ok { o with format := some .yaml }
      else .error .misuse

/-- Sets a flag. -/
def raise (o : Options) : Flag → Reads Options
  | .verbose => if o.verbose then .error .misuse else .ok { o with verbose := true }
  | .version => .error .version
  | .help => .error .help

end Options

/-- Reads the letters behind a hyphen, and answers also with the option that still needs a value. -/
def letters (place : Place) : List Char → Options → Reads (Options × Option Valued)
  | [], o => .ok (o, none)
  | letter :: rest, o =>
    match short? place letter with
    | none => .error .misuse
    | some (.flag flag) => do letters place rest (← o.raise flag)
    | some (.valued option) =>
      match rest with
      | [] => .ok (o, some option)
      | '=' :: value => (o.give option (String.ofList value)).map (·, none)
      | value => (o.give option (String.ofList value)).map (·, none)

/-- Reads what stands behind two hyphens, and answers also with the option that still needs a
value. -/
def word (place : Place) (text : List Char) (o : Options) : Reads (Options × Option Valued) :=
  match long? place (String.ofList (text.takeWhile (· ≠ '='))) with
  | none => .error .misuse
  | some choice =>
    match choice, text.dropWhile (· ≠ '=') with
    | .flag flag, [] => (o.raise flag).map (·, none)
    | .flag _, _ => .error .misuse
    | .valued option, [] => .ok (o, some option)
    | .valued option, _ :: value => (o.give option (String.ofList value)).map (·, none)

/-- Whether an argument looks like an option.  A single hyphen does not. -/
def isOption (argument : String) : Bool :=
  match argument.toList with
  | ['-'] => false
  | '-' :: _ => true
  | _ => false

/-- Reads options up to the first argument that is none, and answers also with that argument and
those behind it.  `needy` is the option that still needs a value. -/
def options (place : Place) :
    (arguments : List String) → (needy : Option Valued) → Options → Reads (Options × List String)
  | [], none, o => .ok (o, [])
  | [], some _, _ => .error .misuse
  | argument :: rest, some option, o =>
    if isOption argument then .error .misuse
    else do options place rest none (← o.give option argument)
  | argument :: rest, none, o =>
    if argument = "--" then if rest.isEmpty then .ok (o, []) else .error .misuse
    else if isOption argument then do
      let (o, needy) ←
        match argument.toList.drop 1 with
        | '-' :: text => word place text o
        | text => letters place text o
      options place rest needy o
    else .ok (o, argument :: rest)

/-- The options behind a command, which nothing may follow, together with those before it. -/
def behind (place : Place) (front : Options) (arguments : List String) : Reads Options := do
  let (o, rest) ← options place arguments none {}
  if !rest.isEmpty then throw .misuse
  return { o with verbose := front.verbose || o.verbose, config := o.config.or front.config }

/-- The invocation of a command.  The manifest must be named. -/
def invocation (o : Options) (command : String → Command) : Request :=
  match o.input with
  | none => .misuse
  | some input => .run ⟨o.verbose, o.config, command input⟩

/-- What the arguments of a whole call ask for. -/
def request (arguments : List String) : Reads Request := do
  let (front, rest) ← options .front arguments none {}
  match rest with
  | "render" :: rest =>
    let o ← behind .render front rest
    return invocation o fun input => .render input (o.format.getD .json)
  | "check" :: rest =>
    let o ← behind .check front rest
    return invocation o .check
  | ["help"] | ["help", "render"] | ["help", "check"] | ["help", "help"] => return .help
  | _ => throw .misuse

/-- What the arguments ask for. -/
def parse (arguments : List String) : Request :=
  match request arguments with
  | .ok r => r
  | .error r => r

end Arguments

end CollectorTemplate
