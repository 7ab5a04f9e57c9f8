import ServiceEngine.Fields
import ServiceEngine.Text.Split

/-!
# Commands

The command line has a command with its arguments, and options. An option is written `--name value`,
`--name=value` or, for the program, `-p value`, `-pvalue` or `-p=value`. A value that stands on its own
does not start with `-`, unless it is `-` itself. No option is given twice on one side of the command's
name. The options `--config` and `--program` may stand on either side of it; what stands behind it
wins. Behind `--` everything is an argument.
-/

namespace ServiceEngine

/-- What to do. Mirrors `Commands`. -/
inductive Command where
  /-- List the endpoints. -/
  | routes
  /-- List the jobs. -/
  | jobs
  /-- Answer one request. -/
  | call (method path : String) (body seed : Option String) (dump : Bool)
  /-- Run one job. -/
  | runJob (name : String) (seed : Option String)
  /-- Run the scheduler until interrupted. -/
  | run
  deriving DecidableEq, Repr

/-- A command and where its service comes from. Mirrors `Cli`. -/
structure Invocation where
  config : Option String
  program : Option String
  command : Command
  deriving DecidableEq, Repr

namespace Command

/-! ## Options -/

/-- The names of the options. -/
inductive Name where
  | config
  | program
  | body
  | seed
  | dump
  deriving DecidableEq, Repr

def Name.spelling : Name → String
  | .config => "config"
  | .program => "program"
  | .body => "body"
  | .seed => "seed"
  | .dump => "dump"

/-- Whether an option has a value. -/
def Name.hasValue (name : Name) : Bool := name ≠ .dump

/-- Whether the value of an option is a path, which is not empty. -/
def Name.isPath (name : Name) : Bool := name = .config || name = .program

/-- The options that stand on either side of the command's name. -/
def Name.everywhere : List Name := [.config, .program]

/-- What a word of the command line is. -/
inductive Word where
  | argument
  | option (name : Name) (value : Option String)
  | unknown

/-- Read a word where the options `known` may stand. -/
def Word.read (known : List Name) (word : String) : Word :=
  match word.toList with
  | '-' :: '-' :: rest =>
    let (spelling, value) := match Text.cut? '=' rest with
      | some (spelling, value) => (spelling, some (String.ofList value))
      | none => (rest, none)
    match known.find? (fun name => name.spelling.toList = spelling) with
    | some name => .option name value
    | none => .unknown
  | ['-'] => .argument
  | ['-', 'p'] => .option .program none
  | '-' :: 'p' :: '=' :: value => .option .program (some (String.ofList value))
  | '-' :: 'p' :: value => .option .program (some (String.ofList value))
  | '-' :: _ => .unknown
  | _ => .argument

/-- The options given so far, each with its value, if it has one. -/
abbrev Given := List (Name × String)

def Given.value? (given : Given) (name : Name) : Option String := given.lookup name

/-- Add an option that is not given yet. -/
def Given.add? (given : Given) (name : Name) (value : String) : Option Given :=
  if (given.value? name).isSome || (name.isPath && value.isEmpty) then none
  else some ((name, value) :: given)

/-- Whether a word can be the value of the option before it. -/
def isValue (word : String) : Bool := word = "-" || word.toList.head? ≠ some '-'

/-! ## The two sides -/

/-- Read the options in front of the command's name; gives them, the name and what follows. -/
def front? (given : Given) : List String → Option (Given × String × List String)
  | [] => none
  | word :: rest =>
    match Word.read Name.everywhere word with
    | .unknown => none
    | .argument => some (given, word, rest)
    | .option name (some value) =>
      match given.add? name value with
      | some given => front? given rest
      | none => none
    | .option name none =>
      match rest with
      | [] => none
      | value :: rest =>
        if isValue value then
          match given.add? name value with
          | some given => front? given rest
          | none => none
        else none

/-- Read the options and arguments behind the command's name. -/
def back? (known : List Name) (given : Given) (arguments : List String) :
    List String → Option (Given × List String)
  | [] => some (given, arguments)
  | word :: rest =>
    -- From here on a leading `-` means nothing.
    if word = "--" then some (given, arguments ++ rest)
    else match Word.read known word with
    | .unknown => none
    | .argument => back? known given (arguments ++ [word]) rest
    | .option name (some value) =>
      if name.hasValue then
        match given.add? name value with
        | some given => back? known given arguments rest
        | none => none
      else none
    | .option name none =>
      if name.hasValue then
        match rest with
        | [] => none
        | value :: rest =>
          if isValue value then
            match given.add? name value with
            | some given => back? known given arguments rest
            | none => none
          else none
      -- An option without value is given or not; its text does not count.
      else match given.add? name "" with
        | some given => back? known given arguments rest
        | none => none

/-! ## Commands -/

/-- The options that a command knows besides those that stand everywhere, if there is such a command. -/
def options? : String → Option (List Name)
  | "routes" => some []
  | "jobs" => some []
  | "call" => some [.body, .seed, .dump]
  | "run-job" => some [.seed]
  | "run" => some []
  | _ => none

/-- The command of a name, with its options and arguments. -/
def of? (name : String) (given : Given) (arguments : List String) : Option Command :=
  match name, arguments with
  | "routes", [] => some .routes
  | "jobs", [] => some .jobs
  | "call", [method, path] =>
    some (.call method path (given.value? .body) (given.value? .seed) (given.value? .dump).isSome)
  | "run-job", [job] => some (.runJob job (given.value? .seed))
  | "run", [] => some .run
  | _, _ => none

end Command

/-- Read a command line. -/
def Invocation.read? (words : List String) : Option Invocation := do
  let (before, name, rest) ← Command.front? [] words
  let options ← Command.options? name
  let (after, arguments) ← Command.back? (Command.Name.everywhere ++ options) [] [] rest
  let command ← Command.of? name after arguments
  return ⟨after.value? .config <|> before.value? .config,
    after.value? .program <|> before.value? .program, command⟩

end ServiceEngine
