import Mc68000.SortProgram
import Mc68000.Text.Number

/-!
# Arguments of the command line

* `Command` -- what to do, and `Invocation` -- a command with how much to log, or a plea for help;
* `ArgumentError` -- what is wrong with arguments, and `ArgumentError.message`, its text;
* `Invocation.parse` -- reads arguments. The logging options may stand anywhere, and a plea for
  help wins over all else.
-/

namespace Mc68000.CommandLine

/-- How much to log. -/
inductive LogLevel where
  | info
  | debug
  | trace
  deriving DecidableEq, Repr

/-- The more talkative of two levels. -/
def LogLevel.max : LogLevel → LogLevel → LogLevel
  | trace, _ | _, trace => trace
  | debug, _ | _, debug => debug
  | info, info => info

/-- How to run a program. -/
structure RunOptions where
  input : String
  address : Address
  maxSteps : Option Nat
  /-- A range of memory to show after the run: its address and its length. -/
  dump : Option (Address × Nat)
  deriving DecidableEq, Repr

/-- How to list a program. -/
structure ListOptions where
  input : String
  address : Address
  deriving DecidableEq, Repr

/-- What to do. -/
inductive Command where
  | sort
  | run (options : RunOptions)
  | list (options : ListOptions)
  deriving DecidableEq, Repr

/-- What the arguments ask for. -/
inductive Invocation where
  | help
  | command (command : Command) (level : LogLevel)
  deriving DecidableEq, Repr

/-- What is wrong with arguments. -/
inductive ArgumentError where
  | unexpectedArgument (arg : String)
  | unknownCommand (arg : String)
  | missingValue (option : String)
  | invalidNumber (text : String)
  | invalidDumpRange (text : String)
  | unknownOption (arg : String)
  | multipleInputs
  | missingInput
  deriving DecidableEq, Repr

/-- The text of an error. -/
def ArgumentError.message : ArgumentError → String
  | unexpectedArgument arg => "unexpected argument: " ++ arg
  | unknownCommand arg => "unknown command: " ++ arg
  | missingValue option => "missing value for " ++ option
  | invalidNumber text => "invalid number: " ++ text
  | invalidDumpRange text => "invalid dump range: " ++ text
  | unknownOption arg => "unknown option: " ++ arg
  | multipleInputs => "multiple input paths provided"
  | missingInput => "missing input path"

/-! ## 1. Values -/

/-- Reads a number. -/
def number (text : String) : Except ArgumentError (BitVec 32) :=
  match Number.parse? text with
  | some n => .ok n
  | none => .error (.invalidNumber text)

/-- Reads an address and a length with a colon between them. Of two wrong numbers the length is
    reported. -/
def dumpRange (text : String) : Except ArgumentError (Address × Nat) :=
  let cs := text.toList
  match cs.dropWhile (· ≠ ':') with
  | [] => .error (.invalidDumpRange text)
  | _ :: lengthText => do
    let length ← number (String.ofList lengthText)
    let address ← number (String.ofList (cs.takeWhile (· ≠ ':')))
    return (address, length.toNat)

/-! ## 2. Options -/

/-- An option that takes a value. -/
inductive ValueOption where
  | address
  | maxSteps
  | dump
  deriving DecidableEq, Repr

/-- How an option is written. -/
def ValueOption.name : ValueOption → String
  | address => "--address"
  | maxSteps => "--max-steps"
  | dump => "--dump"

/-- The option that an argument names, among those that are allowed. -/
def ValueOption.find? (allowed : List ValueOption) (arg : String) : Option ValueOption :=
  allowed.find? fun option => option.name = arg

/-- What the arguments after the command have said so far. -/
structure Settings where
  input : Option String
  address : Address
  maxSteps : Option Nat
  dump : Option (Address × Nat)
  deriving DecidableEq, Repr

/-- What holds before any argument. -/
def Settings.initial : Settings :=
  { input := none, address := SortProgram.loadAddress, maxSteps := none, dump := none }

/-- Takes the value of an option. -/
def Settings.set (s : Settings) (option : ValueOption) (text : String) :
    Except ArgumentError Settings :=
  match option with
  | .address => do
    let address ← number text
    return { s with address }
  | .maxSteps => do
    let n ← number text
    return { s with maxSteps := some n.toNat }
  | .dump => do
    let range ← dumpRange text
    return { s with dump := some range }

/-- Reads the arguments after the command: options with their values, and one input. -/
def Settings.parse (allowed : List ValueOption) (s : Settings) :
    List String → Except ArgumentError Settings
  | [] => .ok s
  | arg :: rest =>
    match ValueOption.find? allowed arg with
    | some option =>
      match rest with
      | [] => .error (.missingValue arg)
      | value :: rest =>
        match s.set option value with
        | .ok s => Settings.parse allowed s rest
        | .error e => .error e
    | none =>
      if arg.toList.head? = some '-' then .error (.unknownOption arg)
      else if s.input.isSome then .error .multipleInputs
      else Settings.parse allowed { s with input := some arg } rest

/-! ## 3. Commands -/

/-- Reads the arguments of a run. -/
def RunOptions.parse (args : List String) : Except ArgumentError RunOptions := do
  let s ← Settings.parse [.address, .maxSteps, .dump] Settings.initial args
  match s.input with
  | some input =>
    return { input, address := s.address, maxSteps := s.maxSteps, dump := s.dump }
  | none => throw .missingInput

/-- Reads the arguments of a listing. -/
def ListOptions.parse (args : List String) : Except ArgumentError ListOptions := do
  let s ← Settings.parse [.address] Settings.initial args
  match s.input with
  | some input => return { input, address := s.address }
  | none => throw .missingInput

/-- Reads a command and its arguments. Without any, the command is the sort. -/
def Command.parse : List String → Except ArgumentError Command
  | [] => .ok .sort
  | name :: rest =>
    if name = "sort" then
      match rest with
      | [] => .ok .sort
      | extra :: _ => .error (.unexpectedArgument extra)
    else if name = "run" then (RunOptions.parse rest).map .run
    else if name = "disasm" then (ListOptions.parse rest).map .list
    else .error (.unknownCommand name)

/-- Whether an argument asks for help. -/
def asksForHelp (arg : String) : Bool := arg = "--help" || arg = "-h"

/-- The level that an argument asks for, if it is a logging option. -/
def logLevel? (arg : String) : Option LogLevel :=
  if arg = "--verbose" || arg = "-v" then some .debug
  else if arg = "--trace" then some .trace
  else none

/-- Reads all arguments. -/
def Invocation.parse (args : List String) : Except ArgumentError Invocation :=
  if args.any asksForHelp then .ok .help
  else do
    let level := (args.filterMap logLevel?).foldl LogLevel.max .info
    let command ← Command.parse (args.filter fun arg => (logLevel? arg).isNone)
    return .command command level

end Mc68000.CommandLine
