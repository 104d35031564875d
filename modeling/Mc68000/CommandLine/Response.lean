import Mc68000.CommandLine.Arguments
import Mc68000.CommandLine.FileTree
import Mc68000.Assembly.Listing
import Mc68000.Text.HexDump

/-!
# What the command line answers

* `Response` -- exit code, output and error output;
* `Command.respond?` -- a command carried out;
* `respond?` -- arguments carried out, given the contents of files.

A program that never ends has no answer.
-/

namespace Mc68000.CommandLine

/-- What the program leaves behind. -/
structure Response where
  exitCode : Nat
  output : String
  errorOutput : String
  deriving DecidableEq, Repr

/-- How to use the program. -/
def usage : String :=
  "Usage: m68k-demo [command] [options]\n" ++
  "\n" ++
  "Commands:\n" ++
  "  sort                                  Sort a canned byte list (default)\n" ++
  "  run <file> [options]                  Run a raw big-endian binary\n" ++
  "  disasm <file> [--address <addr>]      List a raw binary as 68000 assembly\n" ++
  "\n" ++
  "Run options:\n" ++
  "  --address <addr>     Load and start address (default: $1000)\n" ++
  "  --max-steps <n>      Stop after n instructions\n" ++
  "  --dump <addr>:<len>  Hex-dump memory after the run\n" ++
  "\n" ++
  "Global options:\n" ++
  "  -v, --verbose        Log loads, traps, and run summaries\n" ++
  "  --trace              Also log every executed instruction\n" ++
  "  -h, --help           Show this help message\n" ++
  "\n" ++
  "Numbers accept $hex, 0xhex, or decimal.\n" ++
  "\n" ++
  "Examples:\n" ++
  "  m68k-demo\n" ++
  "  m68k-demo run program.bin --max-steps 1000 --dump $2000:64\n" ++
  "  m68k-demo disasm program.bin --address $400\n"

/-- The stack pointers that a program starts with: past the top of the standard memory. -/
def stackTop : Address := 0x1000000

namespace Response

/-- Success. -/
def success (output : String) : Response := { exitCode := 0, output, errorOutput := "" }

/-- Failure, with what was written before it. -/
def failure (message : String) (output : String) : Response :=
  { exitCode := 1, output, errorOutput := "error: " ++ message ++ "\n" }

/-- The register listing under its heading. -/
def statusDump (m : Machine) : String := "CPU status dump:\n" ++ m.registers.listing ++ "\n"

/-- A failure of a machine, with its registers. -/
def machineFailure (f : Failure) (m : Machine) : Response :=
  { exitCode := 1, output := "", errorOutput := "error: " ++ f.message ++ "\n" ++ statusDump m }

/-- A file that cannot be read. -/
def unreadable (name reason : String) : Response :=
  failure ("failed to read " ++ name ++ ": " ++ reason) ""

/-- Arguments that make no sense, with the usage. -/
def badArguments (e : ArgumentError) : Response :=
  { exitCode := 1, output := "", errorOutput := "error: " ++ e.message ++ "\n" ++ usage ++ "\n" }

end Response

/-- A machine for a command. -/
def machineFor (level : LogLevel) : Machine :=
  Machine.new { Config.standard with traceInstructions := level = .trace }

/-- Values in base ten with blanks between them. -/
def valuesText (values : List Byte) : String :=
  " ".intercalate (values.map fun v => Digits.decimal v.toNat)

/-- Why a run ended. -/
def boundaryText : Boundary → String
  | .endOfCode => "reached end of code"
  | .finished => "returned from program"
  | .stopped => "stopped"
  | .stepLimit => "hit step limit"

/-- Sorts the sample list. -/
def sort? (level : LogLevel) : Option Response :=
  match SortProgram.run? (machineFor level) with
  | none => none
  | some (.error f m) => some (.machineFailure f m)
  | some (.ok report _) =>
    some (.success
      ("Unsorted:\n" ++ valuesText report.unsorted ++ "\nSorted:\n" ++
        valuesText report.sorted ++ "\n\nCPU status dump:\n" ++ report.listing ++ "\n"))

/-- The answer after a run. A range that cannot be shown is reported after the outcome. -/
def runResponse (dump : Option (Address × Nat)) (outcome : RunOutcome) (m : Machine) : Response :=
  let summary :=
    "Ran " ++ Digits.decimal outcome.steps ++ " instructions (" ++
      Digits.decimal outcome.cycles ++ " cycles): " ++ boundaryText outcome.boundary ++ "\n"
  match dump with
  | none => .success (summary ++ Response.statusDump m)
  | some (address, length) =>
    match m.memory.range address length with
    | .ok bytes => .success (summary ++ hexDump address bytes ++ Response.statusDump m)
    | .error f => .failure f.message summary

/-- Runs a program. -/
def run? (options : RunOptions) (level : LogLevel) (bytes : List Byte) : Option Response :=
  match Machine.loadProgram bytes options.address true (machineFor level) with
  | .error f m => some (.machineFailure f m)
  | .ok () m =>
    let m := m.applySnapshot { Snapshot.empty with usp := some stackTop, ssp := some stackTop }
    let result? :=
      match options.maxSteps with
      | some limit => some (Machine.runWithLimit limit m)
      | none => m.run?
    match result? with
    | none => none
    | some (.error f m) => some (.machineFailure f m)
    | some (.ok outcome m) => some (runResponse options.dump outcome m)

/-- The address past bytes, at most the highest address. -/
def addressPast (address : Address) (length : Nat) : Address :=
  BitVec.ofNat 32 (min (address.toNat + length) (Long.count - 1))

/-- Lists a program. -/
def list? (options : ListOptions) (bytes : List Byte) : Option Response :=
  match Machine.loadData bytes options.address true (Machine.new Config.standard) with
  | .error f _ => some (.failure f.message "")
  | .ok () m =>
    let past := addressPast options.address bytes.length
    (Listing.rows? m.memory options.address past).map fun rows =>
      .success (String.join (rows.map fun row => row.line ++ "\n"))

/-- The file that a command reads. -/
def Command.input? : Command → Option String
  | sort => none
  | run options => some options.input
  | list options => some options.input

/-- Carries out a command. -/
def Command.respond? (files : Files) (level : LogLevel) : Command → Option Response
  | sort => sort? level
  | run options =>
    match files options.input with
    | .ok bytes => run? options level bytes
    | .error reason => some (.unreadable options.input reason)
  | list options =>
    match files options.input with
    | .ok bytes => list? options bytes
    | .error reason => some (.unreadable options.input reason)

/-- Carries out arguments. -/
def respond? (files : Files) (args : List String) : Option Response :=
  match Invocation.parse args with
  | .error e => some (.badArguments e)
  | .ok .help => some (.success (usage ++ "\n"))
  | .ok (.command command level) => command.respond? files level

/-- The file that arguments make the program read. -/
def inputOf (args : List String) : Option String :=
  match Invocation.parse args with
  | .ok (.command command _) => command.input?
  | _ => none

end Mc68000.CommandLine
