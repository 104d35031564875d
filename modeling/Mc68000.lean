import Mc68000.Word
import Mc68000.Size
import Mc68000.Text.Digits
import Mc68000.Trap
import Mc68000.Memory
import Mc68000.Status
import Mc68000.Condition
import Mc68000.Registers
import Mc68000.Snapshot
import Mc68000.Operation
import Mc68000.Opcode
import Mc68000.CycleCost
import Mc68000.EffectiveAddress
import Mc68000.Instruction
import Mc68000.Fetch
import Mc68000.Machine
import Mc68000.Operand
import Mc68000.FlagChange
import Mc68000.Shift
import Mc68000.PackedDecimal
import Mc68000.Semantics
import Mc68000.Run
import Mc68000.Assembly
import Mc68000.Assembly.Listing
import Mc68000.Text.Number
import Mc68000.Text.HexDump
import Mc68000.SortProgram
import Mc68000.CommandLine.Arguments
import Mc68000.CommandLine.FileTree
import Mc68000.CommandLine.Response
import Mc68000.Main
import Mc68000.Proofs.StatusBits
import Mc68000.Proofs.Footprint
import Mc68000.Proofs.Footprint.Primitives
import Mc68000.Proofs.Footprint.Operations
import Mc68000.Proofs.Footprint.Execute
import Mc68000.Proofs.Runs
import Mc68000.Proofs.Session
import Mc68000.Proofs.UserMode
import Mc68000.Proofs.FetchWords
import Mc68000.Proofs.TrapFrame
import Mc68000.Proofs.InstructionLength
import Mc68000.Proofs.ConditionCodes
import Mc68000.Proofs.Decoding
import Mc68000.Proofs.Block
import Mc68000.Proofs.Confinement
import Mc68000.Proofs.Confinement.Operations
import Mc68000.Proofs.Confinement.MultipleTransfer
import Mc68000.Proofs.Confinement.Execute
import Mc68000.Proofs.StoreFootprint
import Mc68000.Proofs.AutoModify
import Mc68000.Proofs.SizedNumber
import Mc68000.Proofs.Comparison
import Mc68000.Proofs.HiddenStack
import Mc68000.Proofs.HiddenStack.Operations
import Mc68000.Proofs.HiddenStack.Sessions
import Mc68000.Proofs.Unwritable
import Mc68000.Proofs.ReadBack
import Mc68000.Proofs.SavedStatus
import Mc68000.Proofs.OperandTraps
import Mc68000.Proofs.TrapCauses
import Mc68000.Proofs.CallDepth
import Mc68000.Proofs.HostSession
import Mc68000.Proofs.Advance
import Mc68000.Proofs.Execution
import Mc68000.Proofs.SortProgram.Listing
import Mc68000.Proofs.SortProgram.Passes
import Mc68000.Proofs.SortProgram.Steps
import Mc68000.Proofs.SortProgram.Loops
import Mc68000.Proofs.SortProgram.Sorts
import Mc68000.Proofs.Numerals
import Mc68000.Proofs.Listing.Walk
import Mc68000.Proofs.Listing.Bounds
import Mc68000.Proofs.Assembly.Parts
import Mc68000.Proofs.Assembly.Operands
import Mc68000.Proofs.Assembly.Names
import Mc68000.Proofs.Assembly.RegisterLists
import Mc68000.Proofs.Assembly.Reading
import Mc68000.Proofs.Assembly.Meaning.Operands
import Mc68000.Proofs.Assembly.Meaning.Plain
import Mc68000.Proofs.Assembly.Meaning
import Mc68000.Proofs.Listing.Line
import Mc68000.Proofs.LoadedProgram
import Mc68000.Proofs.Carries
import Mc68000.Proofs.IntegerArithmetic
import Mc68000.Proofs.MultiplePrecision
import Mc68000.Proofs.CheckedArithmetic
import Mc68000.Proofs.CheckedOperations
import Mc68000.Proofs.CheckedStep
import Mc68000.Proofs.Shifts
import Mc68000.Proofs.Rotates
import Mc68000.Proofs.DecimalStrings
import Mc68000.Proofs.ProductsAndQuotients
import Mc68000.Proofs.DisjointStores
import Mc68000.Proofs.RegisterStores
import Mc68000.Proofs.RegisterRestore
import Mc68000.Proofs.DataRegisters
import Mc68000.Proofs.LiteralForms
import Mc68000.Proofs.Stack
import Mc68000.Proofs.Linkage
import Mc68000.Proofs.Assembly.BranchTargets
import Mc68000.Proofs.Assembly.TransferLists
import Mc68000.Proofs.ListedTransfers
import Mc68000.Proofs.CountedLoop
import Mc68000.Proofs.ByteMap
import Mc68000.Proofs.AlternateBytes
import Mc68000.Proofs.Snapshots
import Mc68000.Proofs.RunAccount
import Mc68000.Proofs.NumberGrammar
import Mc68000.Proofs.HexDump
import Mc68000.Proofs.ArgumentOrder
