import M68Fpu.Binary.Decimal
import M68Fpu.Binary.Double
import M68Fpu.Binary.Integer
import M68Fpu.Binary.Precision
import M68Fpu.Binary.Single
import M68Fpu.Bus.Basic
import M68Fpu.Bus.ByteAddressed
import M68Fpu.Bus.ByteMap
import M68Fpu.Bus.Flat
import M68Fpu.Bus.Memory
import M68Fpu.Bus.Sparse
import M68Fpu.Bytes
import M68Fpu.Bytes.Lemmas
import M68Fpu.CommandLine.Arguments
import M68Fpu.CommandLine.Invocation
import M68Fpu.CommandLine.Run
import M68Fpu.Computer
import M68Fpu.Condition
import M68Fpu.Debug.Registers
import M68Fpu.Debug.Target
import M68Fpu.Encoding.Command
import M68Fpu.Encoding.EffectiveAddress
import M68Fpu.Encoding.Field
import M68Fpu.Encoding.Opcode
import M68Fpu.Fault
import M68Fpu.Hex
import M68Fpu.Instruction.Basic
import M68Fpu.Instruction.Fetch
import M68Fpu.Instruction.Operand
import M68Fpu.Machine.Basic
import M68Fpu.Machine.Execute
import M68Fpu.Machine.Operand
import M68Fpu.Machine.Step
import M68Fpu.Main
import M68Fpu.Proofs.AddressingRules
import M68Fpu.Proofs.Binary.Difference
import M68Fpu.Proofs.Binary.IntegerConversion
import M68Fpu.Proofs.Binary.Rounding
import M68Fpu.Proofs.Binary.SingleConversion
import M68Fpu.Proofs.Binary.Value
import M68Fpu.Proofs.BranchCount
import M68Fpu.Proofs.BusOrder
import M68Fpu.Proofs.BusSimulation
import M68Fpu.Proofs.BusUse
import M68Fpu.Proofs.Calls
import M68Fpu.Proofs.Checked.Commands
import M68Fpu.Proofs.Checked.Encoding
import M68Fpu.Proofs.Checked.Instructions
import M68Fpu.Proofs.Checked.Interpreter
import M68Fpu.Proofs.Checked.Operands
import M68Fpu.Proofs.Comparison
import M68Fpu.Proofs.Completion
import M68Fpu.Proofs.ConditionCodes
import M68Fpu.Proofs.ConditionalBranch
import M68Fpu.Proofs.Congruence
import M68Fpu.Proofs.ContextSwitch
import M68Fpu.Proofs.CycleBound
import M68Fpu.Proofs.CycleCount
import M68Fpu.Proofs.Debug.Breakpoints
import M68Fpu.Proofs.Debug.MemoryRange
import M68Fpu.Proofs.Debug.RegisterImage
import M68Fpu.Proofs.Debug.SingleRegister
import M68Fpu.Proofs.DoubleTransfer
import M68Fpu.Proofs.EncodedInstruction
import M68Fpu.Proofs.EncodingFault
import M68Fpu.Proofs.Execution
import M68Fpu.Proofs.FlatMirror
import M68Fpu.Proofs.Footprint
import M68Fpu.Proofs.HiddenState
import M68Fpu.Proofs.InstructionSet
import M68Fpu.Proofs.InstructionStream
import M68Fpu.Proofs.IntegerOperands
import M68Fpu.Proofs.Interruption
import M68Fpu.Proofs.Memory.AccessHistory
import M68Fpu.Proofs.Memory.ByteMemory
import M68Fpu.Proofs.Memory.Contents
import M68Fpu.Proofs.Memory.Operands
import M68Fpu.Proofs.OperandCommand
import M68Fpu.Proofs.OperandMemory
import M68Fpu.Proofs.OperandTransfer
import M68Fpu.Proofs.ProgramRun
import M68Fpu.Proofs.ReadOnlyMemory
import M68Fpu.Proofs.RegisterList
import M68Fpu.Proofs.RegisterListLayout
import M68Fpu.Proofs.RegisterListPlace
import M68Fpu.Proofs.RegisterStack
import M68Fpu.Proofs.RejectedEncoding
import M68Fpu.Proofs.ResetVectors
import M68Fpu.Proofs.SignTest
import M68Fpu.Proofs.SingleRoundTrip
import M68Fpu.Proofs.StatusHistory
import M68Fpu.Proofs.Step
import M68Fpu.Registers
import M68Fpu.Word
