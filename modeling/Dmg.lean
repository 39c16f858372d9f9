import Dmg.Cpu.Query
import Dmg.CommandLine.Run
import Dmg.Host.Sandbox
import Dmg.Machine.Query
import Dmg.Main
import Dmg.Memory.Recorder
import Dmg.Proofs.Ripple
import Dmg.Proofs.PackedDecimal
import Dmg.Proofs.Effect
import Dmg.Proofs.Poll
import Dmg.Proofs.Run
import Dmg.Proofs.Instruction
import Dmg.Proofs.Turn
import Dmg.Proofs.FlagLaw
import Dmg.Proofs.Reachable
import Dmg.Proofs.Timing
import Dmg.Proofs.EnableDelay
import Dmg.Proofs.ControlState
import Dmg.Proofs.Wake
import Dmg.Proofs.ReturnAddress
import Dmg.Proofs.Dispatch
import Dmg.Proofs.FrameTiming
import Dmg.Proofs.StatusRegister
import Dmg.Proofs.Transparency
import Dmg.Proofs.DisplayRequests
import Dmg.Proofs.FrameHistory
import Dmg.Proofs.Operands
import Dmg.Proofs.HeldFetch
import Dmg.Proofs.SpaceHistory
import Dmg.Proofs.BusView
import Dmg.Proofs.Transcript
import Dmg.Proofs.FlatMemory
import Dmg.Proofs.MachineTick
import Dmg.Proofs.Fault
import Dmg.Proofs.Lockstep
import Dmg.Proofs.Slide
import Dmg.Proofs.DisplayMirror
import Dmg.Proofs.Onlookers
import Dmg.Proofs.PendingRequests
import Dmg.Proofs.Checked.Arithmetic
import Dmg.Proofs.Checked.Processor
import Dmg.Proofs.Checked.Painter
import Dmg.Proofs.Checked.Display
import Dmg.Proofs.Checked.FrameBuffer
import Dmg.Proofs.Checked.Machine
import Dmg.Proofs.PixelDefinition
import Dmg.Proofs.InstructionFrame
import Dmg.Proofs.OperandStream
import Dmg.Proofs.ArithmeticOperand
import Dmg.Proofs.StackDiscipline
import Dmg.Proofs.Bits
import Dmg.Proofs.Encoding
import Dmg.Proofs.Modification
import Dmg.Proofs.Branches
import Dmg.Proofs.BinaryNumber
import Dmg.Proofs.BinaryShift
import Dmg.Proofs.AddressGrammar
import Dmg.Proofs.WordSum
import Dmg.Proofs.MemoryLoad
import Dmg.Proofs.QueryRouting
import Dmg.Proofs.RegisterFile
import Dmg.Proofs.FrameNames
import Dmg.Proofs.RecordedFrames
import Dmg.Proofs.RecordingFolder
