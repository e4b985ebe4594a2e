import Turtle.ProgramOrder
import Turtle.Confinement
import Turtle.FaultFrame
import Turtle.PlicClaims
import Turtle.FlatRam
import Turtle.CompressedEffect
import Turtle.IllegalTraps
import Turtle.PlicProgress
import Turtle.Privilege
import Turtle.TrapAtomicity
import Turtle.Delegation
import Turtle.TrapReturn
import Turtle.Mmu.Soundness
import Turtle.Mmu.Completeness
import Turtle.FetchFidelity
import Turtle.Frontend
import Turtle.BranchTarget
import Turtle.PmpLocks
import Turtle.Forwarding
import Turtle.Fence
import Turtle.TlbHistory
import Turtle.Mmu.HitPath
import Turtle.Reservations
import Turtle.ExactlyOnce
import Turtle.Mmu.Protected
import Turtle.FetchContext
import Turtle.StatusStack
import Turtle.Counters
import Turtle.TrapTarget
import Turtle.InterruptChoice
import Turtle.WaitForInterrupt
import Turtle.PmpDecision
import Turtle.CsrLegality
import Turtle.TimerPending
import Turtle.Lib.MulDiv
import Turtle.Mext
import Turtle.PmpWrites
import Turtle.AtomicAccess
import Turtle.TlbCapacity
import Turtle.Lib.Ring
import Turtle.UartQueue
import Turtle.UartInterrupts
import Turtle.Mmu.SpuriousFaults
import Turtle.MextHandshake
import Turtle.Mmu.HighAddresses
import Turtle.Lib.Buffer
import Turtle.ElfLoader
import Turtle.IdExSignal
import Turtle.Mprv
import Turtle.EvenPc
import Turtle.Stepping
import Turtle.TypedLines
import Turtle.Meaning
import Turtle.Mmu.PageOffset
import Turtle.RamAccess
import Turtle.Lib.Rv32Machine
import Turtle.Machine
import Turtle.Lib.Rv32Fetch
import Turtle.Mmu.FetchOffset
import Turtle.FetchedWords
import Turtle.Computer
import Turtle.FetchCoherence
import Turtle.Agreement
import Turtle.Isolation
import Turtle.MachineSetup
