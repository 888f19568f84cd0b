import FermiHV.Lib.Bits
import FermiHV.Lib.ByteMem
import FermiHV.Lib.AccessTrace
import FermiHV.Lib.RunLoop
import FermiHV.Lib.OpTrace
import FermiHV.Lib.SymExec
import FermiHV.Lib.A64
import FermiHV.Lib.Interference
import FermiHV.Lib.FlagHistory
import FermiHV.Lib.Numeral
import FermiHV.Exception
import FermiHV.Vcpu
import FermiHV.Stage2
import FermiHV.Vgic
import FermiHV.VgicIsolation
import FermiHV.EnableRegs
import FermiHV.SgiSet
import FermiHV.Uart
import FermiHV.Printf
import FermiHV.HypTimer
import FermiHV.El2Exception
import FermiHV.Vuart
import FermiHV.Hypervisor
import FermiHV.Resume
import FermiHV.ListRegs
import FermiHV.Injection
import FermiHV.Loops
import FermiHV.EnableBits
import FermiHV.Demos
import FermiHV.Scheduler
import FermiHV.PowerOff
import FermiHV.Faults
import FermiHV.Trapped
import FermiHV.Progress
import FermiHV.Identity
import FermiHV.Ops
import FermiHV.Ipi
import FermiHV.IpiLedger
import FermiHV.SgiWait
import FermiHV.TimerTicks
import FermiHV.TenantRam
import FermiHV.TimeSlices
import FermiHV.SgiRouting
import FermiHV.Secondary
import FermiHV.Delivery
import FermiHV.Timers
import FermiHV.ConsoleInput
import FermiHV.World.Switch
import FermiHV.World.El2Trap
import FermiHV.VuartIsolation
import FermiHV.Virtio.Process
import FermiHV.Virtio.Reinit
import FermiHV.Virtio.Disk
import FermiHV.Virtio.Tenants
import FermiHV.Virtio.Overrun
import FermiHV.AccessSize
import FermiHV.TrapFrame
import FermiHV.Virtio.Confinement
import FermiHV.Virtio.Noninterference
import FermiHV.Virtio.TenantDemos
import FermiHV.Virtio.Guests
import FermiHV.Virtio.GuestTurns
import FermiHV.Virtio.Fifo
import FermiHV.Virtio.Refinement
import FermiHV.Virtio.Completion
import FermiHV.Virtio.GuestDrivers
import FermiHV.VirqGuest
