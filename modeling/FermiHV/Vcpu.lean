import FermiHV.Exception

/-!
# vCPU state

`struct vcpu` of `vcpu.h`. Its first part (`GuestCtx`) is what the world switch
loads into the machine before the guest runs and captures again when the guest
exits, together with the exit syndrome; the rest is the VM configuration and
the bookkeeping of the run loops, which only C code writes.
-/

namespace FermiHV

/-- The part of `vcpu_t` that one run of the guest overwrites. -/
structure GuestCtx where
  x : Fin 31 → U64
  spEl0 : U64
  pc : U64
  pstate : U64
  hypSp : U64
  exitReason : U64
  exitEsr : U64
  exitFar : U64
  exitHpfar : U64
  q : Fin 32 → BitVec 128
  fpsr : U64
  fpcr : U64
  sctlrEl1 : U64
  cpacrEl1 : U64
  ttbr0El1 : U64
  ttbr1El1 : U64
  tcrEl1 : U64
  mairEl1 : U64
  amairEl1 : U64
  vbarEl1 : U64
  contextidrEl1 : U64
  spEl1 : U64
  elrEl1 : U64
  spsrEl1 : U64
  esrEl1 : U64
  farEl1 : U64
  tpidrEl0 : U64
  tpidrroEl0 : U64
  tpidrEl1 : U64
  ichLr : Fin 4 → U64
  ichVmcr : U64
  ichAp1r0 : U64

/-- `vcpu_t`. -/
structure Vcpu extends GuestCtx where
  vttbr : U64
  vmpidr : U64
  id : Nat
  halted : Bool

def zeroCtx : GuestCtx where
  x := fun _ => 0
  spEl0 := 0
  pc := 0
  pstate := 0
  hypSp := 0
  exitReason := 0
  exitEsr := 0
  exitFar := 0
  exitHpfar := 0
  q := fun _ => 0
  fpsr := 0
  fpcr := 0
  sctlrEl1 := 0
  cpacrEl1 := 0
  ttbr0El1 := 0
  ttbr1El1 := 0
  tcrEl1 := 0
  mairEl1 := 0
  amairEl1 := 0
  vbarEl1 := 0
  contextidrEl1 := 0
  spEl1 := 0
  elrEl1 := 0
  spsrEl1 := 0
  esrEl1 := 0
  farEl1 := 0
  tpidrEl0 := 0
  tpidrroEl0 := 0
  tpidrEl1 := 0
  ichLr := fun _ => 0
  ichVmcr := 0
  ichAp1r0 := 0

/-- EL1h with DAIF masked. -/
def spsrEl1hMasked : U64 := 0x3C5
/-- `SCTLR_EL1` with its RES1 bits, MMU and caches off. -/
def sctlrEl1Reset : U64 := 0x30D00800

/-- `vcpu_init`: everything zero but the entry state and the VM configuration. -/
def vcpuInit (entry spEl1 vttbr : U64) (id : Nat) : Vcpu where
  toGuestCtx :=
    { zeroCtx with
      pc := entry
      pstate := spsrEl1hMasked
      spEl1 := spEl1
      sctlrEl1 := sctlrEl1Reset }
  vttbr := vttbr
  vmpidr := (1#64 <<< 31) ||| BitVec.ofNat 64 id
  id := id
  halted := false

/-- `vcpu_run_once` as a run loop sees it: the guest runs and leaves the
context `g`, exit syndrome included. `World.Switch` derives this from the
assembly. -/
def vcpuRunOnce (g : GuestCtx) (v : Vcpu) : Vcpu := { v with toGuestCtx := g }

namespace GuestCtx

/-- The value of a transfer register; register 31 reads as zero. -/
def getX (g : GuestCtx) (r : Nat) : U64 := if h : r < 31 then g.x ⟨r, h⟩ else 0

/-- The exit was a physical interrupt. -/
def exitIrq (g : GuestCtx) : Bool := g.exitReason &&& 3 = 1

/-- The exception class of the exit. -/
def exitEc (g : GuestCtx) : U64 := esrEc g.exitEsr

/-- The faulting IPA of the exit. -/
def exitIpa (g : GuestCtx) : U64 := faultIpa g.exitHpfar g.exitFar

end GuestCtx

namespace Vcpu

/-- Write a transfer register; register 31 is discarded. -/
def setX (v : Vcpu) (r : Nat) (val : U64) : Vcpu :=
  if h : r < 31 then { v with x := Function.update v.x ⟨r, h⟩ val } else v

/-- Resume after the trapped instruction. -/
def skip (v : Vcpu) : Vcpu := { v with pc := v.pc + 4 }

end Vcpu

theorem getX_setX_skip (v : Vcpu) (r : Nat) (val : U64) :
    (v.setX r val).skip.getX r = if r < 31 then val else 0 := by
  by_cases hr : r < 31
  · simp [Vcpu.setX, Vcpu.skip, GuestCtx.getX, hr]
  · simp [GuestCtx.getX, hr]

/-- A guest stopped at a 32-bit store of `x0` (`ISV`, `SAS` = 2, `WnR`). -/
def storingVcpu (val : U64) : Vcpu :=
  let v := vcpuInit 0x40000000 0 0 0
  { v.setX 0 val with exitEsr := 0x93800040 }

end FermiHV
