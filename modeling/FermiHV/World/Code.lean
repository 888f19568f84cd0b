import FermiHV.Exception
import FermiHV.Lib.SymExec

/-!
# The code of the world switch

`vcpu_run_once` of `vcpu.c`, `__guest_enter` and `__guest_exit` of `world.S` and the
`VEC_GUEST` stub of `vectors.S` as straight-line code over the physical registers.
Each load, store and register move of the source is one line here, in its order
and with its own offset; a 128-bit register is two 64-bit halves.

The C statements address fields of `vcpu_t` by name, the assembly by the constants
of `vcpu_offsets.h`. Between `eret` and the vector the guest runs: it may change
every register of its context, and the exception fills in the syndrome.

Barriers are left out: they do not move data.
-/

namespace FermiHV.World

open SymExec (Instr Region)

/-! ## 1. Registers and fields -/

inductive Reg
  | x (i : Fin 31)
  /-- `SP_EL2`. -/
  | sp
  | spEl0
  | elrEl2
  | spsrEl2
  | esrEl2
  | farEl2
  | hpfarEl2
  | tpidrEl2
  | vttbrEl2
  | vmpidrEl2
  /-- One half of `q0`..`q31`; `hi` is the upper one. -/
  | q (i : Fin 32) (hi : Bool)
  | fpsr
  | fpcr
  | sctlrEl1
  | cpacrEl1
  | ttbr0El1
  | ttbr1El1
  | tcrEl1
  | mairEl1
  | amairEl1
  | vbarEl1
  | contextidrEl1
  | spEl1
  | elrEl1
  | spsrEl1
  | esrEl1
  | farEl1
  | tpidrEl0
  | tpidrroEl0
  | tpidrEl1
  | ichLr (i : Fin 4)
  | ichVmcr
  | ichAp1r0
  /-- The C variable `v`, the compiler's scratch register and the address behind
  the call of `__guest_enter`. -/
  | v
  | tmp
  | link
deriving DecidableEq

/-- The fields of `vcpu_t`, in words; `id` and `halted` share the last one. -/
inductive Field
  | x (i : Fin 31)
  | spEl0
  | pc
  | pstate
  | hypSp
  | exitReason
  | exitEsr
  | exitFar
  | exitHpfar
  | q (i : Fin 32) (hi : Bool)
  | fpsr
  | fpcr
  | sctlrEl1
  | cpacrEl1
  | ttbr0El1
  | ttbr1El1
  | tcrEl1
  | mairEl1
  | amairEl1
  | vbarEl1
  | contextidrEl1
  | spEl1
  | elrEl1
  | spsrEl1
  | esrEl1
  | farEl1
  | tpidrEl0
  | tpidrroEl0
  | tpidrEl1
  | ichLr (i : Fin 4)
  | ichVmcr
  | ichAp1r0
  | vttbr
  | vmpidr
  | idHalted
deriving DecidableEq

/-- `offsetof(vcpu_t, f)`. -/
def Field.off : Field → U64
  | .x i => BitVec.ofNat 64 (8 * i.val)
  | .spEl0 => 248
  | .pc => 256
  | .pstate => 264
  | .hypSp => 272
  | .exitReason => 280
  | .exitEsr => 288
  | .exitFar => 296
  | .exitHpfar => 304
  -- `_pad0` at 312
  | .q i hi => BitVec.ofNat 64 (320 + 16 * i.val + if hi then 8 else 0)
  | .fpsr => 832
  | .fpcr => 840
  | .sctlrEl1 => 848
  | .cpacrEl1 => 856
  | .ttbr0El1 => 864
  | .ttbr1El1 => 872
  | .tcrEl1 => 880
  | .mairEl1 => 888
  | .amairEl1 => 896
  | .vbarEl1 => 904
  | .contextidrEl1 => 912
  | .spEl1 => 920
  | .elrEl1 => 928
  | .spsrEl1 => 936
  | .esrEl1 => 944
  | .farEl1 => 952
  | .tpidrEl0 => 960
  | .tpidrroEl0 => 968
  | .tpidrEl1 => 976
  | .ichLr i => BitVec.ofNat 64 (984 + 8 * i.val)
  | .ichVmcr => 1016
  | .ichAp1r0 => 1024
  | .vttbr => 1032
  | .vmpidr => 1040
  | .idHalted => 1048

/-- `sizeof(vcpu_t)`. -/
def vcpuSize : Nat := 1056

/-! `vcpu_offsets.h` -/

def vcpuX : U64 := 0
def vcpuSpEl0 : U64 := 248
def vcpuPc : U64 := 256
def vcpuPstate : U64 := 264
def vcpuHypSp : U64 := 272
def vcpuExitReason : U64 := 280
def vcpuExitEsr : U64 := 288
def vcpuExitFar : U64 := 296
def vcpuExitHpfar : U64 := 304
def vcpuFp : U64 := 320
def vcpuFpsr : U64 := 832
def vcpuFpcr : U64 := 840

-- the `_Static_assert`s of `vcpu.h`
example :
    Field.off (.x 0) = vcpuX ∧ Field.off .spEl0 = vcpuSpEl0 ∧ Field.off .pc = vcpuPc ∧
    Field.off .pstate = vcpuPstate ∧ Field.off .hypSp = vcpuHypSp ∧
    Field.off .exitReason = vcpuExitReason ∧ Field.off .exitEsr = vcpuExitEsr ∧
    Field.off .exitFar = vcpuExitFar ∧ Field.off .exitHpfar = vcpuExitHpfar ∧
    Field.off (.q 0 false) = vcpuFp ∧ Field.off .fpsr = vcpuFpsr ∧
    Field.off .fpcr = vcpuFpcr := by
  decide

/-! ## 2. Instructions -/

abbrev Code := List (Instr Reg)

/-- `stp a, b, [base, #off]`. -/
def stp (a b base : Reg) (off : U64) : Code := [.str a base off, .str b base (off + 8)]

/-- `ldp a, b, [base, #off]`. -/
def ldp (a b base : Reg) (off : U64) : Code := [.ldr a base off, .ldr b base (off + 8)]

/-- `stp qi, qj, [base, #off]`. -/
def stpQ (i j : Fin 32) (base : Reg) (off : U64) : Code :=
  stp (.q i false) (.q i true) base off ++ stp (.q j false) (.q j true) base (off + 16)

/-- `ldp qi, qj, [base, #off]`. -/
def ldpQ (i j : Fin 32) (base : Reg) (off : U64) : Code :=
  ldp (.q i false) (.q i true) base off ++ ldp (.q j false) (.q j true) base (off + 16)

/-- `rd_sysreg(reg, v->f)`. -/
def rdSysreg (reg : Reg) (f : Field) : Code := [.mov .tmp reg, .str .tmp .v f.off]

/-- `wr_sysreg(reg, v->f)`. -/
def wrSysreg (reg : Reg) (f : Field) : Code := [.ldr .tmp .v f.off, .mov reg .tmp]

/-! ## 3. `vcpu.c` -/

/-- `save_el1_sysregs`. -/
def saveEl1Sysregs : Code := List.flatten [
  rdSysreg .sctlrEl1 .sctlrEl1,
  rdSysreg .cpacrEl1 .cpacrEl1,
  rdSysreg .ttbr0El1 .ttbr0El1,
  rdSysreg .ttbr1El1 .ttbr1El1,
  rdSysreg .tcrEl1 .tcrEl1,
  rdSysreg .mairEl1 .mairEl1,
  rdSysreg .amairEl1 .amairEl1,
  rdSysreg .vbarEl1 .vbarEl1,
  rdSysreg .contextidrEl1 .contextidrEl1,
  rdSysreg .spEl1 .spEl1,
  rdSysreg .elrEl1 .elrEl1,
  rdSysreg .spsrEl1 .spsrEl1,
  rdSysreg .esrEl1 .esrEl1,
  rdSysreg .farEl1 .farEl1,
  rdSysreg .tpidrEl0 .tpidrEl0,
  rdSysreg .tpidrroEl0 .tpidrroEl0,
  rdSysreg .tpidrEl1 .tpidrEl1]

/-- `restore_el1_sysregs`. -/
def restoreEl1Sysregs : Code := List.flatten [
  wrSysreg .sctlrEl1 .sctlrEl1,
  wrSysreg .cpacrEl1 .cpacrEl1,
  wrSysreg .ttbr0El1 .ttbr0El1,
  wrSysreg .ttbr1El1 .ttbr1El1,
  wrSysreg .tcrEl1 .tcrEl1,
  wrSysreg .mairEl1 .mairEl1,
  wrSysreg .amairEl1 .amairEl1,
  wrSysreg .vbarEl1 .vbarEl1,
  wrSysreg .contextidrEl1 .contextidrEl1,
  wrSysreg .spEl1 .spEl1,
  wrSysreg .elrEl1 .elrEl1,
  wrSysreg .spsrEl1 .spsrEl1,
  wrSysreg .esrEl1 .esrEl1,
  wrSysreg .farEl1 .farEl1,
  wrSysreg .tpidrEl0 .tpidrEl0,
  wrSysreg .tpidrroEl0 .tpidrroEl0,
  wrSysreg .tpidrEl1 .tpidrEl1]

/-- `vcpu_run_once` up to the call of `__guest_enter`. -/
def beforeCall : Code := restoreEl1Sysregs ++ List.flatten [
  wrSysreg .vttbrEl2 .vttbr,
  wrSysreg .vmpidrEl2 .vmpidr,
  wrSysreg .ichVmcr .ichVmcr,
  wrSysreg .ichAp1r0 .ichAp1r0,
  wrSysreg (.ichLr 0) (.ichLr 0),
  wrSysreg (.ichLr 1) (.ichLr 1),
  wrSysreg (.ichLr 2) (.ichLr 2),
  wrSysreg (.ichLr 3) (.ichLr 3)]

/-- The call: `x0` is the argument and `x30` the return address. -/
def callGuestEnter : Code := [.mov (.x 0) .v, .mov (.x 30) .link]

/-- `vcpu_run_once` after the call. -/
def afterCall : Code := List.flatten [
  rdSysreg (.ichLr 0) (.ichLr 0),
  rdSysreg (.ichLr 1) (.ichLr 1),
  rdSysreg (.ichLr 2) (.ichLr 2),
  rdSysreg (.ichLr 3) (.ichLr 3),
  rdSysreg .ichVmcr .ichVmcr,
  rdSysreg .ichAp1r0 .ichAp1r0] ++ saveEl1Sysregs

/-! ## 4. `world.S` and `vectors.S` -/

/-- `__guest_enter`, up to the `eret`. -/
def guestEnter : Code := List.flatten [
  [.add .sp .sp (-96)],
  stp (.x 19) (.x 20) .sp 0,
  stp (.x 21) (.x 22) .sp 16,
  stp (.x 23) (.x 24) .sp 32,
  stp (.x 25) (.x 26) .sp 48,
  stp (.x 27) (.x 28) .sp 64,
  stp (.x 29) (.x 30) .sp 80,
  [.mov .tpidrEl2 (.x 0)],
  [.mov (.x 1) .sp],
  [.str (.x 1) (.x 0) vcpuHypSp],
  -- guest return state
  [.ldr (.x 1) (.x 0) vcpuPc],
  [.mov .elrEl2 (.x 1)],
  [.ldr (.x 1) (.x 0) vcpuPstate],
  [.mov .spsrEl2 (.x 1)],
  [.ldr (.x 1) (.x 0) vcpuSpEl0],
  [.mov .spEl0 (.x 1)],
  -- guest FP/SIMD
  [.add (.x 1) (.x 0) vcpuFp],
  ldpQ 0 1 (.x 1) 0,
  ldpQ 2 3 (.x 1) 32,
  ldpQ 4 5 (.x 1) 64,
  ldpQ 6 7 (.x 1) 96,
  ldpQ 8 9 (.x 1) 128,
  ldpQ 10 11 (.x 1) 160,
  ldpQ 12 13 (.x 1) 192,
  ldpQ 14 15 (.x 1) 224,
  ldpQ 16 17 (.x 1) 256,
  ldpQ 18 19 (.x 1) 288,
  ldpQ 20 21 (.x 1) 320,
  ldpQ 22 23 (.x 1) 352,
  ldpQ 24 25 (.x 1) 384,
  ldpQ 26 27 (.x 1) 416,
  ldpQ 28 29 (.x 1) 448,
  ldpQ 30 31 (.x 1) 480,
  [.ldr (.x 1) (.x 0) vcpuFpsr],
  [.mov .fpsr (.x 1)],
  [.ldr (.x 1) (.x 0) vcpuFpcr],
  [.mov .fpcr (.x 1)],
  -- guest GP registers, the base register last
  [.ldr (.x 1) (.x 0) 8],
  ldp (.x 2) (.x 3) (.x 0) 16,
  ldp (.x 4) (.x 5) (.x 0) 32,
  ldp (.x 6) (.x 7) (.x 0) 48,
  ldp (.x 8) (.x 9) (.x 0) 64,
  ldp (.x 10) (.x 11) (.x 0) 80,
  ldp (.x 12) (.x 13) (.x 0) 96,
  ldp (.x 14) (.x 15) (.x 0) 112,
  ldp (.x 16) (.x 17) (.x 0) 128,
  ldp (.x 18) (.x 19) (.x 0) 144,
  ldp (.x 20) (.x 21) (.x 0) 160,
  ldp (.x 22) (.x 23) (.x 0) 176,
  ldp (.x 24) (.x 25) (.x 0) 192,
  ldp (.x 26) (.x 27) (.x 0) 208,
  ldp (.x 28) (.x 29) (.x 0) 224,
  [.ldr (.x 30) (.x 0) 240],
  [.ldr (.x 0) (.x 0) 0]]

/-- `VEC_GUEST idx`. -/
def vecGuest (idx : U64) : Code := List.flatten [
  [.add .sp .sp (-16)],
  stp (.x 0) (.x 1) .sp 0,
  [.mov (.x 0) .tpidrEl2],
  [.imm (.x 1) idx],
  [.str (.x 1) (.x 0) vcpuExitReason]]

/-- `__guest_exit`, up to the `ret`. -/
def guestExit : Code := List.flatten [
  stp (.x 2) (.x 3) (.x 0) 16,
  stp (.x 4) (.x 5) (.x 0) 32,
  stp (.x 6) (.x 7) (.x 0) 48,
  stp (.x 8) (.x 9) (.x 0) 64,
  stp (.x 10) (.x 11) (.x 0) 80,
  stp (.x 12) (.x 13) (.x 0) 96,
  stp (.x 14) (.x 15) (.x 0) 112,
  stp (.x 16) (.x 17) (.x 0) 128,
  stp (.x 18) (.x 19) (.x 0) 144,
  stp (.x 20) (.x 21) (.x 0) 160,
  stp (.x 22) (.x 23) (.x 0) 176,
  stp (.x 24) (.x 25) (.x 0) 192,
  stp (.x 26) (.x 27) (.x 0) 208,
  stp (.x 28) (.x 29) (.x 0) 224,
  [.str (.x 30) (.x 0) 240],
  -- guest x0/x1 from the stub's stack slot
  ldp (.x 2) (.x 3) .sp 0,
  [.str (.x 2) (.x 0) 0],
  [.str (.x 3) (.x 0) 8],
  -- guest return state and exit syndrome
  [.mov (.x 1) .spEl0],
  [.str (.x 1) (.x 0) vcpuSpEl0],
  [.mov (.x 1) .elrEl2],
  [.str (.x 1) (.x 0) vcpuPc],
  [.mov (.x 1) .spsrEl2],
  [.str (.x 1) (.x 0) vcpuPstate],
  [.mov (.x 1) .esrEl2],
  [.str (.x 1) (.x 0) vcpuExitEsr],
  [.mov (.x 1) .farEl2],
  [.str (.x 1) (.x 0) vcpuExitFar],
  [.mov (.x 1) .hpfarEl2],
  [.str (.x 1) (.x 0) vcpuExitHpfar],
  -- guest FP/SIMD
  [.add (.x 1) (.x 0) vcpuFp],
  stpQ 0 1 (.x 1) 0,
  stpQ 2 3 (.x 1) 32,
  stpQ 4 5 (.x 1) 64,
  stpQ 6 7 (.x 1) 96,
  stpQ 8 9 (.x 1) 128,
  stpQ 10 11 (.x 1) 160,
  stpQ 12 13 (.x 1) 192,
  stpQ 14 15 (.x 1) 224,
  stpQ 16 17 (.x 1) 256,
  stpQ 18 19 (.x 1) 288,
  stpQ 20 21 (.x 1) 320,
  stpQ 22 23 (.x 1) 352,
  stpQ 24 25 (.x 1) 384,
  stpQ 26 27 (.x 1) 416,
  stpQ 28 29 (.x 1) 448,
  stpQ 30 31 (.x 1) 480,
  [.mov (.x 1) .fpsr],
  [.str (.x 1) (.x 0) vcpuFpsr],
  [.mov (.x 1) .fpcr],
  [.str (.x 1) (.x 0) vcpuFpcr],
  -- back to the hypervisor's stack and callee-saved registers
  [.ldr (.x 1) (.x 0) vcpuHypSp],
  [.mov .sp (.x 1)],
  ldp (.x 19) (.x 20) .sp 0,
  ldp (.x 21) (.x 22) .sp 16,
  ldp (.x 23) (.x 24) .sp 32,
  ldp (.x 25) (.x 26) .sp 48,
  ldp (.x 27) (.x 28) .sp 64,
  ldp (.x 29) (.x 30) .sp 80,
  [.add .sp .sp 96]]

/-! ## 5. The guest -/

/-- The field in which a register of the guest's context is kept while the guest
does not run. -/
def Reg.field : Reg → Option Field
  | .x i => some (.x i)
  | .spEl0 => some .spEl0
  | .elrEl2 => some .pc
  | .spsrEl2 => some .pstate
  | .q i hi => some (.q i hi)
  | .fpsr => some .fpsr
  | .fpcr => some .fpcr
  | .sctlrEl1 => some .sctlrEl1
  | .cpacrEl1 => some .cpacrEl1
  | .ttbr0El1 => some .ttbr0El1
  | .ttbr1El1 => some .ttbr1El1
  | .tcrEl1 => some .tcrEl1
  | .mairEl1 => some .mairEl1
  | .amairEl1 => some .amairEl1
  | .vbarEl1 => some .vbarEl1
  | .contextidrEl1 => some .contextidrEl1
  | .spEl1 => some .spEl1
  | .elrEl1 => some .elrEl1
  | .spsrEl1 => some .spsrEl1
  | .esrEl1 => some .esrEl1
  | .farEl1 => some .farEl1
  | .tpidrEl0 => some .tpidrEl0
  | .tpidrroEl0 => some .tpidrroEl0
  | .tpidrEl1 => some .tpidrEl1
  | .ichLr i => some (.ichLr i)
  | .ichVmcr => some .ichVmcr
  | .ichAp1r0 => some .ichAp1r0
  | .sp | .esrEl2 | .farEl2 | .hpfarEl2 | .tpidrEl2 | .vttbrEl2 | .vmpidrEl2 | .v | .tmp | .link =>
    none

/-- What the guest changes while it runs, and the exception when it exits. -/
def Reg.guestWrites (r : Reg) : Bool :=
  r.field.isSome || r = .esrEl2 || r = .farEl2 || r = .hpfarEl2

/-- From the start of `vcpu_run_once` to the call of `__guest_enter`. -/
def toCall : Code := beforeCall ++ callGuestEnter

/-- The run of the guest. -/
def guestRun : Code := [.havoc Reg.guestWrites]

/-- From the first instruction of the guest to the return of `__guest_enter`; the
guest exits through vector `idx`. -/
def fromGuest (idx : U64) : Code := guestRun ++ vecGuest idx ++ guestExit

/-- All of `vcpu_run_once`. -/
def runOnceCode (idx : U64) : Code := toCall ++ guestEnter ++ fromGuest idx ++ afterCall

end FermiHV.World
