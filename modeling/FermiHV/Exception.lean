import FermiHV.Lib.Bits

/-!
# Exit syndromes

The machine words of the hypervisor and the decoding of `ESR_EL2` and of the
faulting address, as `exception.h` and the exit handlers do it.
-/

namespace FermiHV

abbrev U8 := BitVec 8
abbrev U16 := BitVec 16
abbrev U32 := BitVec 32
abbrev U64 := BitVec 64

/-! ## Numerals of finite types

A numeral of `Fin n` carries a proof of `NeZero n`. The general instance is abstracted into
an auxiliary lemma, which belongs to whichever definition of a module comes first; with a
constant for each size that the model has numerals of, a numeral is the same term in
every module. -/

instance neZeroVms : NeZero 2 := ⟨by decide⟩

instance neZeroLrs : NeZero 4 := ⟨by decide⟩

instance neZeroGprs : NeZero 31 := ⟨by decide⟩

instance neZeroSimd : NeZero 32 := ⟨by decide⟩

/-! ## Exception classes (`ESR_EL2.EC`) -/

def ecHvc64 : U64 := 0x16
def ecSmc64 : U64 := 0x17
def ecSysreg : U64 := 0x18
def ecIabtLow : U64 := 0x20
def ecDabtLow : U64 := 0x24
def ecBrk : U64 := 0x3C

def esrEc (esr : U64) : U64 := (esr >>> 26) &&& 0x3F
def esrIss (esr : U64) : U64 := esr &&& 0x1FFFFFF

/-! ## Data-abort syndrome (`ISS`) -/

/-- ISV: the syndrome describes the access. -/
def issIsv (iss : U64) : Bool := (iss >>> 24) &&& 1 = 1
/-- WnR: a write. -/
def issWnr (iss : U64) : Bool := (iss >>> 6) &&& 1 = 1
/-- SRT: the transfer register; 31 is the zero register. -/
def issSrt (iss : U64) : Nat := ((iss >>> 16) &&& 0x1F).toNat
/-- SAS: the access size, a power of two in bytes. -/
def issSas (iss : U64) : U64 := (iss >>> 22) &&& 3
/-- SAS = 3: a 64-bit access. -/
def issDword (iss : U64) : Bool := issSas iss = 3

/-! ## Trapped system-register syndrome -/

/-- Direction: 1 is a read (`MRS`). -/
def issDir (iss : U64) : U64 := iss &&& 1
def issRt (iss : U64) : Nat := ((iss >>> 5) &&& 0x1F).toNat
def issOp2 (iss : U64) : U64 := (iss >>> 17) &&& 7
def issCrn (iss : U64) : U64 := (iss >>> 10) &&& 0xF
def issCrm (iss : U64) : U64 := (iss >>> 1) &&& 0xF

/-! ## Faulting address -/

/-- The faulting IPA: the page from `HPFAR_EL2`, the offset in it from
`FAR_EL2`. -/
def faultIpa (hpfar far : U64) : U64 := ((hpfar >>> 4) <<< 12) ||| (far &&& 0xFFF)

/-- The base of the 1 GiB block of an address. -/
def blockBase (ipa : U64) : U64 := ipa &&& ~~~0x3FFFFFFF

theorem toNat_blockBase (ipa : U64) : (blockBase ipa).toNat = ipa.toNat / 2 ^ 30 * 2 ^ 30 :=
  Bits.toNat_and_not_mask ipa 30

end FermiHV
