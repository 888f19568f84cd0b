import FermiHV.Vcpu

/-!
# The software GICv3

`vgic.c`: the emulated distributor and redistributors, with per-VM state, and
the per-vCPU sets of pending SGIs. The array index of a redistributor access is
computed in C `int`s from the tenant number and the frame addressed, so the
arrays are indexed by integers here; `VgicIsolation` shows which of them an
access can name.
-/

namespace FermiHV

def vgicGicdBase : U64 := 0x08000000
def vgicGicdSize : U64 := 0x00010000
def vgicGicrBase : U64 := 0x080A0000
def vgicGicrStride : U64 := 0x00020000
def vgicMaxVcpus : Int := 4
def vgicGicrSize : U64 := 4 * vgicGicrStride

/-- `struct vgic_state`. -/
structure VgicState where
  gicdCtlr : U32
  enabled : U32
  group : U32
  spiEnabled : Fin 8 → U32

/-- `vg`, `g_sgi_pending` and `g_ngicr`. -/
structure Vgic where
  vg : Int → VgicState
  sgiPending : Int → U32
  ngicr : Int

/-- `vgic_set_ngicr`. -/
def vgicSetNgicr (n : Int) (g : Vgic) : Vgic := { g with ngicr := n }

/-- `vgic_contains`. -/
def vgicContains (ipa : U64) : Bool :=
  (vgicGicdBase ≤ ipa && ipa < vgicGicdBase + vgicGicdSize) ||
    (vgicGicrBase ≤ ipa && ipa < vgicGicrBase + vgicGicrSize)

theorem vgicContains_iff {ipa : U64} : vgicContains ipa = true ↔
    (0x08000000 ≤ ipa.toNat ∧ ipa.toNat < 0x08010000) ∨
      (0x080A0000 ≤ ipa.toNat ∧ ipa.toNat < 0x08120000) := by
  simp only [vgicContains, Bool.or_eq_true, Bool.and_eq_true, decide_eq_true_eq, BitVec.le_def,
    BitVec.lt_def]
  exact Iff.rfl

/-- `vgic_reset`. -/
def vgicReset (g : Vgic) : Vgic where
  vg := fun i =>
    if 0 ≤ i ∧ i < vgicMaxVcpus then
      { gicdCtlr := 0, enabled := 0, group := 0, spiEnabled := fun _ => 0 }
    else g.vg i
  sgiPending := fun i => if 0 ≤ i ∧ i < vgicMaxVcpus then 0 else g.sgiPending i
  ngicr := 1

/-- `vgic_irq_enabled`. -/
def vgicIrqEnabled (g : Vgic) (vm : Int) (intid : U32) : Bool :=
  intid < 32 && (g.vg vm).enabled &&& (1#32 <<< intid.toNat) ≠ 0

/-- `vgic_spi_enabled`. -/
def vgicSpiEnabled (g : Vgic) (vm : Int) (intid : U32) : Bool :=
  if h : intid < 32 ∨ 256 ≤ intid then false
  else
    (g.vg vm).spiEnabled ⟨(intid >>> 5).toNat, by
        rw [BitVec.toNat_ushiftRight, Nat.shiftRight_eq_div_pow]
        have h2 : ¬ 256 ≤ intid := fun hc => h (.inr hc)
        have h3 : intid.toNat < 256 := BitVec.not_le.mp h2
        omega⟩ &&&
      (1#32 <<< (intid &&& 31).toNat) ≠ 0

/-! ## Register accesses -/

/-- The redistributor frame of an offset into the window, as a C `int`. -/
def gicrFrame (goff : U64) : Int := ((goff / vgicGicrStride).setWidth 32).toInt

/-- The state index of a redistributor access: tenant plus frame, clamped to
the last element. -/
def gicrIndex (vm frame : Int) : Int :=
  if vgicMaxVcpus ≤ vm + frame then vgicMaxVcpus - 1 else vm + frame

/-- The element of `spi_enabled` behind a distributor enable register. -/
def spiIndex (off first : U64) : Fin 8 :=
  ⟨((off - first) / 4 % 8).toNat, by
    rw [BitVec.toNat_umod]
    exact Nat.mod_lt _ (by decide)⟩

/-- `reg_read`. -/
def regRead (g : Vgic) (vm : Int) (ipa : U64) : U32 :=
  if vgicGicrBase ≤ ipa then
    let goff := ipa - vgicGicrBase
    let frame := gicrFrame goff
    let off := goff % vgicGicrStride
    let idx := gicrIndex vm frame
    if off = 0x0014 then 0
    else if off = 0x0008 then
      (if frame = g.ngicr - 1 then 1#32 <<< 4 else 0) ||| (BitVec.ofInt 32 frame <<< 8)
    else if off = 0x000C then BitVec.ofInt 32 frame
    else if off = 0xFFE8 then 0x30
    else if off = 0x10080 then (g.vg idx).group
    else if off = 0x10100 then (g.vg idx).enabled
    else 0
  else
    let off := ipa - vgicGicdBase
    if off = 0x0000 then (g.vg vm).gicdCtlr
    else if off = 0x0004 then 0x0007 ||| (9#32 <<< 19)
    else if off = 0x0008 then 0
    else if off = 0xFFE8 then 0x30
    else if 0x100 ≤ off ∧ off < 0x180 then (g.vg vm).spiEnabled (spiIndex off 0x100)
    else if 0x180 ≤ off ∧ off < 0x200 then (g.vg vm).spiEnabled (spiIndex off 0x180)
    else 0

/-- Replace one element of `vg`. -/
def Vgic.modify (g : Vgic) (i : Int) (f : VgicState → VgicState) : Vgic :=
  { g with vg := Function.update g.vg i (f (g.vg i)) }

/-- `reg_write`. -/
def regWrite (vm : Int) (ipa : U64) (val : U32) (g : Vgic) : Vgic :=
  if vgicGicrBase ≤ ipa then
    let goff := ipa - vgicGicrBase
    let frame := gicrFrame goff
    let off := goff % vgicGicrStride
    let idx := gicrIndex vm frame
    if off = 0x10080 then g.modify idx fun s => { s with group := val }
    else if off = 0x10100 then g.modify idx fun s => { s with enabled := s.enabled ||| val }
    else if off = 0x10180 then g.modify idx fun s => { s with enabled := s.enabled &&& ~~~val }
    else g
  else
    let off := ipa - vgicGicdBase
    if off = 0x0000 then g.modify vm fun s => { s with gicdCtlr := val }
    else if 0x100 ≤ off ∧ off < 0x180 then
      g.modify vm fun s => { s with
        spiEnabled := Function.update s.spiEnabled (spiIndex off 0x100)
          (s.spiEnabled (spiIndex off 0x100) ||| val) }
    else if 0x180 ≤ off ∧ off < 0x200 then
      g.modify vm fun s => { s with
        spiEnabled := Function.update s.spiEnabled (spiIndex off 0x180)
          (s.spiEnabled (spiIndex off 0x180) &&& ~~~val) }
    else g

/-- `vgic_mmio`: emulate one trapped access and resume after it. -/
def vgicMmio (vm : Int) (v : Vcpu) (ipa : U64) (g : Vgic) : Vcpu × Vgic :=
  let iss := esrIss v.exitEsr
  if !issIsv iss then (v.skip, g)
  else
    let srt := issSrt iss
    if issWnr iss then
      let val := v.getX srt
      let g1 := regWrite vm ipa (val.setWidth 32) g
      let g2 := if issDword iss then regWrite vm (ipa + 4) ((val >>> 32).setWidth 32) g1 else g1
      (v.skip, g2)
    else
      let lo : U64 := (regRead g vm ipa).setWidth 64
      let val := if issDword iss then lo ||| ((regRead g vm (ipa + 4)).setWidth 64 <<< 32) else lo
      ((v.setX srt val).skip, g)

/-! ## Virtual SGIs -/

/-- `vgic_post_sgi`: pending on every other vCPU. -/
def vgicPostSgi (self : Int) (intid : U32) (g : Vgic) : Vgic :=
  { g with
    sgiPending := fun i =>
      if 0 ≤ i ∧ i < vgicMaxVcpus ∧ i ≠ self then
        g.sgiPending i ||| (1#32 <<< (intid &&& 0x1F).toNat)
      else g.sgiPending i }

/-- `vgic_pop_sgi`: the lowest pending SGI below 16, cleared, or `none` for
the `-1` of the source. -/
def vgicPopSgi (vcpu : Int) (g : Vgic) : Option Nat × Vgic :=
  if vcpu < 0 ∨ vgicMaxVcpus ≤ vcpu ∨ g.sgiPending vcpu = 0 then (none, g)
  else
    match (List.range 16).find? fun b => g.sgiPending vcpu &&& (1#32 <<< b) ≠ 0 with
    | some b =>
      (some b, { g with
        sgiPending := Function.update g.sgiPending vcpu (g.sgiPending vcpu &&& ~~~(1#32 <<< b)) })
    | none => (none, g)

/-- Nothing is popped, or an SGI, whose bit is then clear. -/
theorem vgicPopSgi_cases (c : Int) (g : Vgic) :
    vgicPopSgi c g = (none, g) ∨ ∃ b < 16, vgicPopSgi c g = (some b, { g with
      sgiPending := Function.update g.sgiPending c (g.sgiPending c &&& ~~~(1#32 <<< b)) }) := by
  unfold vgicPopSgi
  split_ifs
  · exact .inl rfl
  · cases hfind : List.find? (fun b => g.sgiPending c &&& (1#32 <<< b) ≠ 0) (List.range 16) with
    | none => exact .inl rfl
    | some b => exact .inr ⟨b, List.mem_range.mp (List.mem_of_find?_eq_some hfind), rfl⟩

end FermiHV
