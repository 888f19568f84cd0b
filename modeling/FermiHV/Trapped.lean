import FermiHV.Faults

/-!
# Emulated device windows and fault-in

The emulated GIC and UART are a few KiB of the first GiB of IPA space, and they
are emulated only as long as entry 0 of the shared stage-2 table is invalid: an
access then aborts to EL2. Stage-2 maps whole GiB blocks, and the loops fault in
the block of any abort that is not an access they emulate. `stays_trapped_iff`
says when the windows stay trapped throughout a run.
-/

namespace FermiHV

open RunLoop (Flow Loop)

/-- The loops that both emulate devices and fault in RAM. -/
def trappingLoops (n budget nticks : Nat) : List FaultingLoop :=
  [runVcpusFaults n budget, vgicDemoFaults nticks, realGuestFaults, fermiosVgicBootFaults]

/-! ## 1. Entry 0 -/

/-- A descriptor is invalid when its bit 0 is clear. -/
def InvalidDesc (d : U64) : Prop := d &&& 1 = 0

/-- The addresses of the emulated UART, distributor and redistributors. -/
def inWindow (a : U64) : Prop := vuartContains a = true ∨ vgicContains a = true

/-- Entry 0 of the shared table is invalid, and with it every access to an
emulated window aborts. -/
structure Trapped (img : Image) (st : Stage2) : Prop where
  invalid : InvalidDesc (st.s2L1 0)
  aborts : ∀ a, inWindow a → stage2Walk img st (stage2Vttbr img) a = none

theorem invalidDesc_iff (d : U64) : InvalidDesc d ↔ d.toNat % 2 = 0 := by
  have h := Bits.toNat_and_mask d (k := 1) (by omega)
  have hval : (d &&& 1).toNat = d.toNat % 2 := h
  rw [InvalidDesc, ← hval]
  constructor
  · intro he
    rw [he]
    rfl
  · exact fun he => BitVec.eq_of_toNat_eq he

theorem not_invalidDesc_block (a : U64) : ¬ InvalidDesc (blockBase a ||| s2BlockNormal) := by
  rw [invalidDesc_iff, toNat_blockDesc a s2BlockNormal (by decide)]
  have hattr : s2BlockNormal.toNat = 2045 := rfl
  omega

theorem s2Lookup_of_invalid {t : Table} {a : U64} (h : InvalidDesc (t (s2Index a))) :
    s2Lookup t a = none := by
  have hmask := Bits.toNat_and_mask (t (s2Index a)) (k := 2) (by omega)
  rw [invalidDesc_iff] at h
  have hne : t (s2Index a) &&& 3 ≠ 1 := by
    intro he
    have hval : (t (s2Index a) &&& 3).toNat = (t (s2Index a)).toNat % 2 ^ 2 := hmask
    rw [he] at hval
    have hone : (1 : U64).toNat = 1 := rfl
    omega
  simp only [s2Lookup, if_neg hne]

theorem s2Index_of_inWindow {a : U64} (h : inWindow a) : s2Index a = 0 ∧ a.toNat < 2 ^ 39 := by
  have hlt : a.toNat < 2 ^ 30 := by
    rcases h with huart | hgic
    · simp only [vuartContains, vuartBase, vuartSize, Bool.and_eq_true, decide_eq_true_eq,
        BitVec.le_def, BitVec.lt_def] at huart
      bv_omega
    · rw [vgicContains_iff] at hgic
      omega
  refine ⟨Fin.ext ?_, by omega⟩
  rw [s2Index_val]
  change _ = 0
  omega

theorem trapped_of_invalid {img : Image} {st : Stage2} (h : InvalidDesc (st.s2L1 0)) :
    Trapped img st where
  invalid := h
  aborts := by
    intro a ha
    obtain ⟨hidx, hlt⟩ := s2Index_of_inWindow ha
    rw [walk_shared img st hlt, s2Lookup_of_invalid]
    rw [hidx]
    exact h

theorem trapped_iff {img : Image} {st : Stage2} : Trapped img st ↔ InvalidDesc (st.s2L1 0) :=
  ⟨Trapped.invalid, trapped_of_invalid⟩

theorem trapped_stage2Init (img : Image) (st : Stage2) : Trapped img (stage2Init st) := by
  refine trapped_of_invalid ?_
  have hidx : s2Index 0x40000000 ≠ 0 := by decide
  simp only [stage2Init, stage2Map1gb, Function.update_of_ne hidx.symm]
  rfl

/-- Mapping a block keeps the windows trapped exactly when it is not the first
one. -/
theorem trapped_map1gb {img : Image} {st : Stage2} (h : Trapped img st) (base : U64) :
    Trapped img (stage2Map1gb base st) ↔ s2Index base ≠ 0 := by
  rw [trapped_iff, stage2Map1gb]
  by_cases hidx : s2Index base = 0
  · simp only [hidx, Function.update_self, ne_eq, not_true, iff_false]
    exact not_invalidDesc_block base
  · simp only [Function.update_of_ne (Ne.symm hidx), ne_eq, hidx, not_false_iff, iff_true]
    exact h.invalid

/-! ## 2. Runs -/

/-- The pass does not map the block of the device windows. -/
def FaultingLoop.KeepsWindows (L : FaultingLoop) (e : Event) (s : L.S) : Prop :=
  ∀ base, L.fault e s = some base → s2Index base ≠ 0

theorem FaultingLoop.trapped_body {L : FaultingLoop} {img : Image} {s : L.S} (e : Event)
    (h : Trapped img (L.s2 s)) :
    Trapped img (L.s2 (L.loop.body e s).state) ↔ L.KeepsWindows e s := by
  rw [L.body_s2, FaultingLoop.KeepsWindows]
  cases hf : L.fault e s with
  | none => simpa using h
  | some base => simpa using trapped_map1gb h base

/-- `stage2_init` leaves the windows trapped, and in each loop they stay trapped
in every state of a run if and only if no pass faults in the first block. -/
theorem stays_trapped_iff (img : Image) (n budget nticks : Nat) :
    (∀ st, Trapped img (stage2Init st)) ∧
    ∀ L ∈ trappingLoops n budget nticks, ∀ s : L.S, Trapped img (L.s2 s) → ∀ es : List Event,
      ((∀ t ∈ L.loop.reached s es, Trapped img (L.s2 t)) ↔
        ∀ p ∈ L.loop.iters s es, L.KeepsWindows p.2 p.1) := by
  refine ⟨trapped_stage2Init img, fun L _ s h0 es => ?_⟩
  exact Loop.reached_iff (P := fun t => Trapped img (L.s2 t)) (C := L.KeepsWindows)
    (fun t e ht _ => L.trapped_body e ht) h0

/-- One pass that faults in the first block opens the windows. -/
theorem FaultingLoop.not_trapped_of_fault {L : FaultingLoop} {img : Image} {s : L.S} {e : Event}
    {base : U64} (hc : L.loop.cond s = true) (hf : L.fault e s = some base)
    (hidx : s2Index base = 0) (h0 : Trapped img (L.s2 s)) :
    ¬ ∀ t ∈ L.loop.reached s [e], Trapped img (L.s2 t) := by
  intro hall
  have hiters := (Loop.reached_iff (P := fun t => Trapped img (L.s2 t)) (C := L.KeepsWindows)
    (fun t e ht _ => L.trapped_body e ht) h0).mp hall
  have hpass : (s, e) ∈ L.loop.iters s [e] := by
    simp only [Loop.iters, hc, if_true]
    exact List.mem_cons_self
  exact hiters _ hpass base hf hidx

/-- A guest probes the virtio window at `0x0A000000`, in the same GiB as the
emulated devices. -/
def probe : Event := abortExit 0x90000000 0x0A000000

def startHv : Hv := resetHv exampleImage 0x40000000

/-- An access to the emulated GIC leaves the windows of `fermios_vgic_boot`
trapped. -/
theorem stays_trapped_gicd_read :
    Trapped exampleImage startHv.s2 ∧
    ∀ t ∈ fermiosVgicBoot.reached { hv := startHv, count := 0 } [abortExit 0x90000000 0x08000000],
      Trapped exampleImage t.hv.s2 := by
  have hstart : Trapped exampleImage startHv.s2 := trapped_stage2Init _ _
  have hnone : fermiosVgicBootFaults.fault (abortExit 0x90000000 0x08000000)
      { hv := startHv, count := 0 } = none := by decide
  refine ⟨hstart, ((stays_trapped_iff exampleImage 1 1 1).2 fermiosVgicBootFaults
    (by simp [trappingLoops]) { hv := startHv, count := 0 } hstart _).mpr ?_⟩
  intro p hp base hbase
  have hp' : p = ({ hv := startHv, count := 0 }, abortExit 0x90000000 0x08000000) :=
    List.mem_singleton.mp hp
  subst hp'
  cases hnone.symm.trans hbase

/-- In each of the loops the probe maps the first block, after which the guest
reaches the physical UART. -/
theorem probe_opens_windows :
    Trapped exampleImage startHv.s2 ∧
    (¬ ∀ t ∈ (runVcpus 1 1).reached { hv := startHv, i := 0, hcalls := fun _ => 0, active := 1 }
      [probe], Trapped exampleImage t.hv.s2) ∧
    (¬ ∀ t ∈ (vgicDemo 1).reached { hv := startHv, count := 0 } [probe],
      Trapped exampleImage t.hv.s2) ∧
    (¬ ∀ t ∈ realGuestDemo.reached startHv [probe], Trapped exampleImage t.s2) ∧
    (¬ ∀ t ∈ fermiosVgicBoot.reached { hv := startHv, count := 0 } [probe],
      Trapped exampleImage t.hv.s2) ∧
    stage2Walk exampleImage (fermiosVgicBoot.body probe { hv := startHv, count := 0 }).state.hv.s2
      (stage2Vttbr exampleImage) 0x09000000 = some 0x09000000 := by
  have hstart : Trapped exampleImage startHv.s2 := trapped_stage2Init _ _
  have hidx : s2Index 0 = 0 := by decide
  refine ⟨hstart, ?_, ?_, ?_, ?_, by decide +kernel⟩
  · exact (runVcpusFaults 1 1).not_trapped_of_fault rfl (by decide) hidx hstart
  · exact (vgicDemoFaults 1).not_trapped_of_fault rfl (by decide) hidx hstart
  · exact realGuestFaults.not_trapped_of_fault rfl (by decide) hidx hstart
  · exact fermiosVgicBootFaults.not_trapped_of_fault rfl (by decide) hidx hstart

end FermiHV
