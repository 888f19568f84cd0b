import FermiHV.Vgic
import FermiHV.Lib.Interference

/-!
# Isolation of the per-VM vGICs

In the multi-tenant loops `vgic_mmio` is called with the running tenant as
`vm`. The distributor registers then belong to `vg[vm]`, but a redistributor
register belongs to `vg[vm + frame]`, and the guest chooses the frame: the
window exposes four frames whatever `g_ngicr` says. So tenant 0 reaches the
state of tenant 1 through frame 1, and both tenants share `vg[2]` and `vg[3]`.

1. `regWrite_eq_modify`, `regRead_eq`: an access touches one element of `vg`
   only, and which one.
2. `reg_home`: the elements that the registers of a tenant belong to, when
   tenant 0 keeps to its own frame.
3. `gic_isolation`: in every run in which tenant 0 keeps to its own frame,
   neither tenant disturbs the other.
4. `frame1_write_disturbs`: one write of tenant 0 to frame 1 does.
-/

namespace FermiHV

/-! ## 1. The state behind a register -/

/-- The element of `vg` that a register of tenant `vm` belongs to. -/
def regOwner (vm : Int) (ipa : U64) : Int :=
  if vgicGicrBase ≤ ipa then gicrIndex vm (gicrFrame (ipa - vgicGicrBase)) else vm

/-- The address is one of the redistributor registers that hold state:
`GICR_IGROUPR0`, `GICR_ISENABLER0` or `GICR_ICENABLER0` of some frame. -/
def gicrStateReg (ipa : U64) : Bool :=
  let off := (ipa - vgicGicrBase) % vgicGicrStride
  vgicGicrBase ≤ ipa && (off = 0x10080 || off = 0x10100 || off = 0x10180)

theorem modify_id (g : Vgic) (i : Int) : g.modify i id = g := by
  simp [Vgic.modify]

theorem modify_vg_of_ne {g : Vgic} {i j : Int} {f : VgicState → VgicState} (h : j ≠ i) :
    (g.modify i f).vg j = g.vg j := by
  simp [Vgic.modify, Function.update_of_ne h]

theorem modify_vg_self (g : Vgic) (i : Int) (f : VgicState → VgicState) :
    (g.modify i f).vg i = f (g.vg i) := by
  simp [Vgic.modify]

/-- A register write updates the owner's element, by a function that depends on
the register and the value only. A redistributor register without state is not
written at all. -/
theorem regWrite_eq_modify (vm : Int) (ipa : U64) (val : U32) :
    ∃ f, (∀ g, regWrite vm ipa val g = g.modify (regOwner vm ipa) f) ∧
      (vgicGicrBase ≤ ipa → gicrStateReg ipa = false → f = id) := by
  by_cases hr : vgicGicrBase ≤ ipa
  · simp only [regWrite, regOwner, gicrStateReg, hr, if_true, decide_true, Bool.true_and]
    generalize (ipa - vgicGicrBase) % vgicGicrStride = off
    by_cases h1 : off = 0x10080
    · exact ⟨_, fun g => if_pos h1, by simp [h1]⟩
    by_cases h2 : off = 0x10100
    · exact ⟨_, fun g => (if_neg h1).trans (if_pos h2), by simp [h2]⟩
    by_cases h3 : off = 0x10180
    · exact ⟨_, fun g => (if_neg h1).trans ((if_neg h2).trans (if_pos h3)), by simp [h3]⟩
    · refine ⟨id, fun g => ?_, fun _ _ => rfl⟩
      rw [if_neg h1, if_neg h2, if_neg h3, modify_id]
  · simp only [regWrite, regOwner, hr, if_false]
    generalize ipa - vgicGicdBase = off
    by_cases h1 : off = 0
    · exact ⟨_, fun g => if_pos h1, fun h => absurd h id⟩
    by_cases h2 : 0x100 ≤ off ∧ off < 0x180
    · exact ⟨_, fun g => (if_neg h1).trans (if_pos h2), fun h => absurd h id⟩
    by_cases h3 : 0x180 ≤ off ∧ off < 0x200
    · exact ⟨_, fun g => (if_neg h1).trans ((if_neg h2).trans (if_pos h3)), fun h => absurd h id⟩
    · refine ⟨id, fun g => ?_, fun _ _ => rfl⟩
      rw [if_neg h1, if_neg h2, if_neg h3, modify_id]

/-- A register read depends on the owner's element and on `g_ngicr`. A
redistributor register without state does not depend on the element. -/
theorem regRead_eq (vm : Int) (ipa : U64) :
    ∃ r : Int → VgicState → U32, (∀ g, regRead g vm ipa = r g.ngicr (g.vg (regOwner vm ipa))) ∧
      (vgicGicrBase ≤ ipa → gicrStateReg ipa = false → ∀ n s s', r n s = r n s') := by
  refine ⟨fun n s => regRead { vg := fun _ => s, sgiPending := fun _ => 0, ngicr := n } vm ipa,
    fun g => ?_, fun hr hs n s s' => ?_⟩
  · by_cases hr : vgicGicrBase ≤ ipa
    · simp only [regRead, regOwner, hr, if_true]
    · simp only [regRead, regOwner, hr, if_false]
  · simp only [gicrStateReg, hr, decide_true, Bool.true_and, Bool.or_eq_false_iff,
      decide_eq_false_iff_not] at hs
    simp only [regRead, hr, if_true, hs.1.1, hs.1.2, if_false]

/-! ## 2. Accesses of a tenant -/

/-- One trapped GIC access: the tenant, its vCPU at the exit and the address,
which the loop has found in the emulated windows. -/
structure GicAccess where
  vm : Fin 2
  v : Vcpu
  ipa : U64
  inWindow : vgicContains ipa = true

/-- The registers that an access touches: none without a valid syndrome, two
for a 64-bit access. -/
def GicAccess.regs (a : GicAccess) : List U64 :=
  let iss := esrIss a.v.exitEsr
  if !issIsv iss then [] else if issDword iss then [a.ipa, a.ipa + 4] else [a.ipa]

/-- Tenant 0 touches no state register of a frame other than frame 0. -/
def GicAccess.KeepsFrame (a : GicAccess) : Prop :=
  a.vm = 0 → ∀ r ∈ a.regs, gicrStateReg r = true → gicrFrame (r - vgicGicrBase) = 0

/-- The two tenants as clients of the vGIC: an access returns the vCPU with the
value read in its transfer register. -/
def gicMachine : Interference.Machine Vgic GicAccess Vcpu (Fin 2) where
  step := fun g a => (vgicMmio a.vm.val a.v a.ipa g).2
  out := fun g a => (vgicMmio a.vm.val a.v a.ipa g).1
  dom := GicAccess.vm

/-- The elements of `vg` that the registers of a tenant belong to. -/
def home (b : Fin 2) (i : Int) : Prop := if b = 0 then i = 0 else 1 ≤ i ∧ i ≤ 3

theorem home_self (b : Fin 2) : home b b.val := by
  unfold home
  split_ifs with hb
  · simp [hb]
  · have : b.val = 1 := by omega
    omega

theorem home_disjoint {b c : Fin 2} {i : Int} (hne : c ≠ b) (hc : home c i) : ¬ home b i := by
  unfold home at *
  split_ifs at * <;> omega

theorem gicrFrame_eq {goff : U64} (h : goff.toNat < 0x80004) :
    gicrFrame goff = (goff.toNat / 0x20000 : Nat) := by
  have hset : ((goff / vgicGicrStride).setWidth 32).toNat = goff.toNat / 0x20000 := by
    rw [BitVec.toNat_setWidth, BitVec.toNat_udiv]
    change goff.toNat / 0x20000 % 2 ^ 32 = _
    omega
  unfold gicrFrame
  rw [BitVec.toInt_eq_toNat_of_lt (by omega), hset]

theorem gicrFrame_bounds {goff : U64} (h : goff.toNat < 0x80004) :
    0 ≤ gicrFrame goff ∧ gicrFrame goff ≤ 4 := by
  rw [gicrFrame_eq h]
  omega

theorem mem_regs {a : GicAccess} {r : U64} (hr : r ∈ a.regs) : r = a.ipa ∨ r = a.ipa + 4 := by
  simp only [GicAccess.regs] at hr
  split_ifs at hr
  · exact absurd hr List.not_mem_nil
  · simpa using hr
  · exact .inl (by simpa using hr)

/-- Both registers of an access in the window are in the distributor's range or
at most four bytes past the four frames. -/
theorem regs_window {a : GicAccess} {r : U64} (hr : r ∈ a.regs) (hb : vgicGicrBase ≤ r) :
    (r - vgicGicrBase).toNat < 0x80004 := by
  have hwin := vgicContains_iff.mp a.inWindow
  simp only [vgicGicrBase, BitVec.le_def] at hb ⊢
  rcases mem_regs hr with rfl | rfl <;> bv_omega

/-- The element behind a register of a tenant that keeps to its frame, for both
directions of access. -/
theorem reg_home {a : GicAccess} (hk : a.KeepsFrame) {r : U64} (hr : r ∈ a.regs) :
    ∃ i, home a.vm i ∧ (∀ val, ∃ f, ∀ g, regWrite a.vm.val r val g = g.modify i f) ∧
      ∃ rd : Int → VgicState → U32, ∀ g, regRead g a.vm.val r = rd g.ngicr (g.vg i) := by
  obtain ⟨rd, hrd, hrd0⟩ := regRead_eq a.vm.val r
  by_cases hb : vgicGicrBase ≤ r
  · have hframe := gicrFrame_bounds (regs_window hr hb)
    have howner : regOwner a.vm.val r = gicrIndex a.vm.val (gicrFrame (r - vgicGicrBase)) := by
      simp only [regOwner, hb, if_true]
    by_cases hown : home a.vm (regOwner a.vm.val r)
    · refine ⟨_, hown, fun val => ?_, rd, hrd⟩
      obtain ⟨f, hf, -⟩ := regWrite_eq_modify a.vm.val r val
      exact ⟨f, hf⟩
    · -- only tenant 0 has registers outside its home, and then they hold no state
      have hvm : a.vm = 0 := by
        by_contra hne
        have h1 : a.vm.val = 1 := by omega
        apply hown
        rw [howner]
        unfold home gicrIndex vgicMaxVcpus
        rw [if_neg hne]
        split_ifs <;> omega
      have hstate : gicrStateReg r = false := by
        cases hs : gicrStateReg r with
        | false => rfl
        | true =>
          have h0 := hk hvm r hr hs
          exact absurd (by rw [howner, h0, hvm]; exact home_self 0) hown
      refine ⟨a.vm.val, home_self a.vm, fun val => ?_, rd, fun g => ?_⟩
      · obtain ⟨f, hf, hid⟩ := regWrite_eq_modify a.vm.val r val
        refine ⟨id, fun g => ?_⟩
        rw [hf g, hid hb hstate, modify_id, modify_id]
      · rw [hrd g]
        exact hrd0 hb hstate _ _ _
  · have howner : regOwner a.vm.val r = a.vm.val := by simp only [regOwner, hb, if_false]
    refine ⟨a.vm.val, home_self a.vm, fun val => ?_, rd, fun g => ?_⟩
    · obtain ⟨f, hf, -⟩ := regWrite_eq_modify a.vm.val r val
      exact ⟨f, fun g => by rw [hf g, howner]⟩
    · rw [hrd g, howner]

/-- The states of two runs that tenant `b` cannot tell apart. -/
def AgreeFor (b : Fin 2) (g g' : Vgic) : Prop :=
  g.ngicr = g'.ngicr ∧ ∀ i, home b i → g.vg i = g'.vg i

theorem agreeFor_modify {b : Fin 2} {g g' : Vgic} (h : AgreeFor b g g') (i : Int)
    (f : VgicState → VgicState) : AgreeFor b (g.modify i f) (g'.modify i f) := by
  refine ⟨h.1, fun j hj => ?_⟩
  by_cases hji : j = i
  · subst hji
    rw [modify_vg_self, modify_vg_self, h.2 j hj]
  · rw [modify_vg_of_ne hji, modify_vg_of_ne hji, h.2 j hj]

theorem agreeFor_modify_left {b c : Fin 2} {g g' : Vgic} {i : Int} (hne : c ≠ b) (hi : home c i)
    (h : AgreeFor b g g') (f : VgicState → VgicState) : AgreeFor b (g.modify i f) g' := by
  refine ⟨h.1, fun j hj => ?_⟩
  have hji : j ≠ i := by
    rintro rfl
    exact home_disjoint hne hi hj
  rw [modify_vg_of_ne hji, h.2 j hj]

/-- What one access does: nothing, or writes to at most two registers. -/
theorem step_cases (a : GicAccess) :
    (∀ g, gicMachine.step g a = g) ∨
    (∃ val, a.ipa ∈ a.regs ∧ ∀ g, gicMachine.step g a = regWrite a.vm.val a.ipa val g) ∨
    ∃ val val', a.ipa ∈ a.regs ∧ a.ipa + 4 ∈ a.regs ∧
      ∀ g, gicMachine.step g a =
        regWrite a.vm.val (a.ipa + 4) val' (regWrite a.vm.val a.ipa val g) := by
  simp only [gicMachine, vgicMmio, GicAccess.regs]
  cases hisv : issIsv (esrIss a.v.exitEsr) with
  | false => exact .inl fun g => by simp
  | true =>
    cases hwnr : issWnr (esrIss a.v.exitEsr) with
    | false => exact .inl fun g => by simp
    | true =>
      cases hdw : issDword (esrIss a.v.exitEsr) with
      | false =>
        exact .inr (.inl ⟨(a.v.getX (issSrt (esrIss a.v.exitEsr))).setWidth 32, by simp,
          fun g => by simp⟩)
      | true =>
        exact .inr (.inr ⟨(a.v.getX (issSrt (esrIss a.v.exitEsr))).setWidth 32,
          (a.v.getX (issSrt (esrIss a.v.exitEsr)) >>> 32).setWidth 32, by simp, by simp,
          fun g => by simp⟩)

/-- An access of another tenant is invisible to `b`. -/
theorem step_other {a : GicAccess} (hk : a.KeepsFrame) {b : Fin 2} (hne : a.vm ≠ b) {g g' : Vgic}
    (h : AgreeFor b g g') : AgreeFor b (gicMachine.step g a) g' := by
  rcases step_cases a with hs | ⟨val, hr, hs⟩ | ⟨val, val', hr, hr', hs⟩
  · rw [hs]
    exact h
  · obtain ⟨i, hi, hw, -⟩ := reg_home hk hr
    obtain ⟨f, hf⟩ := hw val
    rw [hs, hf]
    exact agreeFor_modify_left hne hi h f
  · obtain ⟨i, hi, hw, -⟩ := reg_home hk hr
    obtain ⟨i', hi', hw', -⟩ := reg_home hk hr'
    obtain ⟨f, hf⟩ := hw val
    obtain ⟨f', hf'⟩ := hw' val'
    rw [hs, hf, hf']
    exact agreeFor_modify_left hne hi' (agreeFor_modify_left hne hi h f) f'

/-- An access of `b` takes indistinguishable states to indistinguishable
states. -/
theorem step_own {a : GicAccess} (hk : a.KeepsFrame) {b : Fin 2} {g g' : Vgic}
    (h : AgreeFor b g g') : AgreeFor b (gicMachine.step g a) (gicMachine.step g' a) := by
  rcases step_cases a with hs | ⟨val, hr, hs⟩ | ⟨val, val', hr, hr', hs⟩
  · rw [hs, hs]
    exact h
  · obtain ⟨i, -, hw, -⟩ := reg_home hk hr
    obtain ⟨f, hf⟩ := hw val
    rw [hs, hs, hf, hf]
    exact agreeFor_modify h i f
  · obtain ⟨i, -, hw, -⟩ := reg_home hk hr
    obtain ⟨i', -, hw', -⟩ := reg_home hk hr'
    obtain ⟨f, hf⟩ := hw val
    obtain ⟨f', hf'⟩ := hw' val'
    rw [hs, hs, hf, hf, hf', hf']
    exact agreeFor_modify (agreeFor_modify h i f) i' f'

/-- An access of `b` returns the same value in indistinguishable states. -/
theorem out_own {a : GicAccess} (hk : a.KeepsFrame) {b : Fin 2} (hd : a.vm = b) {g g' : Vgic}
    (h : AgreeFor b g g') : gicMachine.out g a = gicMachine.out g' a := by
  have hread : ∀ r ∈ a.regs, regRead g a.vm.val r = regRead g' a.vm.val r := by
    intro r hr
    obtain ⟨i, hi, -, rd, hrd⟩ := reg_home hk hr
    rw [hrd g, hrd g', h.1, h.2 i (hd ▸ hi)]
  simp only [GicAccess.regs] at hread
  simp only [gicMachine, vgicMmio]
  cases hisv : issIsv (esrIss a.v.exitEsr) with
  | false => simp
  | true =>
    cases hwnr : issWnr (esrIss a.v.exitEsr) with
    | true => simp
    | false =>
      have h0 := hread a.ipa (by simp only [hisv]; split_ifs <;> simp_all)
      cases hdw : issDword (esrIss a.v.exitEsr) with
      | false => simp only [Bool.not_true, Bool.false_eq_true, if_false, h0]
      | true =>
        have h4 := hread (a.ipa + 4) (by simp [hisv, hdw])
        simp only [Bool.not_true, Bool.false_eq_true, if_false, if_true, h0, h4]

/-! ## 3. Isolation over whole runs -/

/-- Tenant `b` is isolated in a run: no access of the other tenant changes the
state of `b`, and everything `b` reads back, as well as its enabled interrupts
afterwards, is as in the run in which only `b` accesses its GIC. -/
structure GicIsolated (g : Vgic) (as : List GicAccess) (b : Fin 2) : Prop where
  unchanged : ∀ pre a post, as = pre ++ a :: post → a.vm ≠ b →
    (gicMachine.step (gicMachine.run g pre) a).vg b.val = (gicMachine.run g pre).vg b.val
  reads : gicMachine.outputs b g as = gicMachine.outputs b g (gicMachine.own b as)
  irqs : ∀ intid, vgicIrqEnabled (gicMachine.run g as) b.val intid =
    vgicIrqEnabled (gicMachine.run g (gicMachine.own b as)) b.val intid
  spis : ∀ intid, vgicSpiEnabled (gicMachine.run g as) b.val intid =
    vgicSpiEnabled (gicMachine.run g (gicMachine.own b as)) b.val intid

/-- Both tenants are isolated in every run in which tenant 0 touches no state
register of a frame other than frame 0. -/
theorem gic_isolation (g : Vgic) (as : List GicAccess) (hk : ∀ a ∈ as, a.KeepsFrame)
    (b : Fin 2) : GicIsolated g as b := by
  obtain ⟨houts, hrun⟩ := Interference.Machine.undisturbed_of_unwinding (M := gicMachine) (b := b)
    (C := GicAccess.KeepsFrame) (R := AgreeFor b)
    (fun _ _ _ hne hka h => step_other hka hne h) (fun _ _ _ _ hka h => step_own hka h)
    (fun _ _ _ hd hka h => out_own hka hd h) hk (s := g) (t := g) ⟨rfl, fun _ _ => rfl⟩
  have hself := hrun.2 b.val (home_self b)
  refine ⟨?_, houts, fun intid => ?_, fun intid => ?_⟩
  · intro pre a post heq hne
    have hka : a.KeepsFrame := hk a (by rw [heq]; simp)
    have hrefl : AgreeFor b (gicMachine.run g pre) (gicMachine.run g pre) := ⟨rfl, fun _ _ => rfl⟩
    exact (step_other hka hne hrefl).2 b.val (home_self b)
  · unfold vgicIrqEnabled
    rw [hself]
  · unfold vgicSpiEnabled
    rw [hself]

/-! ## 4. The frames of the other tenant -/

/-- Tenant 0 enables every SGI and PPI in `GICR_ISENABLER0` of frame 1. -/
def frame1Write : GicAccess where
  vm := 0
  v := storingVcpu 0xFFFFFFFF
  ipa := 0x080D0100
  inWindow := by decide

def resetVgic : Vgic :=
  vgicReset
    { vg := fun _ => { gicdCtlr := 0, enabled := 0, group := 0, spiEnabled := fun _ => 0 }
      sgiPending := fun _ => 0
      ngicr := 1 }

/-- One write of tenant 0 to frame 1 enables interrupts of tenant 1. -/
theorem frame1_write_disturbs : ¬ GicIsolated resetVgic [frame1Write] 1 := by
  intro h
  have henabled := congrArg VgicState.enabled (h.unchanged [] frame1Write [] rfl (by decide))
  exact absurd henabled (by decide)

/-- Both tenants enable their own timer interrupt, each in its frame 0. -/
theorem gic_isolation_own_frames :
    let w (vm : Fin 2) : GicAccess :=
      { vm := vm, v := storingVcpu (1 <<< 27), ipa := 0x080B0100, inWindow := by decide }
    GicIsolated resetVgic [w 0, w 1] 1 := by
  intro w
  refine gic_isolation resetVgic [w 0, w 1] ?_ 1
  intro a ha h0 r hr hs
  have hw : ∀ vm, (w vm).regs = [0x080B0100] := fun vm => by
    simp only [w, GicAccess.regs]
    decide
  have hr' : r = 0x080B0100 := by
    rcases List.mem_cons.mp ha with rfl | ha
    · rw [hw] at hr
      simpa using hr
    · rw [List.mem_singleton.mp ha, hw] at hr
      simpa using hr
  subst hr'
  decide

end FermiHV
