import FermiHV.Scheduler
import FermiHV.Trapped

/-!
# Progress after a stage-2 abort

A run loop that serves a stage-2 abort and goes on must have changed something:
the guest is past the instruction, or the address is translated now. Otherwise
the guest takes the same abort again.

* `Progress` is that demand on the state a pass leaves, `Serves` says for which
  addresses an action meets it (`abort_progress_iff`): a fault-in for those that
  the table can hold, a printed line for those that were mapped before.
* `KeepsTables`: what the handlers leave of the translation set up before a loop.
* `AbortLoop` is what the twelve loops have in common; `progress_iff` is the
  result for all of them.
-/

namespace FermiHV

open RunLoop (Flow Loop)

/-! ## 1. One abort -/

/-- The exit is a data abort from a lower level. -/
def Event.dataAbort (e : Event) : Bool := !e.ctx.exitIrq && e.ctx.exitEc = ecDabtLow

/-- The vCPU `c` has left the guest with `e` and is in the state `h` now: it is
past the instruction, or its table translates the faulting address. -/
def Progress (img : Image) (e : Event) (c : Fin 2) (h : Hv) : Prop :=
  (h.vcpus c).pc = e.ctx.pc + 4 ∨
    (stage2Walk img h.s2 (h.vcpus c).vttbr e.ctx.exitIpa).isSome = true

/-- The addresses that an action makes progress on. -/
def AbortAction.Serves (ipa : U64) : AbortAction → Prop
  | .fault _ => ipa.toNat < 2 ^ 39
  | .report => ipa.toNat / 2 ^ 30 = 1
  | .vgic | .vuart | .zero | .skip => True

instance (ipa : U64) : DecidablePred (AbortAction.Serves ipa)
  | .fault _ => inferInstanceAs (Decidable (ipa.toNat < 2 ^ 39))
  | .report => inferInstanceAs (Decidable (ipa.toNat / 2 ^ 30 = 1))
  | .vgic | .vuart | .zero | .skip => inferInstanceAs (Decidable True)

/-- The vCPU runs on the shared table. -/
def SharedTable (img : Image) (h : Hv) (c : Fin 2) : Prop := (h.vcpus c).vttbr = stage2Vttbr img

/-- The vCPU runs on the table of its own VM, with one block of RAM. -/
def OwnTable (img : Image) (h : Hv) (c : Fin 2) : Prop :=
  vttbrBaddr (h.vcpus c).vttbr = img.s2VmAddr c ∧
    ∃ pa : U64, Built h.s2 c 0x40000000 pa

/-- The table under which a loop takes an action. -/
def AbortAction.Table (img : Image) (h : Hv) (c : Fin 2) (ipa : U64) : AbortAction → Prop
  | .fault base => base = blockBase ipa ∧ SharedTable img h c
  | .report => OwnTable img h c
  | .vgic | .vuart | .zero | .skip => True

section OneAbort

variable {img : Image} {h : Hv} {c : Fin 2} {e : Event}

theorem walk_map1gb (img : Image) (st : Stage2) (ipa : U64) :
    (stage2Walk img (stage2Map1gb (blockBase ipa) st) (stage2Vttbr img) ipa).isSome = true ↔
      ipa.toNat < 2 ^ 39 := by
  constructor
  · intro hsome
    -- beyond the input range the walk faults before it reads the table
    by_contra hge
    rw [stage2Walk, if_neg hge] at hsome
    cases hsome
  · intro hlt
    have hidx : s2Index ipa = s2Index (blockBase ipa) := by
      have hbase := toNat_blockBase ipa
      refine (s2Index_eq_iff hlt (by omega)).mpr ?_
      omega
    have hvalid := @blockDesc_valid (blockBase ipa) s2BlockNormal (by decide) (by decide)
    rw [walk_shared _ _ hlt, s2Lookup, hidx, stage2Map1gb]
    simp only [Function.update_self, hvalid, if_true, Option.isSome_some]

theorem walk_own (ho : OwnTable img h c) (ipa : U64) :
    (stage2Walk img h.s2 (h.vcpus c).vttbr ipa).isSome = true ↔ ipa.toNat / 2 ^ 30 = 1 := by
  obtain ⟨hbaddr, pa, hbuilt⟩ := ho
  have hblock : (0x40000000 : U64).toNat / 2 ^ 30 = 1 := by decide
  by_cases hlt : ipa.toNat < 2 ^ 39
  · rw [walk_of_built hbuilt hbaddr hlt, ← hblock, ← s2Index_eq_iff hlt (by decide)]
    split_ifs with hi
    · exact iff_of_true rfl hi
    · exact iff_of_false Bool.false_ne_true hi
  · rw [stage2Walk, if_neg hlt]
    constructor
    · intro hsome
      cases hsome
    · omega

theorem not_pc_advanced {v : Vcpu} (hctx : v.toGuestCtx = e.ctx) : v.pc ≠ e.ctx.pc + 4 := by
  rw [hctx]
  bv_omega

/-- After an action the vCPU has made progress exactly when the action serves the
address. -/
theorem abort_progress_iff (hctx : (h.vcpus c).toGuestCtx = e.ctx) (vm : Int) {a : AbortAction}
    (ht : a.Table img h c e.ctx.exitIpa) :
    Progress img e c (h.abort vm c e.ctx.exitIpa a) ↔ a.Serves e.ctx.exitIpa := by
  have hadv : a.advances = true → Progress img e c (h.abort vm c e.ctx.exitIpa a) := fun ha =>
    .inl (by rw [(abort_resumes vm e.ctx.exitIpa ha).pc, hctx])
  cases a with
  | vgic | vuart | zero | skip => exact ⟨fun _ => trivial, fun _ => hadv rfl⟩
  | fault base =>
    obtain ⟨rfl, hshared⟩ := ht
    -- the pc has not moved, so only the walk can show progress
    have hwalk := walk_map1gb img h.s2 e.ctx.exitIpa
    rw [← hshared] at hwalk
    exact ⟨fun hp => hwalk.mp (hp.resolve_left (not_pc_advanced hctx)),
      fun hlt => .inr (hwalk.mpr hlt)⟩
  | report =>
    have hwalk := walk_own ht e.ctx.exitIpa
    exact ⟨fun hp => hwalk.mp (hp.resolve_left (not_pc_advanced hctx)),
      fun hram => .inr (hwalk.mpr hram)⟩

end OneAbort

/-! ## 2. What the handlers leave of the translation -/

/-- The vCPUs still select the same tables, and those of the VMs are as they
were. -/
structure KeepsTables (h h' : Hv) : Prop where
  vttbr : ∀ d, (h'.vcpus d).vttbr = (h.vcpus d).vttbr
  vmTables : h'.s2.s2Vm = h.s2.s2Vm

namespace KeepsTables

variable {img : Image} {h h' h'' : Hv} {c : Fin 2}

theorem trans (h₁ : KeepsTables h h') (h₂ : KeepsTables h' h'') : KeepsTables h h'' :=
  ⟨fun d => (h₂.vttbr d).trans (h₁.vttbr d), h₂.vmTables.trans h₁.vmTables⟩

theorem shared (hk : KeepsTables h h') (hs : SharedTable img h c) : SharedTable img h' c :=
  (hk.vttbr c).trans hs

theorem own (hk : KeepsTables h h') (ho : OwnTable img h c) : OwnTable img h' c := by
  obtain ⟨hbaddr, pa, hbuilt⟩ := ho
  refine ⟨by rw [hk.vttbr c, hbaddr], pa, ?_⟩
  rw [Built, hk.vmTables]
  exact hbuilt

/-- Replacing a vCPU by one with the same table. -/
theorem setVcpu {v : Vcpu} (hv : v.vttbr = (h.vcpus c).vttbr) : KeepsTables h (h.setVcpu c v) := by
  refine ⟨fun d => ?_, rfl⟩
  by_cases hd : d = c
  · subst hd
    rw [setVcpu_vcpus_self, hv]
  · rw [setVcpu_vcpus_of_ne v hd]

theorem enter (e : Event) : KeepsTables h (h.enter c e) := setVcpu rfl

theorem skip : KeepsTables h (h.skip c) := setVcpu rfl

theorem inject (k : U32) : KeepsTables h (h.inject c k) := by
  refine setVcpu ?_
  simp only [vgicInject]
  split_ifs
  · rfl
  · cases freeSlot (h.vcpus c).ichLr <;> rfl

theorem cntp (vm : Fin 2) : KeepsTables h (cntpEmulate vm c h) :=
  ⟨fun _ => cntpEmulate_vttbr vm, by rw [cntpEmulate_s2]⟩

theorem psci : KeepsTables h (psciHandle c h) := by
  refine ⟨fun d => ?_, by rw [psciHandle_s2]⟩
  by_cases hd : d = c
  · subst hd
    simp only [psciHandle]
    split_ifs <;> simp [Vcpu.setX]
  · rw [psciHandle_vcpus_of_ne hd]

theorem psciSkip : KeepsTables h ((psciHandle c h).skip c) := psci.trans skip

theorem abort (vm : Int) (c : Fin 2) (ipa : U64) (a : AbortAction) :
    KeepsTables h (h.abort vm c ipa a) := by
  refine ⟨fun _ => abort_vttbr vm ipa a, ?_⟩
  cases a <;> rfl

end KeepsTables

/-! ## 3. The loops -/

/-- A run loop that serves stage-2 aborts and goes on. -/
structure AbortLoop (img : Image) where
  S : Type
  loop : Loop S Event
  start : Hv → S
  hv : S → Hv
  /-- The vCPU that a pass enters, if it enters one. -/
  who : S → Option (Fin 2)
  /-- The answer to a data abort. -/
  action : U64 → AbortAction
  Inv : S → Prop
  inv_start : ∀ h, Inv (start h)
  inv_next : ∀ e s s', Inv s → loop.body e s = .next s' → Inv s'
  abort_next : ∀ e s s' c, Inv s → who s = some c → e.dataAbort = true →
    loop.body e s = .next s' → ∃ h vm, (h.vcpus c).toGuestCtx = e.ctx ∧
      (action e.ctx.exitIpa).Table img h c e.ctx.exitIpa ∧
      hv s' = h.abort vm c e.ctx.exitIpa (action e.ctx.exitIpa)

/-- Every data abort of the run after which the loop goes on has made progress. -/
def AbortLoop.MakesProgress {img : Image} (L : AbortLoop img) (h : Hv) (es : List Event) : Prop :=
  ∀ p ∈ L.loop.iters (L.start h) es, p.2.dataAbort = true → ∀ c, L.who p.1 = some c →
    ∀ s', L.loop.body p.2 p.1 = .next s' → Progress img p.2 c (L.hv s')

theorem AbortLoop.makesProgress_iff {img : Image} (L : AbortLoop img) (h : Hv) (es : List Event) :
    L.MakesProgress h es ↔
      ∀ p ∈ L.loop.iters (L.start h) es, p.2.dataAbort = true → ∀ c, L.who p.1 = some c →
        ∀ s', L.loop.body p.2 p.1 = .next s' →
          (L.action p.2.ctx.exitIpa).Serves p.2.ctx.exitIpa := by
  have hinv : ∀ p ∈ L.loop.iters (L.start h) es, L.Inv p.1 :=
    Loop.iters_of_invariant (C := fun _ _ => True)
      (fun s e s' hs _ hb => L.inv_next e s s' hs hb) (L.inv_start h) (fun _ _ => trivial)
  refine forall₂_congr fun p hp => forall_congr' fun hda => forall₂_congr fun c hc =>
    forall₂_congr fun s' hb => ?_
  obtain ⟨h', vm, hctx, htable, hhv⟩ := L.abort_next p.2 p.1 s' c (hinv p hp) hc hda hb
  rw [hhv]
  exact abort_progress_iff hctx vm htable

section Actions

variable {img : Image} {e : Event} {h : Hv} {c : Fin 2}

theorem exitKind_of_dataAbort (hd : e.dataAbort = true) : e.ctx.exitKind = .abort := by
  simp only [Event.dataAbort, Bool.and_eq_true, Bool.not_eq_true', decide_eq_true_eq] at hd
  simp [GuestCtx.exitKind, GuestCtx.syncKind, hd.1, hd.2]

theorem exitEc_of_dataAbort (hd : e.dataAbort = true) : e.ctx.exitEc = ecDabtLow := by
  simp only [Event.dataAbort, Bool.and_eq_true, decide_eq_true_eq] at hd
  exact hd.2

/-- A loop whose answers all emulate or skip the access needs no table. -/
theorem table_of_advances {ipa : U64} {a : AbortAction} (ha : a.advances = true) :
    a.Table img h c ipa := by
  cases a with
  | fault base => cases ha
  | report => cases ha
  | vgic | vuart | zero | skip => trivial

/-- A fault-in, or an emulation. -/
theorem table_of_shared (hs : SharedTable img h c) {ipa : U64} {a : AbortAction}
    (ha : a = .fault (blockBase ipa) ∨ a.advances = true) : a.Table img h c ipa := by
  rcases ha with rfl | ha
  · exact ⟨rfl, hs⟩
  · exact table_of_advances ha

/-- A printed line, or an emulation. -/
theorem table_of_own (ho : OwnTable img h c) {ipa : U64} {a : AbortAction}
    (ha : a = .report ∨ a.advances = true) : a.Table img h c ipa := by
  rcases ha with rfl | ha
  · exact ho
  · exact table_of_advances ha

theorem keeps_next {S : Type} {L : Loop S Event} (hv : S → Hv) {s s' : S}
    (hk : KeepsTables (hv s) (hv (L.body e s).state)) (hb : L.body e s = .next s') :
    KeepsTables (hv s) (hv s') := by
  rw [hb] at hk
  exact hk

theorem uartOrFault_cases (ec ipa : U64) :
    uartOrFault ec ipa = .fault (blockBase ipa) ∨ (uartOrFault ec ipa).advances = true := by
  unfold uartOrFault
  split_ifs
  · exact .inr rfl
  · exact .inl rfl

theorem deviceOr_cases (other : AbortAction) (ipa : U64) :
    deviceOr other ipa = other ∨ (deviceOr other ipa).advances = true := by
  unfold deviceOr
  split_ifs
  · exact .inr rfl
  · exact .inr rfl
  · exact .inl rfl

theorem fermiosBootAbort_cases (ipa : U64) :
    fermiosBootAbort ipa = .fault (blockBase ipa) ∨ (fermiosBootAbort ipa).advances = true := by
  unfold fermiosBootAbort
  split_ifs
  · exact .inl rfl
  · exact .inr rfl

/-- The answer of the loops that look only for the GIC. -/
def gicOr (other : AbortAction) (ipa : U64) : AbortAction :=
  if vgicContains ipa then .vgic else other

theorem gicOr_cases (other : AbortAction) (ipa : U64) :
    gicOr other ipa = other ∨ (gicOr other ipa).advances = true := by
  unfold gicOr
  split_ifs
  · exact .inr rfl
  · exact .inl rfl

end Actions

/-! ## 4. Loops on the shared table -/

section Shared

variable {img : Image} {e : Event}

theorem linuxBoot_keeps (e : Event) (h : Hv) : KeepsTables h (linuxBoot.body e h).state := by
  simp only [linuxBoot, enter_vcpus_self, vcpuRunOnce_ctx, vcpuRunOnce_halted]
  have hent : KeepsTables h (h.enter 0 e) := .enter e
  cases (h.vcpus 0).halted with
  | true => exact hent
  | false =>
    cases e.ctx.exitKind with
    | irq | sysreg | other => exact hent
    | smc => exact hent.trans .psciSkip
    | hvc => exact hent.trans .psci
    | abort => exact hent.trans (.abort 0 0 e.ctx.exitIpa (linuxBootAbort e.ctx.exitIpa))

theorem linuxBoot_abort {h : Hv} (hrun : (h.vcpus 0).halted = false) (hd : e.dataAbort = true) :
    linuxBoot.body e h =
      .next ((h.enter 0 e).abort 0 0 e.ctx.exitIpa (linuxBootAbort e.ctx.exitIpa)) := by
  simp only [linuxBoot, enter_vcpus_self, vcpuRunOnce_ctx, vcpuRunOnce_halted, hrun,
    exitKind_of_dataAbort hd, Bool.false_eq_true, if_false]

def linuxBootAborts (img : Image) : AbortLoop img where
  S := Hv
  loop := linuxBoot
  start := linuxBootStart img
  hv := id
  who := fun _ => some 0
  action := linuxBootAbort
  Inv := fun h => SharedTable img h 0
  inv_start := fun h => by simp [SharedTable, linuxBootStart, Vcpu.setX, vcpuInit]
  inv_next := fun e h _ hs hb => (keeps_next id (linuxBoot_keeps e h) hb).shared hs
  abort_next := fun e h h' c hs hc hd hb => by
    cases hc
    refine ⟨h.enter 0 e, 0, enter_ctx _ _ _,
      table_of_shared ((KeepsTables.enter e).shared hs) (.inl rfl), ?_⟩
    simp only [linuxBoot, enter_vcpus_self, vcpuRunOnce_ctx, exitKind_of_dataAbort hd] at hb
    split_ifs at hb
    cases hb
    rfl

theorem fermiosBoot_keeps (e : Event) (h : Hv) : KeepsTables h (fermiosBoot.body e h).state := by
  simp only [fermiosBoot, enter_vcpus_self, vcpuRunOnce_ctx, vcpuRunOnce_halted]
  have hent : KeepsTables h (h.enter 0 e) := .enter e
  cases (h.vcpus 0).halted with
  | true => exact hent
  | false =>
    cases e.ctx.exitKind with
    | irq | hvc | sysreg | other => exact hent
    | smc => exact hent.trans .psciSkip
    | abort => exact hent.trans (.abort 0 0 e.ctx.exitIpa (fermiosBootAbort e.ctx.exitIpa))

def fermiosBootAborts (img : Image) : AbortLoop img where
  S := Hv
  loop := fermiosBoot
  start := fermiosBootStart img
  hv := id
  who := fun _ => some 0
  action := fermiosBootAbort
  Inv := fun h => SharedTable img h 0
  inv_start := fun h => by simp [SharedTable, fermiosBootStart, vcpuInit]
  inv_next := fun e h _ hs hb => (keeps_next id (fermiosBoot_keeps e h) hb).shared hs
  abort_next := fun e h h' c hs hc hd hb => by
    cases hc
    refine ⟨h.enter 0 e, 0, enter_ctx _ _ _,
      table_of_shared ((KeepsTables.enter e).shared hs) (fermiosBootAbort_cases _), ?_⟩
    simp only [fermiosBoot, enter_vcpus_self, vcpuRunOnce_ctx, exitKind_of_dataAbort hd] at hb
    split_ifs at hb
    cases hb
    rfl

theorem realGuestDemo_keeps (e : Event) (h : Hv) :
    KeepsTables h (realGuestDemo.body e h).state := by
  simp only [realGuestDemo, enter_vcpus_self, vcpuRunOnce_ctx]
  have hent : KeepsTables h (h.enter 0 e) := .enter e
  cases e.ctx.exitKind with
  | irq | hvc | smc | sysreg | other => exact hent
  | abort =>
    exact hent.trans (.abort 0 0 e.ctx.exitIpa (realGuestAbort e.ctx.exitEc e.ctx.exitIpa))

def realGuestAborts (img : Image) (sp : U64) : AbortLoop img where
  S := Hv
  loop := realGuestDemo
  start := realGuestDemoStart img sp
  hv := id
  who := fun _ => some 0
  action := realGuestAbort ecDabtLow
  Inv := fun h => SharedTable img h 0
  inv_start := fun h => by simp [SharedTable, realGuestDemoStart, vcpuInit]
  inv_next := fun e h _ hs hb => (keeps_next id (realGuestDemo_keeps e h) hb).shared hs
  abort_next := fun e h h' c hs hc hd hb => by
    cases hc
    refine ⟨h.enter 0 e, 0, enter_ctx _ _ _,
      table_of_shared ((KeepsTables.enter e).shared hs) (uartOrFault_cases _ _), ?_⟩
    simp only [realGuestDemo, enter_vcpus_self, vcpuRunOnce_ctx, exitKind_of_dataAbort hd,
      exitEc_of_dataAbort hd] at hb
    cases hb
    rfl

theorem vgicDemo_keeps (nticks : Nat) (e : Event) (s : Counted) :
    KeepsTables s.hv ((vgicDemo nticks).body e s).state.hv := by
  simp only [vgicDemo, enter_vcpus_self, vcpuRunOnce_ctx]
  have hent : KeepsTables s.hv (s.hv.enter 0 e) := .enter e
  cases e.ctx.exitKind with
  | irq =>
    simp only
    split_ifs
    · exact hent.trans (.inject 27)
    · exact hent
  | hvc | smc | sysreg | other => exact hent
  | abort => exact hent.trans (.abort 0 0 e.ctx.exitIpa (vgicDemoAbort e.ctx.exitIpa))

def vgicDemoAborts (img : Image) (nticks : Nat) (entry sp : U64) : AbortLoop img where
  S := Counted
  loop := vgicDemo nticks
  start := vgicDemoStart img entry sp
  hv := Counted.hv
  who := fun _ => some 0
  action := vgicDemoAbort
  Inv := fun s => SharedTable img s.hv 0
  inv_start := fun h => by simp [SharedTable, vgicDemoStart, vcpuInit]
  inv_next := fun e s _ hs hb => (keeps_next Counted.hv (vgicDemo_keeps nticks e s) hb).shared hs
  abort_next := fun e s s' c hs hc hd hb => by
    cases hc
    refine ⟨s.hv.enter 0 e, 0, enter_ctx _ _ _,
      table_of_shared ((KeepsTables.enter e).shared hs) (gicOr_cases _ _), ?_⟩
    simp only [vgicDemo, enter_vcpus_self, vcpuRunOnce_ctx, exitKind_of_dataAbort hd] at hb
    cases hb
    rfl

theorem fermiosVgicBoot_keeps (e : Event) (s : Counted) :
    KeepsTables s.hv (fermiosVgicBoot.body e s).state.hv := by
  simp only [fermiosVgicBoot, enter_vcpus_self, vcpuRunOnce_ctx, vcpuRunOnce_halted]
  have hent : KeepsTables s.hv (s.hv.enter 0 e) := .enter e
  cases (s.hv.vcpus 0).halted with
  | true => exact hent
  | false =>
    simp only [Bool.false_eq_true, if_false]
    cases e.ctx.exitKind with
    | irq =>
      simp only
      split_ifs
      · exact hent.trans (.inject 30)
      · exact hent
    | hvc | other => exact hent
    | sysreg => exact hent.trans (.cntp 0)
    | smc => exact hent.trans .psciSkip
    | abort => exact hent.trans (.abort 0 0 e.ctx.exitIpa (fermiosVgicBootAbort e.ctx.exitIpa))

def fermiosVgicBootAborts (img : Image) : AbortLoop img where
  S := Counted
  loop := fermiosVgicBoot
  start := fermiosVgicBootStart img
  hv := Counted.hv
  who := fun _ => some 0
  action := fermiosVgicBootAbort
  Inv := fun s => SharedTable img s.hv 0
  inv_start := fun h => by simp [SharedTable, fermiosVgicBootStart, vcpuInit]
  inv_next := fun e s _ hs hb => (keeps_next Counted.hv (fermiosVgicBoot_keeps e s) hb).shared hs
  abort_next := fun e s s' c hs hc hd hb => by
    cases hc
    refine ⟨s.hv.enter 0 e, 0, enter_ctx _ _ _,
      table_of_shared ((KeepsTables.enter e).shared hs) (deviceOr_cases _ _), ?_⟩
    simp only [fermiosVgicBoot, enter_vcpus_self, vcpuRunOnce_ctx, exitKind_of_dataAbort hd] at hb
    split_ifs at hb
    cases hb
    rfl

theorem runVcpus_keeps (n budget : Nat) (e : Event) (s : RunVcpus) :
    KeepsTables s.hv ((runVcpus n budget).body e s).state.hv := by
  simp only [runVcpus, enter_vcpus_self, vcpuRunOnce_ctx]
  have hent : KeepsTables s.hv (s.hv.enter s.i e) := .enter e
  cases (s.hv.vcpus s.i).halted with
  | true => exact ⟨fun _ => rfl, rfl⟩
  | false =>
    simp only [Bool.false_eq_true, if_false]
    cases e.ctx.syncKind with
    | hvc =>
      simp only
      split_ifs
      · exact hent.trans (.setVcpu rfl)
      · exact hent
    | abort =>
      exact hent.trans (.abort 0 s.i e.ctx.exitIpa (runVcpusAbort e.ctx.exitEc e.ctx.exitIpa))
    | smc | sysreg | irq | other => exact hent.trans (.setVcpu rfl)

theorem runVcpus_next_index {n budget : Nat} {s s' : RunVcpus}
    (hb : (runVcpus n budget).body e s = .next s') : s'.i = nextIndex n s.i := by
  cases hrun : s.entering with
  | false =>
    rw [turn_idle n budget e hrun] at hb
    cases hb
    rfl
  | true =>
    obtain ⟨t, ht, hent⟩ := turn_entered n budget e hrun
    rw [hb] at ht
    cases ht
    exact hent.index

/-- `run_vcpus(n, budget, …)` as `sched_demo` calls it: its vCPUs run on the shared
table. -/
def runVcpusAborts (img : Image) (n budget : Nat) (hn : n = 1 ∨ n = 2) (entry sp : Fin 2 → U64) :
    AbortLoop img where
  S := RunVcpus
  loop := runVcpus n budget
  start := fun h =>
    runVcpusStart n entry sp (fun _ => stage2Vttbr img) { h with s2 := stage2Init h.s2 }
  hv := RunVcpus.hv
  who := fun s => if s.entering then some s.i else none
  action := runVcpusAbort ecDabtLow
  Inv := fun s => s.i.val < n ∧ ∀ c : Fin 2, c.val < n → SharedTable img s.hv c
  inv_start := fun h => by
    refine ⟨?_, fun c hc => ?_⟩
    · change 0 < n
      omega
    · simp [SharedTable, runVcpusStart, Hv.initVcpus, hc, vcpuInit]
  inv_next := fun e s s' hs hb => by
    refine ⟨?_, fun c hc => ?_⟩
    · rw [runVcpus_next_index hb]
      exact nextIndex_lt (by omega) s.i
    · exact (keeps_next RunVcpus.hv (runVcpus_keeps n budget e s) hb).shared (hs.2 c hc)
  abort_next := fun e s s' c hs hc hd hb => by
    have hrun : s.entering = true ∧ s.i = c := by
      split_ifs at hc with hrun
      exact ⟨hrun, Option.some.inj hc⟩
    obtain ⟨hrun, rfl⟩ := hrun
    have hh : (s.hv.vcpus s.i).halted = false := by simpa [RunVcpus.entering] using hrun
    have hec := exitEc_of_dataAbort hd
    have hkind : e.ctx.syncKind = .abort := by simp [GuestCtx.syncKind, hec]
    refine ⟨s.hv.enter s.i e, 0, enter_ctx _ _ _,
      table_of_shared ((KeepsTables.enter e).shared (hs.2 s.i hs.1)) (uartOrFault_cases _ _), ?_⟩
    simp only [runVcpus, enter_vcpus_self, vcpuRunOnce_ctx, hh, hkind, hec, Bool.false_eq_true,
      if_false] at hb
    cases hb
    rfl

end Shared

/-! ## 5. Loops over VMs -/

section Tenants

variable {img : Image} {e : Event}

theorem ownTable_twoTenants (img : Image) (pc0 sp0 pc1 sp1 : U64) (h : Hv) (c : Fin 2) :
    OwnTable img (h.twoTenants img pc0 sp0 pc1 sp1) c := by
  obtain rfl | rfl : c = 0 ∨ c = 1 := by omega
  · refine ⟨(buildVm_vttbr img 0 0x40000000 0x80000000 (by decide) h.s2).1, 0x80000000, ?_⟩
    have hfirst := built_buildVm img 0 0x40000000 0x80000000 1 h.s2
    have hother : ¬ (Stage2Op.buildVm 1 0x40000000 0xC0000000 2).Builds 0 := by
      change ¬ (1 : Fin 2) = 0
      decide
    exact (@apply_s2Vm img _ 0 hother _).trans hfirst
  · have hvttbr := @buildVm_vttbr img 1 0x40000000 0xC0000000 2 (by decide)
      (stage2BuildVm img 0 0x40000000 0x80000000 1 h.s2).2
    exact ⟨hvttbr.1, 0xC0000000, built_buildVm img 1 0x40000000 0xC0000000 2 _⟩

theorem readyReal_keeps (s : Tenants) : KeepsTables s.hv s.readyReal.hv := by
  simp only [Tenants.readyReal]
  split_ifs
  · exact .inject 30
  · exact ⟨fun _ => rfl, rfl⟩
  · exact .inject 27
  · exact ⟨fun _ => rfl, rfl⟩

theorem mtenantRealDemo_keeps (e : Event) (s : Tenants) :
    KeepsTables s.hv (mtenantRealDemo.body e s).state.hv := by
  have hent : KeepsTables s.hv (s.readyReal.hv.enter s.cur e) :=
    (readyReal_keeps s).trans (.enter e)
  exact mtenantRealDemo_body_cases hent (fun _ => hent.trans (.abort _ _ _ _))
    (fun _ => hent.trans (.cntp _)) (hent.trans .psciSkip)

theorem mtenantRealDemo_abort (s : Tenants) (hd : e.dataAbort = true) :
    mtenantRealDemo.body e s =
      .next { s.readyReal with
        hv := (s.readyReal.hv.enter s.cur e).abort s.cur.val s.cur e.ctx.exitIpa
          (mtenantRealAbort e.ctx.exitIpa) } := by
  simp only [mtenantRealDemo, enter_vcpus_self, vcpuRunOnce_ctx, exitKind_of_dataAbort hd]

def mtenantRealAborts (img : Image) : AbortLoop img where
  S := Tenants
  loop := mtenantRealDemo
  start := mtenantRealDemoStart img
  hv := Tenants.hv
  who := fun s => some s.cur
  action := mtenantRealAbort
  Inv := fun s => ∀ c, OwnTable img s.hv c
  inv_start := fun h => ownTable_twoTenants img _ _ _ _ _
  inv_next := fun e s _ hs hb c =>
    (keeps_next Tenants.hv (mtenantRealDemo_keeps e s) hb).own (hs c)
  abort_next := fun e s s' c hs hc hd hb => by
    cases hc
    have hent : KeepsTables s.hv (s.readyReal.hv.enter s.cur e) :=
      (readyReal_keeps s).trans (.enter e)
    refine ⟨s.readyReal.hv.enter s.cur e, s.cur.val, enter_ctx _ _ _,
      table_of_own (hent.own (hs s.cur)) (deviceOr_cases _ _), ?_⟩
    rw [mtenantRealDemo_abort s hd] at hb
    cases hb
    rfl

theorem ready_keeps (s : Ticks) : KeepsTables s.hv s.ready.hv := by
  simp only [Ticks.ready]
  split_ifs
  · exact .inject 27
  · exact ⟨fun _ => rfl, rfl⟩

theorem tickLoop_keeps (limit : Nat) (vm : Fin 2 → Int) (other : AbortAction) (e : Event)
    (s : Ticks) : KeepsTables s.hv ((tickLoop limit vm other).body e s).state.hv := by
  have hent : KeepsTables s.hv (s.ready.hv.enter s.cur e) := (ready_keeps s).trans (.enter e)
  simp only [tickLoop, enter_vcpus_self, vcpuRunOnce_ctx]
  cases e.ctx.exitKind with
  | irq => cases e.timerTick <;> exact hent
  | hvc | smc | sysreg | other => exact hent
  | abort =>
    simp only
    split_ifs
    · exact hent.trans (.abort (vm s.cur) s.cur e.ctx.exitIpa .vgic)
    · exact hent.trans (.abort (vm s.cur) s.cur e.ctx.exitIpa other)
    · exact hent

/-- The demos that count ticks, under a condition on the tables that the handlers
keep. -/
def tickAborts (img : Image) (L : Loop Ticks Event) {limit : Nat} {vm : Fin 2 → Int}
    {other : AbortAction} (hL : L = tickLoop limit vm other) (start : Hv → Ticks)
    (T : Hv → Fin 2 → Prop)
    (keeps : ∀ h h' c, KeepsTables h h' → T h c → T h' c) (starts : ∀ h c, T (start h).hv c)
    (table : ∀ h c ipa, T h c → other.Table img h c ipa) : AbortLoop img where
  S := Ticks
  loop := L
  start := start
  hv := Ticks.hv
  who := fun s => some s.cur
  action := gicOr other
  Inv := fun s => ∀ c, T s.hv c
  inv_start := starts
  inv_next := fun e s _ hs hb c => by
    subst hL
    exact keeps _ _ c (keeps_next Ticks.hv (tickLoop_keeps limit vm other e s) hb) (hs c)
  abort_next := fun e s s' c hs hc hd hb => by
    subst hL
    cases hc
    have hent : KeepsTables s.hv (s.ready.hv.enter s.cur e) := (ready_keeps s).trans (.enter e)
    have htable : (gicOr other e.ctx.exitIpa).Table img (s.ready.hv.enter s.cur e) s.cur
        e.ctx.exitIpa := by
      rcases gicOr_cases other e.ctx.exitIpa with ha | ha
      · rw [ha]
        exact table _ _ _ (keeps _ _ _ hent (hs s.cur))
      · exact table_of_advances ha
    refine ⟨s.ready.hv.enter s.cur e, vm s.cur, enter_ctx _ _ _, htable, ?_⟩
    simp only [tickLoop, enter_vcpus_self, vcpuRunOnce_ctx, exitKind_of_dataAbort hd,
      exitEc_of_dataAbort hd, if_true] at hb
    cases hb
    rfl

def mtenantVgicAborts (img : Image) : AbortLoop img :=
  tickAborts img mtenantVgicDemo rfl (mtenantVgicDemoStart img) (OwnTable img)
    (fun _ _ _ hk ho => hk.own ho) (fun _ => ownTable_twoTenants img _ _ _ _ _)
    (fun _ _ _ ho => ho)

def smpVtimerAborts (img : Image) : AbortLoop img :=
  tickAborts img smpVtimerDemo rfl (smpVtimerDemoStart img) (fun _ _ => True)
    (fun _ _ _ _ _ => trivial) (fun _ _ => trivial) (fun _ _ _ _ => trivial)

def smpGicrAborts (img : Image) : AbortLoop img :=
  tickAborts img smpGicrDemo rfl (smpGicrDemoStart img) (fun _ _ => True)
    (fun _ _ _ _ _ => trivial) (fun _ _ => trivial) (fun _ _ _ _ => trivial)

theorem deviceOr_zero_advances (ipa : U64) : (deviceOr .zero ipa).advances = true := by
  rcases deviceOr_cases .zero ipa with ha | ha
  · rw [ha]
    rfl
  · exact ha

def mtenantOsAborts (img : Image) : AbortLoop img where
  S := Tenants
  loop := mtenantOsDemo
  start := mtenantOsDemoStart img
  hv := Tenants.hv
  who := fun s => some s.cur
  action := mtenantOsAbort
  Inv := fun _ => True
  inv_start := fun _ => trivial
  inv_next := fun _ _ _ _ _ => trivial
  abort_next := fun e s s' c _ hc hd hb => by
    cases hc
    refine ⟨s.readyOs.hv.enter s.cur e, s.cur.val, enter_ctx _ _ _,
      table_of_advances (deviceOr_zero_advances _), ?_⟩
    simp only [mtenantOsDemo, enter_vcpus_self, vcpuRunOnce_ctx, exitKind_of_dataAbort hd] at hb
    split_ifs at hb
    cases hb
    rfl

def linuxVgicBootAborts (img : Image) : AbortLoop img where
  S := Smp
  loop := linuxVgicBoot img
  start := linuxVgicBootStart img
  hv := Smp.hv
  who := fun s => some s.cur
  action := linuxVgicBootAbort
  Inv := fun _ => True
  inv_start := fun _ => trivial
  inv_next := fun _ _ _ _ _ => trivial
  abort_next := fun e s s' c _ hc hd hb => by
    cases hc
    obtain ⟨-, hhv, -⟩ := linuxVgicBoot_next_inv hb
    refine ⟨(s.exited img e).hv, 0, Smp.exited_ctx img e s,
      table_of_advances (deviceOr_zero_advances _), ?_⟩
    rw [hhv, Hv.linuxExit, exitKind_of_dataAbort hd]

end Tenants

/-! ## 6. All loops -/

/-- The run loops that serve stage-2 aborts, with what their callers choose. -/
inductive AbortSite
  | runVcpus (n budget : Nat) (hn : n = 1 ∨ n = 2) (entry sp : Fin 2 → U64)
  | vgicDemo (nticks : Nat) (entry sp : U64)
  | realGuestDemo (sp : U64)
  | linuxBoot
  | fermiosBoot
  | fermiosVgicBoot
  | mtenantVgicDemo
  | mtenantRealDemo
  | mtenantOsDemo
  | linuxVgicBoot
  | smpVtimerDemo
  | smpGicrDemo

def abortLoop (img : Image) : AbortSite → AbortLoop img
  | .runVcpus n budget hn entry sp => runVcpusAborts img n budget hn entry sp
  | .vgicDemo nticks entry sp => vgicDemoAborts img nticks entry sp
  | .realGuestDemo sp => realGuestAborts img sp
  | .linuxBoot => linuxBootAborts img
  | .fermiosBoot => fermiosBootAborts img
  | .fermiosVgicBoot => fermiosVgicBootAborts img
  | .mtenantVgicDemo => mtenantVgicAborts img
  | .mtenantRealDemo => mtenantRealAborts img
  | .mtenantOsDemo => mtenantOsAborts img
  | .linuxVgicBoot => linuxVgicBootAborts img
  | .smpVtimerDemo => smpVtimerAborts img
  | .smpGicrDemo => smpGicrAborts img

/-- The addresses on which a loop makes progress. -/
def AbortSite.serves (site : AbortSite) (ipa : U64) : Prop :=
  match site with
  | .runVcpus .. | .vgicDemo .. | .realGuestDemo .. | .linuxBoot | .fermiosVgicBoot =>
    ipa.toNat < 2 ^ 39
  | .mtenantVgicDemo => vgicContains ipa = true ∨ ipa.toNat / 2 ^ 30 = 1
  | .mtenantRealDemo =>
    vgicContains ipa = true ∨ vuartContains ipa = true ∨ ipa.toNat / 2 ^ 30 = 1
  | .fermiosBoot | .mtenantOsDemo | .linuxVgicBoot | .smpVtimerDemo | .smpGicrDemo => True

theorem gicOr_serves_iff (other : AbortAction) (ipa : U64) :
    (gicOr other ipa).Serves ipa ↔ vgicContains ipa = true ∨ other.Serves ipa := by
  unfold gicOr
  split_ifs with hg
  · exact iff_of_true trivial (.inl hg)
  · exact ⟨.inr, fun h => h.resolve_left hg⟩

theorem deviceOr_serves_iff (other : AbortAction) (ipa : U64) :
    (deviceOr other ipa).Serves ipa ↔
      vgicContains ipa = true ∨ vuartContains ipa = true ∨ other.Serves ipa := by
  unfold deviceOr
  split_ifs with hg hu
  · exact iff_of_true trivial (.inl hg)
  · exact iff_of_true trivial (.inr (.inl hu))
  · exact ⟨fun h => .inr (.inr h), fun h => (h.resolve_left hg).resolve_left hu⟩

/-- The addresses on which the answer of a loop makes progress. -/
theorem action_serves_iff (img : Image) (site : AbortSite) (ipa : U64) :
    ((abortLoop img site).action ipa).Serves ipa ↔ site.serves ipa := by
  have hgic : vgicContains ipa = true → ipa.toNat < 2 ^ 39 :=
    fun hg => (s2Index_of_inWindow (.inr hg)).2
  have huart : vuartContains ipa = true → ipa.toNat < 2 ^ 39 :=
    fun hu => (s2Index_of_inWindow (.inl hu)).2
  cases site with
  | linuxBoot => exact Iff.rfl
  | runVcpus | realGuestDemo =>
    change (uartOrFault ecDabtLow ipa).Serves ipa ↔ ipa.toNat < 2 ^ 39
    unfold uartOrFault
    split_ifs with hu
    · exact iff_of_true trivial (huart hu.2)
    · exact Iff.rfl
  | vgicDemo => exact (gicOr_serves_iff _ ipa).trans (or_iff_right_of_imp hgic)
  | fermiosVgicBoot =>
    calc (deviceOr (.fault (blockBase ipa)) ipa).Serves ipa
        ↔ vgicContains ipa = true ∨ vuartContains ipa = true ∨ ipa.toNat < 2 ^ 39 :=
          deviceOr_serves_iff _ ipa
      _ ↔ vuartContains ipa = true ∨ ipa.toNat < 2 ^ 39 :=
          or_iff_right_of_imp fun hg => .inr (hgic hg)
      _ ↔ ipa.toNat < 2 ^ 39 := or_iff_right_of_imp huart
  | fermiosBoot =>
    change (fermiosBootAbort ipa).Serves ipa ↔ True
    unfold fermiosBootAbort
    have hbase := toNat_blockBase ipa
    split_ifs with hlow
    · refine iff_of_true ?_ trivial
      change ipa.toNat < 2 ^ 39
      bv_omega
    · exact Iff.rfl
  | mtenantVgicDemo => exact gicOr_serves_iff .report ipa
  | mtenantRealDemo => exact deviceOr_serves_iff .report ipa
  | mtenantOsDemo | linuxVgicBoot =>
    exact iff_of_true ((deviceOr_serves_iff .zero ipa).mpr (.inr (.inr trivial))) trivial
  | smpVtimerDemo | smpGicrDemo =>
    exact iff_of_true ((gicOr_serves_iff .zero ipa).mpr (.inr trivial)) trivial

/-- In every run loop that serves stage-2 aborts, each data abort after which the
loop goes on has made progress if and only if each of them is at an address that
the loop serves: below `2 ^ 39` where it faults in RAM, and in the block of RAM or
an emulated device where it only prints a line. -/
theorem progress_iff (img : Image) (site : AbortSite) (h : Hv) (es : List Event) :
    (abortLoop img site).MakesProgress h es ↔
      ∀ p ∈ (abortLoop img site).loop.iters ((abortLoop img site).start h) es,
        p.2.dataAbort = true → ∀ c, (abortLoop img site).who p.1 = some c →
          ∀ s', (abortLoop img site).loop.body p.2 p.1 = .next s' →
            site.serves p.2.ctx.exitIpa := by
  rw [AbortLoop.makesProgress_iff]
  constructor
  · intro hall p hp hd c hw s' hb
    exact (action_serves_iff img site _).mp (hall p hp hd c hw s' hb)
  · intro hall p hp hd c hw s' hb
    exact (action_serves_iff img site _).mpr (hall p hp hd c hw s' hb)

/-- A first abort at an address that is not served is retried. -/
theorem AbortLoop.not_makesProgress {img : Image} {L : AbortLoop img} {h : Hv} {e : Event}
    {c : Fin 2} {s' : L.S} (hc : L.loop.cond (L.start h) = true) (hd : e.dataAbort = true)
    (hw : L.who (L.start h) = some c) (hb : L.loop.body e (L.start h) = .next s')
    (hs : ¬ (L.action e.ctx.exitIpa).Serves e.ctx.exitIpa) : ¬ L.MakesProgress h [e] := by
  rw [L.makesProgress_iff, Loop.iters_cons_next hc hb]
  exact fun hall => hs (hall (L.start h, e) List.mem_cons_self hd c hw s' hb)

/-- A store to `0x0A000000` in `mtenant_real_demo`, and one to `2^39 + 2^30` in
`linux_boot`: both loops go on with nothing changed for the guest. -/
theorem aborts_are_retried :
    let h := resetHv exampleImage 0x40000000
    ¬ (abortLoop exampleImage .mtenantRealDemo).MakesProgress h
        [abortExit 0x93800040 0x0A000000] ∧
      ¬ (abortLoop exampleImage .linuxBoot).MakesProgress h
        [abortExit 0x93800040 0x8040000000] := by
  intro h
  have hlow : (abortExit 0x93800040 0x0A000000).dataAbort = true := by decide +kernel
  have hhigh : (abortExit 0x93800040 0x8040000000).dataAbort = true := by decide +kernel
  refine ⟨AbortLoop.not_makesProgress (L := mtenantRealAborts exampleImage) rfl hlow rfl
      (mtenantRealDemo_abort _ hlow) ?_,
    AbortLoop.not_makesProgress (L := linuxBootAborts exampleImage) rfl hhigh rfl
      (linuxBoot_abort rfl hhigh) ?_⟩
  · change ¬ (mtenantRealAbort (abortExit 0x93800040 0x0A000000).ctx.exitIpa).Serves _
    decide +kernel
  · change ¬ (linuxBootAbort (abortExit 0x93800040 0x8040000000).ctx.exitIpa).Serves _
    decide +kernel

end FermiHV
