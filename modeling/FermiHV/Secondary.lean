import FermiHV.Loops
import FermiHV.Resume

/-!
# Starting the second vCPU

`linux_vgic_boot` and `smp_psci_demo` serve CPU_ON in two steps. `psci_handle`
notes the entry point and the context of the call, sets `psci_on_pending` and
answers SUCCESS. At the head of the next pass the loop sees the flag and starts
`vcpus[1]`, unless it has done so before.

`SmpLoop` is what the two loops have in common. A run goes through the phases of
`Phase`: vCPU 1 is off, it is asked for, it is on.
* `secondary_bringup`: the protocol is safe. vCPU 1 is started once, as the first
  call asked, and runs only then.
* `cpuOn_truthful_iff`: the answer is true of the calls that start vCPU 1, and only
  of them. The handler looks neither at the target nor at what is running.
-/

namespace FermiHV

open RunLoop (Flow Loop)

/-! ## 1. The two loops -/

/-- The head of a pass: start `vcpus[1]` if it is asked for and not started. -/
def Hv.bring (img : Image) (sp : U64) (started : Bool) (h : Hv) : Hv :=
  if h.psciOn.pending && !started then h.cpuOn img sp else h

/-- A vCPU with an SGI that has been popped for it. -/
def Vcpu.withSgi (v : Vcpu) (popped : Option Nat) : Vcpu :=
  match popped with
  | some k => vgicInject (BitVec.ofNat 32 k) v
  | none => v

/-- A run loop that starts the second vCPU on CPU_ON. -/
structure SmpLoop where
  S : Type
  loop : Loop S Event
  hv : S → Hv
  cur : S → Fin 2
  /-- `ncpu == 2`, `sec_on`. -/
  started : S → Bool
  img : Image
  /-- The stack of vCPU 1. -/
  sp : U64
  /-- The state at the first loop head; the argument is what earlier demos left. -/
  start : Hv → S
  /-- The state in which `vcpu_run_once` is called. -/
  entry : Event → S → Hv
  /-- The pass calls `psci_handle`. -/
  psci : Event → S → Bool
  start_off : ∀ h,
    started (start h) = false ∧ cur (start h) = 0 ∧ (hv (start h)).psciOn.pending = false
  entry_psciOn : ∀ e s, (entry e s).psciOn = ((hv s).bring img sp (started s)).psciOn
  entry_vcpu : ∀ e s, (entry e s).vcpus 1 =
    if cur s = 1 then
      (((hv s).bring img sp (started s)).vcpus 1).withSgi
        (vgicPopSgi 1 ((hv s).bring img sp (started s)).vgic).1
    else ((hv s).bring img sp (started s)).vcpus 1
  psci_next : ∀ e s, psci e s = true → ∃ t, loop.body e s = .next t
  next_started : ∀ e s t, loop.body e s = .next t →
    started t = (started s || (hv s).psciOn.pending) ∧ (cur t = cur s ∨ started t = true)
  next_hv : ∀ e s t, loop.body e s = .next t →
    if psci e s then
      hv t = psciHandle (cur s) ((entry e s).enter (cur s) e) ∨
        hv t = (psciHandle (cur s) ((entry e s).enter (cur s) e)).skip (cur s)
    else
      (hv t).psciOn = (entry e s).psciOn ∧ ∀ d, d ≠ cur s → (hv t).vcpus d = (entry e s).vcpus d

section Handlers

variable {c d : Fin 2} {h : Hv} {e : Event}

theorem injectTimer_vcpus_of_ne (hne : d ≠ c) : (h.injectTimer c).vcpus d = h.vcpus d := by
  simp only [Hv.injectTimer]
  split_ifs
  · exact setVcpu_vcpus_of_ne _ hne
  · exact setVcpu_vcpus_of_ne _ hne
  · rfl

theorem injectTimer_psciOn : (h.injectTimer c).psciOn = h.psciOn := by
  simp only [Hv.injectTimer]
  split_ifs <;> rfl

theorem cntpEmulate_psciOn (vm : Fin 2) : (cntpEmulate vm c h).psciOn = h.psciOn := by
  simp only [cntpEmulate]
  split_ifs <;> rfl

theorem abort_psciOn (vm : Int) (ipa : U64) (a : AbortAction) :
    (h.abort vm c ipa a).psciOn = h.psciOn := by
  cases a <;> rfl

theorem deliverSgi_psciOn : (h.deliverSgi c).psciOn = h.psciOn := by
  simp only [Hv.deliverSgi]
  rcases vgicPopSgi c.val h.vgic with ⟨_ | k, g⟩ <;> rfl

theorem deliverSgi_vcpus : (h.deliverSgi c).vcpus d =
    if d = c then (h.vcpus d).withSgi (vgicPopSgi c.val h.vgic).1 else h.vcpus d := by
  simp only [Hv.deliverSgi]
  rcases vgicPopSgi c.val h.vgic with ⟨_ | k, g⟩
  · simp [Vcpu.withSgi]
  · by_cases hd : d = c
    · subst hd
      simp [Vcpu.withSgi, Hv.inject]
    · simp only [Hv.inject, setVcpu_vcpus_of_ne _ hd, if_neg hd]

theorem keyIn_psciOn (key : Option U8) : (h.keyIn key).psciOn = h.psciOn := by
  simp only [Hv.keyIn]
  split
  · rfl
  · split_ifs <;> rfl

theorem keyIn_vcpus_one (key : Option U8) : (h.keyIn key).vcpus 1 = h.vcpus 1 := by
  have hne : (1 : Fin 2) ≠ 0 := by decide
  simp only [Hv.keyIn]
  split
  · rfl
  · split_ifs
    · exact setVcpu_vcpus_of_ne _ hne
    · rfl

end Handlers

section LinuxVgicBoot

variable {img : Image} {e : Event} {s t : Smp}

theorem bringUp_eq_bring :
    (s.bringUp img).hv = s.hv.bring img 0 (!decide (s.ncpu < 2)) := by
  simp only [Smp.bringUp, Hv.bring, Bool.not_not]
  split_ifs <;> rfl

theorem linux_entry_vcpu : (s.ready img e.key).hv.vcpus 1 =
    if s.cur = 1 then
      ((s.bringUp img).hv.vcpus 1).withSgi (vgicPopSgi 1 (s.bringUp img).hv.vgic).1
    else (s.bringUp img).hv.vcpus 1 := by
  simp only [Smp.ready, Smp.bringUp_cur, deliverSgi_vcpus, keyIn_vcpus_one, keyIn_vgic]
  by_cases hcur : s.cur = 1
  · rw [hcur]
    rfl
  · rw [if_neg hcur, if_neg fun h => hcur h.symm]

/-- The exits that are not PSCI calls keep the request and the other vCPU. -/
theorem linuxExit_frame {c : Fin 2} {h : Hv} (hsmc : e.ctx.exitKind ≠ .smc)
    (hhvc : e.ctx.exitKind ≠ .hvc) : (h.linuxExit c e).psciOn = h.psciOn ∧
      ∀ d, d ≠ c → (h.linuxExit c e).vcpus d = h.vcpus d := by
  simp only [Hv.linuxExit]
  cases hk : e.ctx.exitKind with
  | smc => exact absurd hk hsmc
  | hvc => exact absurd hk hhvc
  | other => exact ⟨rfl, fun _ _ => rfl⟩
  | abort => exact ⟨abort_psciOn _ _ _, fun _ hne => abort_vcpus_of_ne _ _ _ hne⟩
  | irq =>
    cases e.timerTick with
    | true => exact ⟨injectTimer_psciOn, fun _ hne => injectTimer_vcpus_of_ne hne⟩
    | false => exact ⟨rfl, fun _ _ => rfl⟩
  | sysreg =>
    by_cases hcrn : issCrn (esrIss e.ctx.exitEsr) = 12
    · simp only [if_pos hcrn]
      exact ⟨rfl, fun _ hne => setVcpu_vcpus_of_ne _ hne⟩
    · simp only [if_neg hcrn]
      exact ⟨cntpEmulate_psciOn _, fun _ hne => cntpEmulate_vcpus_of_ne _ hne⟩

/-- `linux_vgic_boot`. -/
def linuxSmp (img : Image) : SmpLoop where
  S := Smp
  loop := linuxVgicBoot img
  hv := Smp.hv
  cur := Smp.cur
  started := fun s => !decide (s.ncpu < 2)
  img := img
  sp := 0
  start := linuxVgicBootStart img
  entry := fun e s => (s.ready img e.key).hv
  psci := fun e s =>
    decide (s.GoesOn img e) && (e.ctx.exitKind = .smc || e.ctx.exitKind = .hvc)
  start_off := fun _ => ⟨rfl, rfl, rfl⟩
  entry_psciOn := fun e s => by
    rw [← bringUp_eq_bring, Smp.ready, deliverSgi_psciOn, keyIn_psciOn]
  entry_vcpu := fun e s => by
    rw [← bringUp_eq_bring]
    exact linux_entry_vcpu
  psci_next := fun e s h => by
    rw [Bool.and_eq_true, decide_eq_true_eq] at h
    exact ⟨_, linuxVgicBoot_body_next h.1.1 h.1.2⟩
  next_started := fun e s t hb => by
    obtain ⟨-, -, hncpu, hcur, -⟩ := linuxVgicBoot_next_inv hb
    have hready : t.ncpu = (s.bringUp img).ncpu := hncpu
    refine ⟨?_, hcur.imp_right fun h => by rw [h]; rfl⟩
    rw [hready, Smp.bringUp]
    by_cases hp : s.hv.psciOn.pending = true
    · by_cases hn : s.ncpu < 2
      · simp [hp, hn]
      · simp [hp, hn]
    · simp [hp]
  next_hv := fun e s t hb => by
    obtain ⟨hgo, hhv, -⟩ := linuxVgicBoot_next_inv hb
    have hexited : (s.exited img e).hv = (s.ready img e.key).hv.enter s.cur e := rfl
    rw [hexited] at hhv
    simp only [hgo, decide_true, Bool.true_and]
    by_cases hsmc : e.ctx.exitKind = .smc
    · rw [Hv.linuxExit, hsmc] at hhv
      simp only [hsmc, decide_true, Bool.true_or, if_true]
      exact .inr hhv
    · by_cases hhvc : e.ctx.exitKind = .hvc
      · rw [Hv.linuxExit, hhvc] at hhv
        simp only [hhvc, decide_true, Bool.or_true, if_true]
        exact .inl hhv
      · simp only [hsmc, hhvc, decide_false, Bool.or_false, Bool.false_eq_true, if_false]
        obtain ⟨hpsci, hother⟩ :=
          linuxExit_frame (c := s.cur) (h := (s.ready img e.key).hv.enter s.cur e) hsmc hhvc
        rw [hhv]
        refine ⟨hpsci, fun d hne => (hother d hne).trans ?_⟩
        exact setVcpu_vcpus_of_ne _ hne

end LinuxVgicBoot

section SmpPsciDemo

variable {img : Image} {sp : U64} {e : Event} {s t : SmpPsci}

/-- The pass is a call in the PSCI ranges. -/
def Event.inPsciRange (e : Event) : Bool := e.ctx.exitKind = .hvc && psciRange e.ctx.psciFn

theorem smpPsci_ready : (s.ready img sp).hv = (s.hv.bring img sp s.secOn).deliverSgi s.cur ∧
    (s.ready img sp).secOn = (s.secOn || s.hv.psciOn.pending) := by
  cases hp : s.hv.psciOn.pending with
  | false => simp [SmpPsci.ready, Hv.bring, hp]
  | true => cases hs : s.secOn <;> simp [SmpPsci.ready, Hv.bring, hp, hs]

/-- What a pass that goes on leaves. -/
theorem smpPsciDemo_next_inv (hb : (smpPsciDemo img sp).body e s = .next t) :
    t.secOn = (s.ready img sp).secOn ∧ (t.cur = s.cur ∨ t.secOn = true) ∧
      if e.inPsciRange then t.hv = psciHandle s.cur ((s.ready img sp).hv.enter s.cur e)
      else t.hv = (s.ready img sp).hv.enter s.cur e ∨
        t.hv = ((s.ready img sp).hv.enter s.cur e).postSgi s.cur := by
  simp only [smpPsciDemo, enter_vcpus_self, vcpuRunOnce_ctx] at hb
  cases hk : e.ctx.exitKind with
  | irq =>
    simp only [hk, Flow.next.injEq] at hb
    rw [← hb]
    refine ⟨?_, ?_, ?_⟩
    · split_ifs <;> rfl
    · split_ifs with hswitch
      · exact .inr (Bool.and_eq_true_iff.mp hswitch).2
      · exact .inl (SmpPsci.ready_cur img sp s)
    · simp only [Event.inPsciRange, hk, reduceCtorEq, decide_false, Bool.false_and,
        Bool.false_eq_true, if_false]
      left
      split_ifs <;> rfl
  | hvc =>
    by_cases hr : psciRange e.ctx.psciFn = true
    · simp only [hk, hr, if_true, Flow.next.injEq] at hb
      rw [← hb]
      simp [Event.inPsciRange, hk, hr]
    · simp only [hk, hr, Bool.false_eq_true, if_false, Flow.next.injEq] at hb
      rw [← hb]
      simp [Event.inPsciRange, hr]
  | sysreg =>
    simp only [hk, Flow.next.injEq] at hb
    rw [← hb]
    simp [Event.inPsciRange, hk]
  | abort | smc | other =>
    simp only [hk] at hb
    cases hb

/-- `smp_psci_demo`. -/
def psciSmp (img : Image) (entry sp0 sp : U64) : SmpLoop where
  S := SmpPsci
  loop := smpPsciDemo img sp
  hv := SmpPsci.hv
  cur := SmpPsci.cur
  started := SmpPsci.secOn
  img := img
  sp := sp
  start := smpPsciDemoStart img entry sp0
  entry := fun _ s => (s.ready img sp).hv
  psci := fun e _ => e.inPsciRange
  start_off := fun _ => ⟨rfl, rfl, rfl⟩
  entry_psciOn := fun _ s => by rw [smpPsci_ready.1, deliverSgi_psciOn]
  entry_vcpu := fun _ s => by
    rw [smpPsci_ready.1, deliverSgi_vcpus]
    by_cases hcur : s.cur = 1
    · rw [hcur]
      rfl
    · rw [if_neg hcur, if_neg fun h => hcur h.symm]
  psci_next := fun e s h => by
    simp only [Event.inPsciRange, Bool.and_eq_true, decide_eq_true_eq] at h
    simp only [smpPsciDemo, enter_vcpus_self, vcpuRunOnce_ctx, h.1, h.2, if_true]
    exact ⟨_, rfl⟩
  next_started := fun e s t hb => by
    obtain ⟨hsec, hcur, -⟩ := smpPsciDemo_next_inv hb
    exact ⟨hsec.trans smpPsci_ready.2, hcur⟩
  next_hv := fun e s t hb => by
    obtain ⟨-, -, hhv⟩ := smpPsciDemo_next_inv hb
    by_cases hr : e.inPsciRange = true
    · rw [if_pos hr] at hhv ⊢
      exact .inl hhv
    · rw [if_neg hr] at hhv ⊢
      rcases hhv with hhv | hhv
      · rw [hhv]
        exact ⟨rfl, fun _ hne => setVcpu_vcpus_of_ne _ hne⟩
      · rw [hhv]
        refine ⟨rfl, fun d hne => (setVcpu_vcpus_of_ne _ hne).trans ?_⟩
        exact setVcpu_vcpus_of_ne _ hne

end SmpPsciDemo

/-- The loops that serve CPU_ON; `entry` and `sp0` are those of the primary vCPU of
`smp_psci_demo`, `sp` that of its secondary. -/
def smpLoops (img : Image) (entry sp0 sp : U64) : List SmpLoop :=
  [linuxSmp img, psciSmp img entry sp0 sp]

/-! ## 2. The phases of a run -/

namespace SmpLoop

variable {L : SmpLoop}

/-- A pass with the state at its head. -/
abbrev Pass (L : SmpLoop) : Type := L.S × Event

/-- The pass handles a CPU_ON call. -/
def cpuOn (L : SmpLoop) (p : L.Pass) : Bool := L.psci p.2 p.1 && psciCpuOnFn p.2.ctx.psciFn

/-- The pass applies `vcpu_init` to `vcpus[1]`. -/
def brings (L : SmpLoop) (s : L.S) : Bool := (L.hv s).psciOn.pending && !L.started s

/-- The state after the head of a pass. -/
def head (L : SmpLoop) (s : L.S) : Hv := (L.hv s).bring L.img L.sp (L.started s)

/-- vCPU 1 as a CPU_ON call made in the context `g` asks for it. -/
def fresh (L : SmpLoop) (g : GuestCtx) : Vcpu :=
  (vcpuInit (g.getX 2) L.sp (stage2Vttbr L.img) 1).setX 0 (g.getX 3)

/-- Where a run is, given the passes so far. -/
inductive Phase (L : SmpLoop) : List L.Pass → L.S → Prop
  /-- No CPU_ON yet. -/
  | off {pre : List L.Pass} {s : L.S} :
      (∀ q ∈ pre, L.cpuOn q = false) → L.started s = false → L.cur s = 0 →
      (L.hv s).psciOn.pending = false → Phase L pre s
  /-- The first CPU_ON was in the last pass. -/
  | asked {pre : List L.Pass} {p : L.Pass} {s : L.S} :
      (∀ q ∈ pre, L.cpuOn q = false) → L.cpuOn p = true → L.started s = false → L.cur s = 0 →
      (L.hv s).psciOn =
        { pending := true, entry := p.2.ctx.getX 2, ctx := p.2.ctx.getX 3 } →
      Phase L (pre ++ [p]) s
  /-- vCPU 1 has been started, and is as it was started until it has run. -/
  | on {pre post : List L.Pass} {p : L.Pass} {s : L.S} :
      (∀ q ∈ pre, L.cpuOn q = false) → L.cpuOn p = true → L.started s = true →
      ((∀ q ∈ post, L.cur q.1 ≠ 1) → (L.hv s).vcpus 1 = L.fresh p.2.ctx) →
      Phase L (pre ++ p :: post) s

section Steps

variable {e : Event} {s t : L.S}

theorem head_of_not_brings (h : L.brings s = false) : L.head s = L.hv s := by
  rw [head, Hv.bring, show ((L.hv s).psciOn.pending && !L.started s) = false from h]
  rfl

theorem head_of_brings (h : L.brings s = true) : L.head s = (L.hv s).cpuOn L.img L.sp := by
  rw [head, Hv.bring, show ((L.hv s).psciOn.pending && !L.started s) = true from h]
  rfl

/-- The request after a pass that goes on. -/
theorem next_psciOn (hb : L.loop.body e s = .next t) : (L.hv t).psciOn =
    if L.cpuOn (s, e) then { pending := true, entry := e.ctx.getX 2, ctx := e.ctx.getX 3 }
    else (L.head s).psciOn := by
  have hhv := L.next_hv e s t hb
  have hctx : ((((L.entry e s).enter (L.cur s) e).vcpus (L.cur s)).toGuestCtx) = e.ctx := by
    rw [enter_vcpus_self]
    rfl
  cases hp : L.psci e s with
  | false =>
    simp only [hp, Bool.false_eq_true, if_false] at hhv
    simp only [cpuOn, hp, Bool.false_and, Bool.false_eq_true, if_false]
    exact hhv.1.trans (L.entry_psciOn e s)
  | true =>
    simp only [hp, if_true] at hhv
    have hsame : (L.hv t).psciOn =
        (psciHandle (L.cur s) ((L.entry e s).enter (L.cur s) e)).psciOn := by
      rcases hhv with hhv | hhv <;> rw [hhv]
      rfl
    rw [hsame]
    cases hon : psciCpuOnFn e.ctx.psciFn with
    | true =>
      rw [psciHandle_cpuOn (by rw [hctx]; exact hon)]
      simp only [cpuOn, hp, hon, Bool.true_and, if_true, hctx]
    | false =>
      rw [psciHandle_psciOn (by rw [hctx]; exact hon)]
      simp only [cpuOn, hp, hon, Bool.and_false, Bool.false_eq_true, if_false]
      exact L.entry_psciOn e s

/-- A pass of vCPU 0 leaves vCPU 1 as it is after the head. -/
theorem next_vcpu_one (hcur : L.cur s = 0) (hb : L.loop.body e s = .next t) :
    (L.hv t).vcpus 1 = (L.head s).vcpus 1 := by
  have hne : (1 : Fin 2) ≠ L.cur s := by
    rw [hcur]
    decide
  have hentry : (L.entry e s).vcpus 1 = (L.head s).vcpus 1 := by
    rw [L.entry_vcpu e s, if_neg hne.symm, head]
  have hhv := L.next_hv e s t hb
  rw [← hentry]
  split_ifs at hhv
  · have hhandled : (psciHandle (L.cur s) ((L.entry e s).enter (L.cur s) e)).vcpus 1 =
        (L.entry e s).vcpus 1 :=
      (psciHandle_vcpus_of_ne hne).trans (setVcpu_vcpus_of_ne _ hne)
    rcases hhv with hhv | hhv
    · rw [hhv, hhandled]
    · rw [hhv, Hv.skip, setVcpu_vcpus_of_ne _ hne, hhandled]
  · exact hhv.2 1 hne

theorem not_started_next (hs : L.started s = false) (hp : (L.hv s).psciOn.pending = false)
    (hcur : L.cur s = 0) (hb : L.loop.body e s = .next t) : L.started t = false ∧ L.cur t = 0 := by
  obtain ⟨hst, hc⟩ := L.next_started e s t hb
  have hoff : L.started t = false := by rw [hst, hs, hp]; rfl
  refine ⟨hoff, hc.elim (fun h => h.trans hcur) fun h => ?_⟩
  rw [hoff] at h
  exact absurd h Bool.false_ne_true

/-- Every pass that goes on leads from phase to phase. -/
theorem phase_step (pre : List L.Pass) (s : L.S) (e : Event) (t : L.S) (h : L.Phase pre s)
    (hb : L.loop.body e s = .next t) : L.Phase (pre ++ [(s, e)]) t := by
  obtain ⟨hst, -⟩ := L.next_started e s t hb
  have hpsci := next_psciOn hb
  cases h with
  | off hno hs hcur hp =>
    obtain ⟨hs', hcur'⟩ := not_started_next hs hp hcur hb
    cases hon : L.cpuOn (s, e) with
    | true =>
      rw [hon, if_pos rfl] at hpsci
      exact .asked hno hon hs' hcur' hpsci
    | false =>
      have hidle : L.brings s = false := by rw [brings, hp]; rfl
      rw [hon, if_neg Bool.false_ne_true, head_of_not_brings hidle] at hpsci
      refine .off (fun q hq => ?_) hs' hcur' (by rw [hpsci, hp])
      rcases List.mem_append.mp hq with hq | hq
      · exact hno q hq
      · rw [List.mem_singleton.mp hq]
        exact hon
  | @asked pre p _ hno hp hs hcur hreq =>
    -- the head of this pass takes the request, before another call can overwrite it
    have hbr : L.brings s = true := by rw [brings, hreq, hs]; rfl
    rw [List.append_assoc, List.singleton_append]
    refine .on hno hp (by rw [hst, hreq]; exact Bool.or_true _) fun _ => ?_
    rw [next_vcpu_one hcur hb, head_of_brings hbr]
    simp only [Hv.cpuOn, setVcpu_vcpus_self, hreq, fresh]
  | @on pre post p _ hno hp hs hfresh =>
    rw [List.append_assoc, List.cons_append]
    -- a request made from now on stays pending: the loop starts vCPU 1 only once
    refine .on hno hp (by rw [hst, hs]; rfl) fun hwaits => ?_
    have hnot : L.cur s ≠ 1 := hwaits (s, e) (List.mem_append_right _ List.mem_cons_self)
    have hcur : L.cur s = 0 := by omega
    have hidle : L.brings s = false := by
      rw [brings, hs]
      exact Bool.and_false _
    rw [next_vcpu_one hcur hb, head_of_not_brings hidle]
    exact hfresh fun q hq => hwaits q (List.mem_append_left _ hq)

/-- Every pass of a run begins in the phase that the passes before it lead to. -/
theorem phase_of_run {h : Hv} {es : List Event} {pre post : List L.Pass} {p : L.Pass}
    (hrun : L.loop.iters (L.start h) es = pre ++ p :: post) : L.Phase pre p.1 := by
  obtain ⟨hs, hcur, hp⟩ := L.start_off h
  have h0 : L.Phase [] (L.start h) := .off (fun q hq => absurd hq List.not_mem_nil) hs hcur hp
  exact L.loop.iters_of_history phase_step h0 hrun

end Steps

/-! ## 3. Safety of the protocol -/

/-- vCPU 1 at its first entry: as the call in the context `g` asks, with no interrupt
but an SGI popped for it. -/
structure StartedAs (g : GuestCtx) (popped : Option Nat) (v : Vcpu) : Prop where
  pc : v.pc = g.getX 2
  x0 : v.getX 0 = g.getX 3
  x : ∀ r, r ≠ 0 → v.getX r = 0
  id : v.id = 1
  vmpidr : v.vmpidr = 0x80000001
  lrs : v.ichLr = match popped with
    | some k => Function.update (fun _ => 0) 0 (pendingLr (BitVec.ofNat 32 k))
    | none => fun _ => 0

theorem startedAs_fresh (g : GuestCtx) (popped : Option Nat) :
    StartedAs g popped ((L.fresh g).withSgi popped) := by
  have hlrs : (L.fresh g).ichLr = fun _ => 0 := rfl
  have hfree : freeSlot (L.fresh g).ichLr = some 0 := by
    rw [hlrs]
    decide
  have hx : ∀ r, (L.fresh g).getX r = if r = 0 then g.getX 3 else 0 := by
    intro r
    by_cases hr : r < 31
    · by_cases h0 : r = 0
      · subst h0
        rfl
      · have hne : (⟨r, hr⟩ : Fin 31) ≠ 0 := fun h => h0 (congrArg Fin.val h)
        simp only [GuestCtx.getX, dif_pos hr, if_neg h0]
        exact Function.update_of_ne hne _ _
    · rw [GuestCtx.getX, dif_neg hr, if_neg (by omega)]
  cases popped with
  | none => exact ⟨rfl, hx 0, fun r hr => (hx r).trans (if_neg hr), rfl, rfl, hlrs⟩
  | some k =>
    have hinj : (L.fresh g).withSgi (some k) = { L.fresh g with
        ichLr := Function.update (fun _ => 0) 0 (pendingLr (BitVec.ofNat 32 k)) } := by
      have hnone : ¬ ∃ i, lrHolds (BitVec.ofNat 32 k) ((L.fresh g).ichLr i) = true := by
        rintro ⟨i, hi⟩
        rw [hlrs, lrHolds, Bool.and_eq_true] at hi
        exact of_decide_eq_true hi.1 (show lrState 0 = 0 by decide)
      simp only [Vcpu.withSgi, vgicInject, if_neg hnone, hfree]
      rw [hlrs]
    rw [hinj]
    exact ⟨rfl, hx 0, fun r hr => (hx r).trans (if_neg hr), rfl, rfl, rfl⟩

/-- `v'` is `v` but for `x0` and `pc`. -/
def SameButReply (v v' : Vcpu) : Prop :=
  v' = { v with x := Function.update v.x 0 (v'.x 0), pc := v'.pc }

/-- A CPU_ON call changes of its caller only `x0` and `pc`. -/
theorem cpuOn_caller {e : Event} {s t : L.S} (hon : L.cpuOn (s, e) = true)
    (hb : L.loop.body e s = .next t) : ((L.hv t).vcpus (L.cur s)).getX 0 = 0 ∧
      SameButReply (((L.entry e s).enter (L.cur s) e).vcpus (L.cur s))
        ((L.hv t).vcpus (L.cur s)) := by
  rw [cpuOn, Bool.and_eq_true] at hon
  have hfn : psciCpuOnFn (((L.entry e s).enter (L.cur s) e).vcpus (L.cur s)).psciFn = true := by
    rw [enter_vcpus_self]
    exact hon.2
  have hhv := L.next_hv e s t hb
  rw [if_pos hon.1, psciHandle_cpuOn hfn] at hhv
  generalize (L.entry e s).enter (L.cur s) e = h at hhv
  rcases hhv with hhv | hhv
  · have hv : (L.hv t).vcpus (L.cur s) = (h.vcpus (L.cur s)).setX 0 0 := by
      rw [hhv]
      exact setVcpu_vcpus_self _
    rw [hv]
    exact ⟨rfl, rfl⟩
  · have hv : (L.hv t).vcpus (L.cur s) = ((h.vcpus (L.cur s)).setX 0 0).skip := by
      rw [hhv, Hv.skip, setVcpu_vcpus_self]
      exact congrArg Vcpu.skip (setVcpu_vcpus_self _)
    rw [hv]
    exact ⟨rfl, rfl⟩

/-- vCPU 1 has been started when the guest of the pass runs. -/
def isOn (L : SmpLoop) (s : L.S) : Bool := L.started s || L.brings s

theorem isOn_next {e : Event} {s t : L.S} (hon : L.isOn s = true)
    (hb : L.loop.body e s = .next t) : L.started t = true := by
  rw [(L.next_started e s t hb).1]
  rw [isOn, brings] at hon
  cases hs : L.started s with
  | true => rfl
  | false => simpa [hs] using hon

theorem not_brings_of_started {s : L.S} (hs : L.started s = true) : L.brings s = false := by
  rw [brings, hs]
  exact Bool.and_false _

/-- vCPU 1 runs only after it has been started, and is as the first CPU_ON asked
until it has run. -/
theorem on_of_cur {pre : List L.Pass} {s : L.S} (h : L.Phase pre s) (hcur : L.cur s = 1) :
    ∃ pre' q post, pre = pre' ++ q :: post ∧ (∀ r ∈ pre', L.cpuOn r = false) ∧
      L.cpuOn q = true ∧ L.started s = true ∧
      ((∀ r ∈ post, L.cur r.1 ≠ 1) → (L.hv s).vcpus 1 = L.fresh q.2.ctx) := by
  cases h with
  | off _ _ hcur0 _ =>
    rw [hcur0] at hcur
    exact absurd hcur (by decide)
  | asked _ _ _ hcur0 _ =>
    rw [hcur0] at hcur
    exact absurd hcur (by decide)
  | @on pre' post q _ hno hq hs hfresh => exact ⟨pre', q, post, rfl, hno, hq, hs, hfresh⟩

/-- vCPU 1 is entered as it was left, with the SGI popped for it. -/
theorem entry_vcpu_one {e : Event} {s : L.S} (hs : L.started s = true) (hcur : L.cur s = 1) :
    (L.entry e s).vcpus 1 =
      ((L.hv s).vcpus 1).withSgi (vgicPopSgi 1 (L.head s).vgic).1 := by
  rw [L.entry_vcpu, if_pos hcur]
  change ((L.head s).vcpus 1).withSgi (vgicPopSgi 1 (L.head s).vgic).1 = _
  rw [head_of_not_brings (not_brings_of_started hs)]

/-- A pass that starts vCPU 1 is the first after the first CPU_ON. -/
theorem asked_of_brings {pre : List L.Pass} {s : L.S} (h : L.Phase pre s)
    (hbr : L.brings s = true) : ∃ pre' q, pre = pre' ++ [q] ∧ (∀ r ∈ pre', L.cpuOn r = false) ∧
      L.cpuOn q = true := by
  cases h with
  | off _ _ _ hp =>
    rw [brings, hp] at hbr
    exact absurd hbr Bool.false_ne_true
  | @asked pre p _ hno hp _ _ _ => exact ⟨pre, p, rfl, hno, hp⟩
  | on _ _ hs _ =>
    rw [not_brings_of_started hs] at hbr
    exact absurd hbr Bool.false_ne_true

/-- No pass starts vCPU 1 when a CPU_ON has come before the pass before it. -/
theorem not_brings_later {h : Hv} {es : List Event} {pre post : List L.Pass} {p q : L.Pass}
    (hrun : L.loop.iters (L.start h) es = pre ++ p :: post) (hcall : ∃ r ∈ pre, L.cpuOn r = true)
    (hq : q ∈ post) : L.brings q.1 = false := by
  rw [← Bool.not_eq_true]
  intro hbr
  obtain ⟨mid, post', rfl⟩ := List.append_of_mem hq
  have hrun' : L.loop.iters (L.start h) es = (pre ++ p :: mid) ++ q :: post' := by
    rw [hrun, List.append_assoc, List.cons_append]
  obtain ⟨pre', q', heq, hno, -⟩ := asked_of_brings (phase_of_run hrun') hbr
  obtain ⟨r, hr, hon⟩ := hcall
  have hpre : pre' = pre ++ (p :: mid).dropLast := by
    have hdrop := congrArg List.dropLast heq
    rw [List.dropLast_concat, List.dropLast_append_of_ne_nil (List.cons_ne_nil _ _)] at hdrop
    exact hdrop.symm
  have hoff := hno r (hpre ▸ List.mem_append_left _ hr)
  exact Bool.false_ne_true (hoff.symm.trans hon)

end SmpLoop

/-- The protocol in every run of either loop, whatever the earlier demos left.
vCPU 1 is entered only after a CPU_ON. `vcpu_init` is applied to it at most once. At
its first entry it is as the first CPU_ON of the run asked. A CPU_ON call that finds
it started leaves it alone, or gives it an answer if it is the caller. -/
theorem secondary_bringup (img : Image) (entry sp0 sp : U64) :
    ∀ L ∈ smpLoops img entry sp0 sp, ∀ (h : Hv) (es : List Event) (pre post : List L.Pass)
      (p : L.Pass), L.loop.iters (L.start h) es = pre ++ p :: post →
      (L.cur p.1 = 1 → ∃ q ∈ pre, L.cpuOn q = true) ∧
      (L.brings p.1 = true → ∀ q ∈ post, L.brings q.1 = false) ∧
      (L.cur p.1 = 1 → (∀ q ∈ pre, L.cur q.1 ≠ 1) →
        ∃ q popped, pre.find? L.cpuOn = some q ∧ (∀ k ∈ popped, k < 16) ∧
          SmpLoop.StartedAs q.2.ctx popped ((L.entry p.2 p.1).vcpus 1)) ∧
      (L.cpuOn p = true → L.isOn p.1 = true → ∀ t, L.loop.body p.2 p.1 = .next t →
        (L.head t).vcpus 1 = (L.hv t).vcpus 1 ∧
        if L.cur p.1 = 1 then
          SmpLoop.SameButReply (((L.entry p.2 p.1).enter 1 p.2).vcpus 1) ((L.hv t).vcpus 1)
        else (L.hv t).vcpus 1 = (L.head p.1).vcpus 1) := by
  intro L _ h es pre post p hrun
  have hphase := SmpLoop.phase_of_run hrun
  refine ⟨fun hcur => ?_, fun hbr q hq => ?_, fun hcur hfirst => ?_, fun hon hison t hb => ?_⟩
  · obtain ⟨pre', q, post', rfl, -, hq, -⟩ := SmpLoop.on_of_cur hphase hcur
    exact ⟨q, List.mem_append_right _ List.mem_cons_self, hq⟩
  · obtain ⟨pre', r, hpre, -, hcall⟩ := SmpLoop.asked_of_brings hphase hbr
    refine SmpLoop.not_brings_later hrun ⟨r, ?_, hcall⟩ hq
    rw [hpre]
    exact List.mem_append_right _ List.mem_cons_self
  · obtain ⟨pre', q, post', rfl, hno, hq, hs, hfresh⟩ := SmpLoop.on_of_cur hphase hcur
    refine ⟨q, (vgicPopSgi 1 (L.head p.1).vgic).1, ?_, fun k hk => ?_, ?_⟩
    · rw [List.find?_eq_some_iff_append]
      exact ⟨hq, pre', post', rfl, fun r hr => by rw [hno r hr]; rfl⟩
    · rcases vgicPopSgi_cases 1 (L.head p.1).vgic with hpop | ⟨b, hb, hpop⟩
      · rw [hpop] at hk
        cases hk
      · rw [hpop] at hk
        cases hk
        exact hb
    · -- it has not run before, so it is still as it was started
      have hvcpu : (L.hv p.1).vcpus 1 = L.fresh q.2.ctx :=
        hfresh fun r hr => hfirst r (List.mem_append_right _ (List.mem_cons_of_mem _ hr))
      rw [SmpLoop.entry_vcpu_one hs hcur, hvcpu]
      exact SmpLoop.startedAs_fresh _ _
  · have hs := SmpLoop.isOn_next hison hb
    refine ⟨by rw [SmpLoop.head_of_not_brings (SmpLoop.not_brings_of_started hs)], ?_⟩
    by_cases hcur : L.cur p.1 = 1
    · rw [if_pos hcur]
      have hcaller := (SmpLoop.cpuOn_caller hon hb).2
      rwa [hcur] at hcaller
    · rw [if_neg hcur]
      have h0 : L.cur p.1 = 0 := by omega
      exact SmpLoop.next_vcpu_one h0 hb

/-- A CPU_ON call by HVC for the target `x1`, with entry point `x2` and context
`x3`. -/
def cpuOnCall (x1 x2 x3 : U64) : Event where
  ctx :=
    { zeroCtx with
      exitReason := 8
      exitEsr := 0x5A000000
      x := fun r =>
        match r.val with
        | 0 => 0xC4000003
        | 1 => x1
        | 2 => x2
        | 3 => x3
        | _ => 0 }
  iar := 0
  key := none

/-- vCPU 0 asks for vCPU 1, and two slices later vCPU 1 runs. -/
theorem secondary_bringup_two_slices :
    let L := linuxSmp exampleImage
    let ps := L.loop.iters (L.start (resetHv exampleImage 0))
      [cpuOnCall 1 0x41001000 7, timerExit, timerExit]
    L ∈ smpLoops exampleImage 0 0 0 ∧ ∃ p ∈ ps, L.cur p.1 = 1 ∧
      ∃ q popped, SmpLoop.StartedAs q popped ((L.entry p.2 p.1).vcpus 1) := by
  intro L ps
  have hmem : L ∈ smpLoops exampleImage 0 0 0 := List.mem_cons_self
  have hruns : (ps.find? fun p => L.cur p.1 = 1).isSome = true := by decide +kernel
  obtain ⟨p, hp⟩ := Option.isSome_iff_exists.mp hruns
  obtain ⟨hcur, pre, post, hrun, hpre⟩ := List.find?_eq_some_iff_append.mp hp
  rw [decide_eq_true_eq] at hcur
  have hfirst : ∀ q ∈ pre, L.cur q.1 ≠ 1 := by
    intro q hq h1
    simpa [h1] using hpre q hq
  obtain ⟨-, -, hstart, -⟩ := secondary_bringup exampleImage 0 0 0 L hmem _ _ pre post p hrun
  obtain ⟨q, popped, -, -, has⟩ := hstart hcur hfirst
  refine ⟨hmem, p, ?_, hcur, q.2.ctx, popped, has⟩
  rw [hrun]
  exact List.mem_append_right _ List.mem_cons_self

/-! ## 4. The answer -/

/-- The affinity fields of the target select vCPU `c`. -/
def namesVcpu (x1 : U64) (c : Fin 2) : Prop := x1 &&& 0xFF00FFFFFF = BitVec.ofNat 64 c.val

instance (x1 : U64) (c : Fin 2) : Decidable (namesVcpu x1 c) := inferInstanceAs (Decidable (_ = _))

namespace SmpLoop

variable {L : SmpLoop}

/-- vCPU `c` is off when the guest of the pass runs. -/
def isOff (L : SmpLoop) (s : L.S) (c : Fin 2) : Prop := c = 1 ∧ L.isOn s = false

/-- The target of the call exists and is off. -/
def CanStart (L : SmpLoop) (p : L.Pass) : Prop :=
  ∃ c, namesVcpu (p.2.ctx.getX 1) c ∧ L.isOff p.1 c

/-- The state after the pass. -/
def after (L : SmpLoop) (p : L.Pass) : Hv := L.hv (L.loop.body p.2 p.1).state

/-- What a call returns in `x0`. -/
def reply (L : SmpLoop) (p : L.Pass) : U64 := ((L.after p).vcpus (L.cur p.1)).getX 0

/-- What a CPU_ON call promises, `post` being the passes after it. -/
structure Truthful (L : SmpLoop) (p : L.Pass) (post : List L.Pass) : Prop where
  success : L.reply p = 0 ↔ L.CanStart p
  /-- The target is started in the next pass, as the call asks, and never again. -/
  starts : L.CanStart p → ∀ q post', post = q :: post' →
    L.brings q.1 = true ∧ (L.head q.1).vcpus 1 = L.fresh p.2.ctx ∧
      ∀ r ∈ post', L.brings r.1 = false
  /-- A call that cannot be served returns an error and has no effect. -/
  refused : ¬ L.CanStart p → (L.reply p).toInt < 0 ∧
    (L.after p).psciOn = (L.entry p.2 p.1).psciOn ∧
    (∀ d, d ≠ L.cur p.1 → (L.after p).vcpus d = (L.entry p.2 p.1).vcpus d) ∧
    SameButReply (((L.entry p.2 p.1).enter (L.cur p.1) p.2).vcpus (L.cur p.1))
      ((L.after p).vcpus (L.cur p.1))

/-- Every call is answered with SUCCESS. -/
theorem reply_eq_zero {p : L.Pass} (hon : L.cpuOn p = true) : L.reply p = 0 := by
  have hpsci : L.psci p.2 p.1 = true := (Bool.and_eq_true_iff.mp hon).1
  obtain ⟨t, hb⟩ := L.psci_next p.2 p.1 hpsci
  rw [reply, after, hb]
  exact (cpuOn_caller hon hb).1

theorem canStart_iff {p : L.Pass} :
    L.CanStart p ↔ namesVcpu (p.2.ctx.getX 1) 1 ∧ L.isOn p.1 = false := by
  constructor
  · rintro ⟨c, hnames, rfl, hoff⟩
    exact ⟨hnames, hoff⟩
  · rintro ⟨hnames, hoff⟩
    exact ⟨1, hnames, rfl, hoff⟩

/-- A call that finds vCPU 1 off starts it in the next pass and is the last to do
so. -/
theorem starts_of_off {h : Hv} {es : List Event} {pre post : List L.Pass} {p q : L.Pass}
    (hrun : L.loop.iters (L.start h) es = pre ++ p :: q :: post) (hon : L.cpuOn p = true)
    (hoff : L.isOn p.1 = false) : L.brings q.1 = true ∧
      (L.head q.1).vcpus 1 = L.fresh p.2.ctx ∧ ∀ r ∈ post, L.brings r.1 = false := by
  rw [isOn, Bool.or_eq_false_iff] at hoff
  have hpsci : L.psci p.2 p.1 = true := (Bool.and_eq_true_iff.mp hon).1
  obtain ⟨t, hb⟩ := L.psci_next p.2 p.1 hpsci
  have hq : q.1 = t := L.loop.next_state_of_iters hrun hb
  have hreq := next_psciOn hb
  rw [show L.cpuOn (p.1, p.2) = true from hon, if_pos rfl] at hreq
  have hpend : (L.hv p.1).psciOn.pending = false := by
    simpa [brings, hoff.1] using hoff.2
  have hs : L.started t = false := by
    rw [(L.next_started _ _ _ hb).1, hoff.1, hpend]
    rfl
  have hbr : L.brings t = true := by rw [brings, hreq, hs]; rfl
  have hrun' : L.loop.iters (L.start h) es = (pre ++ [p]) ++ q :: post := by
    rw [hrun, List.append_assoc, List.singleton_append]
  refine ⟨hq ▸ hbr, ?_, fun r hr => not_brings_later hrun' ⟨p, ?_, hon⟩ hr⟩
  · rw [hq, head_of_brings hbr]
    simp only [Hv.cpuOn, setVcpu_vcpus_self, hreq, fresh]
  · exact List.mem_append_right _ List.mem_cons_self

end SmpLoop

/-- In every run of either loop, a CPU_ON call keeps its promise exactly when it
names vCPU 1 and vCPU 1 is off. -/
theorem cpuOn_truthful_iff (img : Image) (entry sp0 sp : U64) :
    ∀ L ∈ smpLoops img entry sp0 sp, ∀ (h : Hv) (es : List Event) (pre post : List L.Pass)
      (p : L.Pass), L.loop.iters (L.start h) es = pre ++ p :: post → L.cpuOn p = true →
      (L.Truthful p post ↔ namesVcpu (p.2.ctx.getX 1) 1 ∧ L.isOn p.1 = false) := by
  intro L _ h es pre post p hrun hon
  have hzero := SmpLoop.reply_eq_zero hon
  rw [← SmpLoop.canStart_iff]
  constructor
  · exact fun htrue => htrue.success.mp hzero
  · intro hcan
    refine ⟨⟨fun _ => hcan, fun _ => hzero⟩, fun _ q post' hpost => ?_, fun hno => absurd hcan hno⟩
    rw [hpost] at hrun
    exact SmpLoop.starts_of_off hrun hon (SmpLoop.canStart_iff.mp hcan).2

/-- The first call for vCPU 1. -/
theorem cpuOn_truthful_first_call :
    let L := linuxSmp exampleImage
    let es := [cpuOnCall 1 0x41001000 7, timerExit]
    ∃ pre p post, L.loop.iters (L.start (resetHv exampleImage 0)) es = pre ++ p :: post ∧
      L.cpuOn p = true ∧ L.Truthful p post := by
  intro L es
  let s := L.start (resetHv exampleImage 0)
  refine ⟨[], (s, cpuOnCall 1 0x41001000 7), (L.loop.iters s es).tail, rfl, by decide +kernel, ?_⟩
  have hiff := cpuOn_truthful_iff exampleImage 0 0 0 L List.mem_cons_self _ es [] _
    (s, cpuOnCall 1 0x41001000 7) rfl (by decide +kernel)
  exact hiff.mpr ⟨by decide +kernel, by decide +kernel⟩

/-- vCPU 1 is asked for twice in `linux_vgic_boot`; `smp_psci_demo` is asked for a
vCPU 5. Both calls return SUCCESS. -/
theorem cpuOn_answer_is_untrue :
    (let L := linuxSmp exampleImage
     let es := [cpuOnCall 1 0x41001000 7, cpuOnCall 1 0x41002000 8]
     ∃ pre p post, L.loop.iters (L.start (resetHv exampleImage 0)) es = pre ++ p :: post ∧
      L.cpuOn p = true ∧ ¬ L.Truthful p post) ∧
    (let L := psciSmp exampleImage 0x40080000 0 0
     let es := [cpuOnCall 5 0x40090000 7]
     ∃ pre p post, L.loop.iters (L.start (resetHv exampleImage 0)) es = pre ++ p :: post ∧
      L.cpuOn p = true ∧ ¬ L.Truthful p post) := by
  constructor
  · intro L es
    have hsecond : ((L.loop.iters (L.start (resetHv exampleImage 0)) es).find? fun p =>
        L.cpuOn p && L.isOn p.1).isSome = true := by decide +kernel
    obtain ⟨p, hp⟩ := Option.isSome_iff_exists.mp hsecond
    obtain ⟨hcall, pre, post, hrun, -⟩ := List.find?_eq_some_iff_append.mp hp
    rw [Bool.and_eq_true] at hcall
    refine ⟨pre, p, post, hrun, hcall.1, fun htrue => ?_⟩
    have hcan := SmpLoop.canStart_iff.mp (htrue.success.mp (SmpLoop.reply_eq_zero hcall.1))
    exact Bool.false_ne_true (hcan.2.symm.trans hcall.2)
  · intro L es
    let s := L.start (resetHv exampleImage 0)
    have hcall : L.cpuOn (s, cpuOnCall 5 0x40090000 7) = true := by decide +kernel
    refine ⟨[], (s, cpuOnCall 5 0x40090000 7), (L.loop.iters s es).tail, rfl, hcall,
      fun htrue => ?_⟩
    have hcan := SmpLoop.canStart_iff.mp (htrue.success.mp (SmpLoop.reply_eq_zero hcall))
    exact absurd hcan.1 (by decide +kernel)

end FermiHV
