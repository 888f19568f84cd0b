import FermiHV.Loops
import FermiHV.Lib.AccessTrace

/-!
# Timer registers of time-sliced guests

`mtenant_real_demo`, `mtenant_os_demo` and `linux_vgic_boot` run with
`CNTHCTL_EL2 = 1`: the physical timer of EL1 is trapped and `cntp_emulate` keeps its
registers per VM; the virtual timer and `CNTKCTL_EL1` are not trapped. The guests
find those in the physical registers, which `vcpu_run_once` neither saves nor
restores (`World.Code` lists what it moves), so the two vCPUs share them.

In every trace of such accesses a read returns what its cell holds
(`trace_coherent`); `timer_read_iff` derives when a vCPU reads back what it wrote.
-/

namespace FermiHV

open RunLoop (Flow Loop)
open AccessTrace (Coherent replay lastWrite)

/-! ## 1. Registers -/

/-- The trapped registers. -/
inductive CntpReg
  | tval
  | ctl
  | cval
deriving DecidableEq

/-- The registers that are not trapped: `CNTV_CVAL_EL0`, `CNTV_CTL_EL0` and
`CNTKCTL_EL1`. -/
inductive CntvReg
  | cval
  | ctl
  | kctl
deriving DecidableEq

inductive TimerReg
  | cntp (r : CntpReg)
  | cntv (r : CntvReg)
deriving DecidableEq

/-- Where a register is kept: `g_cntp_*[c]`, or the physical register. -/
inductive TimerCell
  | emulated (c : Fin 2) (r : CntpReg)
  | physical (r : CntvReg)
deriving DecidableEq

def timerCell (c : Fin 2) : TimerReg → TimerCell
  | .cntp r => .emulated c r
  | .cntv r => .physical r

def Cntp.get (t : Cntp) : CntpReg → U64
  | .tval => t.tval
  | .ctl => t.ctl
  | .cval => t.cval

/-- The register that `cntp_emulate` takes an access to be to. -/
def cntpReg (op2 : U64) : CntpReg := if op2 = 1 then .ctl else if op2 = 2 then .cval else .tval

/-- The bits of a register that hold what is written: ENABLE and IMASK of
`CNTV_CTL_EL0`. -/
def CntvReg.bits : CntvReg → U64
  | .ctl => 3
  | .cval | .kctl => 0xFFFFFFFFFFFFFFFF

abbrev Phys := CntvReg → U64

/-- What the cells hold. -/
def timerView (h : Hv) (p : Phys) : TimerCell → U64
  | .emulated c r => (h.cntp c).get r
  | .physical r => p r

abbrev TimerAccess := AccessTrace.Access (Fin 2) TimerReg U64

theorem cntp_read_eq (t : Cntp) (op2 : U64) : t.read op2 = t.get (cntpReg op2) := by
  simp only [Cntp.read, cntpReg]
  split_ifs <;> rfl

theorem cntp_get_write (t : Cntp) (op2 val : U64) (r : CntpReg) :
    (t.write op2 val).get r = if r = cntpReg op2 then val else t.get r := by
  simp only [Cntp.write, cntpReg]
  split_ifs with h1 h2 h3 <;> cases r <;> simp_all [Cntp.get]

/-! ## 2. Accesses that are not trapped -/

/-- The accesses of vCPU `c` while it runs, on the physical registers `p`: a read
(`none`) or a write. A write of `CNTV_TVAL_EL0` is one of `CNTV_CVAL_EL0`. -/
def untrapped (c : Fin 2) : Phys → List (CntvReg × Option U64) → List TimerAccess
  | _, [] => []
  | p, (r, none) :: as => ⟨c, .cntv r, false, p r⟩ :: untrapped c p as
  | p, (r, some v) :: as =>
    ⟨c, .cntv r, true, v &&& r.bits⟩ :: untrapped c (Function.update p r (v &&& r.bits)) as

/-- The physical registers after them. -/
def physAfter : Phys → List (CntvReg × Option U64) → Phys
  | p, [] => p
  | p, (_, none) :: as => physAfter p as
  | p, (r, some v) :: as => physAfter (Function.update p r (v &&& r.bits)) as

theorem timerView_update (h : Hv) (p : Phys) (r : CntvReg) (v : U64) :
    timerView h (Function.update p r v) =
      Function.update (timerView h p) (.physical r) v := by
  funext k
  cases k with
  | emulated c r' => rfl
  | physical r' =>
    by_cases hr : r' = r
    · subst hr
      simp [timerView]
    · have hne : TimerCell.physical r' ≠ .physical r := fun he => hr (TimerCell.physical.inj he)
      simp only [timerView, Function.update_of_ne hr, Function.update_of_ne hne]

theorem untrapped_coherent (h : Hv) (c : Fin 2) (p : Phys) (as : List (CntvReg × Option U64)) :
    Coherent timerCell (timerView h p) (untrapped c p as) ∧
      replay timerCell (timerView h p) (untrapped c p as) = timerView h (physAfter p as) := by
  induction as generalizing p with
  | nil => exact ⟨trivial, rfl⟩
  | cons a as ih =>
    obtain ⟨r, _ | v⟩ := a
    · exact ⟨⟨fun _ => rfl, (ih p).1⟩, (ih p).2⟩
    · have hstep := ih (Function.update p r (v &&& r.bits))
      rw [timerView_update] at hstep
      exact ⟨⟨fun hread => absurd hread.symm Bool.false_ne_true, hstep.1⟩, hstep.2⟩

/-! ## 3. Trapped accesses -/

/-- The exit is a trapped access to the physical timer. -/
def GuestCtx.isCntp (g : GuestCtx) : Bool :=
  g.exitKind = .sysreg && issCrn (esrIss g.exitEsr) = 14 && issCrm (esrIss g.exitEsr) = 2

section Emulation

variable {h h' : Hv} {c : Fin 2} {p : Phys}

theorem timerView_congr (hc : h'.cntp = h.cntp) : timerView h' p = timerView h p := by
  funext k
  cases k with
  | emulated d r => simp only [timerView, hc]
  | physical r => rfl

theorem timerView_write {op2 val : U64}
    (hc : h'.cntp = Function.update h.cntp c ((h.cntp c).write op2 val)) :
    timerView h' p = Function.update (timerView h p) (.emulated c (cntpReg op2)) val := by
  funext k
  cases k with
  | physical r => rfl
  | emulated d r =>
    simp only [timerView, hc]
    by_cases hd : d = c
    · subst hd
      rw [Function.update_self, cntp_get_write]
      by_cases hr : r = cntpReg op2
      · subst hr
        simp
      · have hne : TimerCell.emulated d r ≠ .emulated d (cntpReg op2) := fun he =>
          hr (TimerCell.emulated.inj he).2
        rw [if_neg hr, Function.update_of_ne hne, timerView]
    · have hne : TimerCell.emulated d r ≠ .emulated c (cntpReg op2) := fun he =>
        hd (TimerCell.emulated.inj he).1
      rw [Function.update_of_ne hd, Function.update_of_ne hne, timerView]

theorem isCntp_iff {g : GuestCtx} : g.isCntp = true ↔
    g.exitKind = .sysreg ∧ issCrn (esrIss g.exitEsr) = 14 ∧ issCrm (esrIss g.exitEsr) = 2 := by
  simp only [GuestCtx.isCntp, Bool.and_eq_true, decide_eq_true_eq, and_assoc]

/-- A trapped write. -/
theorem cntpEmulate_write (vm : Fin 2) (hi : (h.vcpus c).isCntp = true)
    (hdir : issDir (esrIss (h.vcpus c).exitEsr) = 0) :
    (cntpEmulate vm c h).cntp = Function.update h.cntp vm ((h.cntp vm).write
      (issOp2 (esrIss (h.vcpus c).exitEsr))
      ((h.vcpus c).getX (issRt (esrIss (h.vcpus c).exitEsr)))) := by
  simp only [cntpEmulate, if_pos (isCntp_iff.mp hi).2, if_pos hdir]
  rfl

/-- A trapped read. -/
theorem cntpEmulate_read (vm : Fin 2) (hi : (h.vcpus c).isCntp = true)
    (hdir : ¬ issDir (esrIss (h.vcpus c).exitEsr) = 0) : (cntpEmulate vm c h).cntp = h.cntp ∧
      (issRt (esrIss (h.vcpus c).exitEsr) < 31 →
        ((cntpEmulate vm c h).vcpus c).getX (issRt (esrIss (h.vcpus c).exitEsr)) =
          (h.cntp vm).get (cntpReg (issOp2 (esrIss (h.vcpus c).exitEsr)))) := by
  simp only [cntpEmulate, if_pos (isCntp_iff.mp hi).2, if_neg hdir]
  refine ⟨rfl, fun hrt => ?_⟩
  rw [Hv.skip, setVcpu_vcpus_self, setVcpu_vcpus_self, getX_setX_skip, if_pos hrt,
    cntp_read_eq]

/-- Another trapped access changes no timer. -/
theorem cntpEmulate_other (vm : Fin 2) (hk : (h.vcpus c).exitKind = .sysreg)
    (hi : (h.vcpus c).isCntp = false) :
    (cntpEmulate vm c h).cntp = h.cntp := by
  have hno : ¬ (issCrn (esrIss (h.vcpus c).exitEsr) = 14 ∧
      issCrm (esrIss (h.vcpus c).exitEsr) = 2) := by
    intro hyes
    rw [isCntp_iff.mpr ⟨hk, hyes⟩] at hi
    cases hi
  simp only [cntpEmulate, if_neg hno]
  rfl

end Emulation

/-- A run loop that emulates the physical timer. -/
structure TimerLoop where
  S : Type
  loop : Loop S Event
  hv : S → Hv
  cur : S → Fin 2
  /-- The pass ends in `cntp_emulate` with an access to the physical timer. -/
  traps : Event → S → Bool
  next_traps : ∀ e s, traps e s = true → e.ctx.isCntp = true ∧ ∃ h t,
    h.cntp = (hv s).cntp ∧ (h.vcpus (cur s)).toGuestCtx = e.ctx ∧ loop.body e s = .next t ∧
      hv t = cntpEmulate (cur s) (cur s) h
  next_other : ∀ e s t, traps e s = false → loop.body e s = .next t → (hv t).cntp = (hv s).cntp

/-- What comes from outside in a pass, with the accesses that are not trapped. -/
structure TimerEvent where
  ev : Event
  accesses : List (CntvReg × Option U64)

namespace TimerLoop

variable {L : TimerLoop}

/-- The loop with the physical registers. -/
def timed (L : TimerLoop) : Loop (L.S × Phys) TimerEvent where
  cond := fun s => L.loop.cond s.1
  body := fun e s => (L.loop.body e.ev s.1).map fun t => (t, physAfter s.2 e.accesses)

/-- The trapped access of a pass. A read returns what the guest finds in the
transfer register; register 31 takes no value. -/
def trapped (L : TimerLoop) (e : Event) (s : L.S) : List TimerAccess :=
  let iss := esrIss e.ctx.exitEsr
  let r := TimerReg.cntp (cntpReg (issOp2 iss))
  if L.traps e s then
    if issDir iss = 0 then [⟨L.cur s, r, true, e.ctx.getX (issRt iss)⟩]
    else if issRt iss < 31 then
      [⟨L.cur s, r, false, ((L.hv (L.loop.body e s).state).vcpus (L.cur s)).getX (issRt iss)⟩]
    else []
  else []

/-- The accesses of a pass. -/
def accesses (L : TimerLoop) (e : TimerEvent) (s : L.S × Phys) : List TimerAccess :=
  untrapped (L.cur s.1) s.2 e.accesses ++ L.trapped e.ev s.1

/-- The accesses of a run. -/
def trace (L : TimerLoop) (s : L.S × Phys) (es : List TimerEvent) : List TimerAccess :=
  (L.timed.iters s es).flatMap fun p => L.accesses p.2 p.1

/-- The trapped access of a pass agrees with the cells before it, and the cells after
the pass with the access. -/
theorem trapped_coherent (e : Event) (s : L.S) (p : Phys) :
    Coherent timerCell (timerView (L.hv s) p) (L.trapped e s) ∧
      ∀ t, L.loop.body e s = .next t →
        timerView (L.hv t) p = replay timerCell (timerView (L.hv s) p) (L.trapped e s) := by
  cases ht : L.traps e s with
  | false =>
    simp only [trapped, ht, Bool.false_eq_true, if_false]
    exact ⟨trivial, fun t hb => timerView_congr (L.next_other e s t ht hb)⟩
  | true =>
    obtain ⟨hi, h, t, hcntp, hctx, hb, hhv⟩ := L.next_traps e s ht
    rw [← hctx] at hi
    have hview : timerView h p = timerView (L.hv s) p := timerView_congr hcntp
    simp only [trapped, ht, if_true, hb, Flow.state, ← hctx]
    -- direction 0 is MSR: the write goes to the cell; MRS leaves the cells alone
    by_cases hdir : issDir (esrIss (h.vcpus (L.cur s)).exitEsr) = 0
    · rw [if_pos hdir]
      refine ⟨⟨fun hread => absurd hread.symm Bool.false_ne_true, trivial⟩, fun t' hb' => ?_⟩
      cases hb'
      rw [hhv, timerView_write (cntpEmulate_write _ hi hdir), hview]
      rfl
    · rw [if_neg hdir]
      obtain ⟨hsame, hval⟩ := cntpEmulate_read (L.cur s) hi hdir
      have hkept : timerView (L.hv t) p = timerView (L.hv s) p := by
        rw [hhv, timerView_congr hsame, hview]
      split_ifs with hrt
      · refine ⟨⟨fun _ => ?_, trivial⟩, fun t' hb' => by cases hb'; exact hkept⟩
        rw [hhv, hval hrt, hcntp]
        rfl
      · exact ⟨trivial, fun t' hb' => by cases hb'; exact hkept⟩

theorem pass_coherent (e : TimerEvent) (s : L.S × Phys) :
    Coherent timerCell (timerView (L.hv s.1) s.2) (L.accesses e s) ∧
      ∀ t, L.timed.body e s = .next t → timerView (L.hv t.1) t.2 =
        replay timerCell (timerView (L.hv s.1) s.2) (L.accesses e s) := by
  obtain ⟨huntrapped, hafter⟩ := untrapped_coherent (L.hv s.1) (L.cur s.1) s.2 e.accesses
  obtain ⟨htrapped, hnext⟩ := L.trapped_coherent e.ev s.1 (physAfter s.2 e.accesses)
  rw [accesses, AccessTrace.coherent_append, AccessTrace.replay_append, hafter]
  refine ⟨⟨huntrapped, htrapped⟩, fun t hb => ?_⟩
  simp only [timed] at hb
  cases hbody : L.loop.body e.ev s.1 with
  | brk t' =>
    rw [hbody] at hb
    cases hb
  | next t' =>
    rw [hbody] at hb
    cases hb
    exact hnext t' hbody

/-- In every run each read returns what its cell holds. -/
theorem trace_coherent (L : TimerLoop) (s : L.S × Phys) (es : List TimerEvent) :
    Coherent timerCell (timerView (L.hv s.1) s.2) (L.trace s es) := by
  induction es generalizing s with
  | nil => exact trivial
  | cons e es ih =>
    obtain ⟨hpass, hnext⟩ := L.pass_coherent e s
    cases hc : L.timed.cond s with
    | false =>
      rw [trace, Loop.iters_of_not_cond hc]
      exact trivial
    | true =>
      cases hb : L.timed.body e s with
      | brk t =>
        rw [trace, Loop.iters_cons_brk hc hb, List.flatMap_singleton]
        exact hpass
      | next t =>
        rw [trace, Loop.iters_cons_next hc hb, List.flatMap_cons, AccessTrace.coherent_append]
        refine ⟨hpass, ?_⟩
        rw [← hnext t hb]
        exact ih t

end TimerLoop

/-! ## 4. The loops -/

section Handlers

variable {c : Fin 2} {h : Hv}

theorem abort_cntp (vm : Int) (ipa : U64) (a : AbortAction) :
    (h.abort vm c ipa a).cntp = h.cntp := by
  cases a <;> rfl

theorem psciHandle_cntp : (psciHandle c h).cntp = h.cntp := by
  simp only [psciHandle]
  split_ifs <;> rfl

theorem injectTimer_cntp : (h.injectTimer c).cntp = h.cntp := by
  simp only [Hv.injectTimer]
  split_ifs <;> rfl

theorem deliverSgi_cntp : (h.deliverSgi c).cntp = h.cntp := by
  simp only [Hv.deliverSgi]
  rcases vgicPopSgi c.val h.vgic with ⟨_ | k, g⟩ <;> rfl

theorem keyIn_cntp (key : Option U8) : (h.keyIn key).cntp = h.cntp := by
  simp only [Hv.keyIn]
  split
  · rfl
  · split_ifs <;> rfl

/-- A trapped system register that is not a timer register leaves the timers. -/
theorem enter_cntpEmulate_other {e : Event} (hk : e.ctx.exitKind = .sysreg)
    (hi : e.ctx.isCntp = false) : (cntpEmulate c c (h.enter c e)).cntp = h.cntp :=
  cntpEmulate_other c (by rw [enter_vcpus_self]; exact hk) (by rw [enter_vcpus_self]; exact hi)

theorem readyReal_cntp (s : Tenants) : s.readyReal.hv.cntp = s.hv.cntp := by
  simp only [Tenants.readyReal]
  split_ifs <;> rfl

theorem readyOs_cntp (s : Tenants) : s.readyOs.hv.cntp = s.hv.cntp := by
  simp only [Tenants.readyOs]
  split_ifs
  · exact injectTimer_cntp
  · rfl

theorem ready_cntp (img : Image) (key : Option U8) (s : Smp) :
    (s.ready img key).hv.cntp = s.hv.cntp := by
  simp only [Smp.ready, deliverSgi_cntp, keyIn_cntp, Smp.bringUp]
  split_ifs <;> rfl

end Handlers

/-- `mtenant_real_demo`. -/
def mtenantRealTimer : TimerLoop where
  S := Tenants
  loop := mtenantRealDemo
  hv := Tenants.hv
  cur := Tenants.cur
  traps := fun e _ => e.ctx.isCntp
  next_traps := fun e s hi => by
    have hk := (isCntp_iff.mp hi).1
    let h := s.readyReal.hv.enter s.cur e
    refine ⟨hi, h, { s.readyReal with hv := cntpEmulate s.cur s.cur h }, readyReal_cntp s, ?_, ?_,
      rfl⟩
    · simp only [h, enter_vcpus_self, vcpuRunOnce_ctx]
    · simp only [mtenantRealDemo, enter_vcpus_self, vcpuRunOnce_ctx, hk, h]
  next_other := fun e s t hi hb => by
    have hpass := mtenantRealDemo_body_cases (e := e) (s := s)
      (P := fun h => h.cntp = s.readyReal.hv.cntp) rfl (fun _ => abort_cntp _ _ _)
      (fun hk => enter_cntpEmulate_other hk hi) psciHandle_cntp
    rw [hb, readyReal_cntp] at hpass
    exact hpass

/-- `mtenant_os_demo`. -/
def mtenantOsTimer : TimerLoop where
  S := Tenants
  loop := mtenantOsDemo
  hv := Tenants.hv
  cur := Tenants.cur
  traps := fun e s => !(s.readyOs.hv.vcpus s.cur).halted && e.ctx.isCntp
  next_traps := fun e s hi => by
    rw [Bool.and_eq_true, Bool.not_eq_true'] at hi
    have hk := (isCntp_iff.mp hi.2).1
    let h := s.readyOs.hv.enter s.cur e
    refine ⟨hi.2, h, { s.readyOs with hv := cntpEmulate s.cur s.cur h }, readyOs_cntp s, ?_, ?_,
      rfl⟩
    · simp only [h, enter_vcpus_self, vcpuRunOnce_ctx]
    · simp only [mtenantOsDemo, enter_vcpus_self, vcpuRunOnce_ctx, vcpuRunOnce_halted, hi.1, hk,
        Bool.false_eq_true, if_false, h]
  next_other := fun e s t hi hb => by
    have hcntp : (s.readyOs.hv.vcpus s.cur).halted = false → e.ctx.isCntp = false := by
      intro hrun
      rwa [hrun, Bool.not_false, Bool.true_and] at hi
    have hpass := mtenantOsDemo_body_cases (e := e) (s := s)
      (P := fun h => h.cntp = s.readyOs.hv.cntp) rfl (fun _ _ => abort_cntp _ _ _)
      (fun hrun hk => enter_cntpEmulate_other hk (hcntp hrun)) psciHandle_cntp psciHandle_cntp
    rw [hb, readyOs_cntp] at hpass
    exact hpass

/-- `linux_vgic_boot`. -/
def linuxTimer (img : Image) : TimerLoop where
  S := Smp
  loop := linuxVgicBoot img
  hv := Smp.hv
  cur := Smp.cur
  traps := fun e s => decide (s.GoesOn img e) && e.ctx.isCntp
  next_traps := fun e s hi => by
    rw [Bool.and_eq_true, decide_eq_true_eq] at hi
    obtain ⟨hk, hcrn, -⟩ := isCntp_iff.mp hi.2
    refine ⟨hi.2, (s.exited img e).hv, _, ready_cntp img e.key s, Smp.exited_ctx img e s,
      linuxVgicBoot_body_next hi.1.1 hi.1.2, ?_⟩
    have h12 : ¬ issCrn (esrIss e.ctx.exitEsr) = 12 := by
      rw [hcrn]
      decide
    simp only [Hv.linuxExit, hk, if_neg h12]
  next_other := fun e s t hi hb => by
    obtain ⟨hgo, hhv, -⟩ := linuxVgicBoot_next_inv hb
    simp only [hgo, decide_true, Bool.true_and] at hi
    have hcntp : (s.exited img e).hv.cntp = s.hv.cntp := ready_cntp img e.key s
    have hctx := Smp.exited_ctx img e s
    rw [hhv, ← hcntp]
    refine linuxExit_cases (P := fun h => h.cntp = (s.exited img e).hv.cntp) rfl injectTimer_cntp
      (fun _ => abort_cntp _ _ _) rfl (fun hk => ?_) psciHandle_cntp psciHandle_cntp
    exact cntpEmulate_other _ (by rw [hctx]; exact hk) (by rw [hctx]; exact hi)

/-- The time-sliced loops that trap only the physical timer. -/
def timerLoops (img : Image) : List TimerLoop :=
  [mtenantRealTimer, linuxTimer img, mtenantOsTimer]

/-! ## 5. Reading back -/

/-- The register is trapped. -/
def TimerReg.isTrapped : TimerReg → Bool
  | .cntp _ => true
  | .cntv _ => false

/-- Two accesses share a cell if they are to one register and, for a trapped one, by
one vCPU. -/
theorem timerCell_eq_iff {c d : Fin 2} {r r' : TimerReg} : timerCell d r' = timerCell c r ↔
    (r.isTrapped = true → d = c) ∧ r' = r := by
  cases r <;> cases r' <;> simp [timerCell, TimerReg.isTrapped]

/-- A vCPU that reads a register it has written finds its last value. -/
def ReadsOwn (as : List TimerAccess) : Prop :=
  ∀ pre a post w, as = pre ++ a :: post → a.isWrite = false →
    lastWrite (fun b => decide (b.who = a.who ∧ b.reg = a.reg)) pre = some w → a.val = w

/-- In every run of the three loops: a read by a vCPU that has written the register
returns what it last wrote if and only if the register is trapped or the last value
that either vCPU has written to it is the same. -/
theorem timer_read_iff (img : Image) : ∀ L ∈ timerLoops img, ∀ (s : L.S) (p : Phys)
    (es : List TimerEvent) (pre post : List TimerAccess) (a : TimerAccess) (w : U64),
    L.trace (s, p) es = pre ++ a :: post → a.isWrite = false →
    lastWrite (fun b => decide (b.who = a.who ∧ b.reg = a.reg)) pre = some w →
    (a.val = w ↔
      a.reg.isTrapped = true ∨ lastWrite (fun b => decide (b.reg = a.reg)) pre = some w) := by
  intro L _ s p es pre post a w htrace hread hown
  have hco := L.trace_coherent (s, p) es
  rw [htrace] at hco
  rw [AccessTrace.read_own_iff hco hread hown]
  simp only [timerCell_eq_iff]
  cases ht : a.reg.isTrapped with
  | true =>
    simp only [true_imp_iff, true_or, iff_true]
    exact hown
  | false => simp only [Bool.false_eq_true, false_imp_iff, true_and, false_or]

/-- `mtenant_os_demo` at its start. -/
def osTimerStart : Tenants × Phys :=
  (mtenantOsDemoStart exampleImage (resetHv exampleImage 0), fun _ => 0)

/-- vCPU 0 acts, its slices end, vCPU 1 acts in its slice, and vCPU 0 acts again. -/
def inTurns (e0 e1 e0' : TimerEvent) : List TimerEvent :=
  let tick : TimerEvent := ⟨timerExit, []⟩
  [e0, tick, tick, tick, tick, e1, tick, e0']

/-- Both write `CNTP_CVAL_EL0`; vCPU 0 reads back its own value. -/
theorem timer_read_trapped :
    let es := inTurns ⟨syncExit 0x6234F804 5, []⟩ ⟨syncExit 0x6234F804 9, []⟩
      ⟨syncExit 0x6234F805 0, []⟩
    let w0 : TimerAccess := ⟨0, .cntp .cval, true, 5⟩
    let w1 : TimerAccess := ⟨1, .cntp .cval, true, 9⟩
    ∃ a : TimerAccess, mtenantOsTimer.trace osTimerStart es = [w0, w1, a] ∧ a.who = 0 ∧
      a.isWrite = false ∧ a.val = 5 := by
  intro es w0 w1
  let a : TimerAccess := ⟨0, .cntp .cval, false, 5⟩
  have htrace : mtenantOsTimer.trace osTimerStart es = [w0, w1] ++ a :: [] := by decide +kernel
  have hmem : mtenantOsTimer ∈ timerLoops exampleImage :=
    List.mem_cons_of_mem _ (List.mem_cons_of_mem _ List.mem_cons_self)
  have hiff := timer_read_iff exampleImage mtenantOsTimer hmem osTimerStart.1 osTimerStart.2 es
    [w0, w1] [] a 5 htrace rfl (by decide)
  exact ⟨a, htrace, rfl, rfl, hiff.mpr (.inl rfl)⟩

/-- Both write `CNTV_CVAL_EL0`; vCPU 0 reads the value of vCPU 1. -/
theorem other_timer_is_read :
    let spurious := { timerExit with iar := 1023 }
    let es := inTurns ⟨spurious, [(.cval, some 5)]⟩ ⟨spurious, [(.cval, some 9)]⟩
      ⟨spurious, [(.cval, none)]⟩
    ¬ ReadsOwn (mtenantOsTimer.trace osTimerStart es) := by
  intro spurious es hown
  have htrace : mtenantOsTimer.trace osTimerStart es =
      [⟨0, .cntv .cval, true, 5⟩, ⟨1, .cntv .cval, true, 9⟩] ++
        ⟨0, .cntv .cval, false, 9⟩ :: [] := by decide +kernel
  have hval := hown _ _ _ 5 htrace rfl (by decide)
  exact absurd hval (by decide)

end FermiHV
