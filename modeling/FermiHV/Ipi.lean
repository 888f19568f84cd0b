import FermiHV.ListRegs
import FermiHV.Loops

/-!
# Inter-processor interrupts under `linux_vgic_boot`

A vCPU sends an SGI by a trapped write to `ICC_SGI1R_EL1`; the loop records it in
`g_sgi_pending` of the other vCPUs, and before it enters a vCPU it moves one
pending SGI into a list register. The guest then works on the list registers
through the virtual CPU interface: it acknowledges (pending to active) and ends
(active to idle) interrupts.

`vgic_pop_sgi` clears the pending bit before `vgic_inject` looks at the list
registers, and `vgic_inject` keeps what it finds there: it does nothing when a
slot holds the INTID, also if only as active, and drops the interrupt when no slot
is free. `ipi_kept` says that an SGI stays recorded until the target acknowledges
it or such a drop happens; `active_sgi_is_dropped` is a run in which the second
of two SGIs is lost that way.
-/

namespace FermiHV

open RunLoop (Flow Loop)

/-! ## 1. The loop with guests that use their list registers -/

/-- One pass: what comes from outside, and the guest's steps on the list
registers while it runs. -/
structure IpiEvent where
  ev : Event
  steps : List LrStep

/-- The list registers with which the guest is entered in a pass from `s`. -/
def entryLrs (img : Image) (e : IpiEvent) (s : Smp) : Lrs :=
  ((s.ready img e.ev.key).hv.vcpus s.cur).ichLr

/-- The exit of the pass: the guest leaves the list registers as its steps make
them. -/
def IpiEvent.exit (img : Image) (e : IpiEvent) (s : Smp) : Event :=
  { e.ev with ctx := { e.ev.ctx with ichLr := runLrs e.steps (entryLrs img e s) } }

/-- `linux_vgic_boot` over guests that follow the list-register state machine. -/
def ipiLoop (img : Image) : Loop Smp IpiEvent where
  cond := (linuxVgicBoot img).cond
  body := fun e s => (linuxVgicBoot img).body (e.exit img s) s

/-- The bit of `k` in `g_sgi_pending[c]`. -/
def sgiBit (c : Fin 2) (k : U32) (h : Hv) : Bool :=
  h.vgic.sgiPending c.val &&& (1#32 <<< k.toNat) ≠ 0

/-- `k` is recorded for vCPU `c`. -/
def Recorded (c : Fin 2) (k : U32) (h : Hv) : Prop :=
  sgiBit c k h = true ∨ ∃ i, lrPends k ((h.vcpus c).ichLr i) = true

instance (c : Fin 2) (k : U32) (h : Hv) : Decidable (Recorded c k h) :=
  inferInstanceAs (Decidable (_ ∨ _))

/-- The pass ends with `k` being sent to `c`. -/
def Sends (c : Fin 2) (k : U32) (e : IpiEvent) (s : Smp) : Prop :=
  c ≠ s.cur ∧ e.ev.ctx.exitKind = .sysreg ∧ issCrn (esrIss e.ev.ctx.exitEsr) = 12 ∧
    e.ev.ctx.sgiIntid = k

/-- vCPU `c` runs in the pass and acknowledges `k`. -/
def Acks (img : Image) (c : Fin 2) (k : U32) (e : IpiEvent) (s : Smp) : Prop :=
  s.cur = c ∧ acksIn k e.steps (entryLrs img e s) = true

instance (c : Fin 2) (k : U32) (e : IpiEvent) (s : Smp) : Decidable (Sends c k e s) :=
  inferInstanceAs (Decidable (_ ∧ _))

instance (img : Image) (c : Fin 2) (k : U32) (e : IpiEvent) (s : Smp) :
    Decidable (Acks img c k e s) :=
  inferInstanceAs (Decidable (_ ∧ _))

/-- The hypervisor state in which an SGI is popped. -/
def Smp.keyed (img : Image) (key : Option U8) (s : Smp) : Hv := (s.bringUp img).hv.keyIn key

/-- `vgic_inject` declines `k` although no slot has it pending: a slot has it
active, or all four are in use. -/
def Declines (k : U32) (lrs : Lrs) : Prop :=
  (∀ i, lrPends k (lrs i) = false) ∧ ((∃ i, lrHolds k (lrs i) = true) ∨ freeSlot lrs = none)

/-- The pass pops `k` for `c` and `vgic_inject` declines it. -/
def Drops (img : Image) (c : Fin 2) (k : U32) (e : IpiEvent) (s : Smp) : Prop :=
  let h := s.keyed img e.ev.key
  s.cur = c ∧ (vgicPopSgi c.val h.vgic).1 = some k.toNat ∧ Declines k (h.vcpus c).ichLr

/-- Along the run, `k` sent to `c` by the pass `e` after `pre` is still recorded
after `mid`, or a pass of `mid` meets `stop`. -/
def IpiKept (img : Image) (s0 : Smp) (c : Fin 2) (k : U32) (stop : IpiEvent → Smp → Prop)
    (pre : List IpiEvent) (e : IpiEvent) (mid : List IpiEvent) : Prop :=
  ∀ s s1 s2, (ipiLoop img).after s0 pre = some s → Sends c k e s →
    (ipiLoop img).after s [e] = some s1 → (ipiLoop img).after s1 mid = some s2 →
    Recorded c k s2.hv ∨ ∃ p ∈ (ipiLoop img).iters s1 mid, stop p.2 p.1

/-! ## 2. Steps that lose nothing -/

theorem sgiBit_iff {c : Fin 2} {k : U32} {h : Hv} :
    sgiBit c k h = true ↔ (h.vgic.sgiPending c.val).getLsbD k.toNat = true := by
  rw [sgiBit, decide_eq_true_eq]
  exact Bits.and_one_shl_ne_zero_iff _ _

/-- No pending bit is cleared and no list register in use is changed. -/
structure KeepsIpi (h h' : Hv) : Prop where
  bit : ∀ c k, sgiBit c k h = true → sgiBit c k h' = true
  lr : ∀ c i, lrState ((h.vcpus c).ichLr i) ≠ 0 → (h'.vcpus c).ichLr i = (h.vcpus c).ichLr i

theorem KeepsIpi.trans {h h' h'' : Hv} (h1 : KeepsIpi h h') (h2 : KeepsIpi h' h'') :
    KeepsIpi h h'' where
  bit := fun c k hb => h2.bit c k (h1.bit c k hb)
  lr := fun c i hs => by
    have he := h1.lr c i hs
    rw [h2.lr c i (by rw [he]; exact hs), he]

/-- A step that changes neither is one. -/
theorem KeepsIpi.of_eq {h h' : Hv} (hg : h'.vgic.sgiPending = h.vgic.sgiPending)
    (hv : ∀ c, (h'.vcpus c).ichLr = (h.vcpus c).ichLr) : KeepsIpi h h' where
  bit := fun c k hb => by rwa [sgiBit, hg]
  lr := fun c i _ => by rw [hv]

theorem KeepsIpi.recorded {h h' : Hv} (hk : KeepsIpi h h') {c : Fin 2} {k : U32}
    (hr : Recorded c k h) : Recorded c k h' := by
  rcases hr with hb | ⟨i, hi⟩
  · exact .inl (hk.bit c k hb)
  · refine .inr ⟨i, ?_⟩
    rw [hk.lr c i (lrState_ne_zero_of_pends hi)]
    exact hi

section Handlers

variable {c : Fin 2} {h : Hv}

theorem keepsIpi_skip : KeepsIpi h (h.skip c) := .of_eq rfl fun _ => setVcpu_ichLr rfl

theorem keepsIpi_inject (k : U32) : KeepsIpi h (h.inject c k) where
  bit := fun _ _ hb => hb
  lr := by
    intro d i hs
    by_cases hd : d = c
    · subst hd
      rw [Hv.inject, setVcpu_vcpus_self, vgicInject_ichLr hs]
    · rw [Hv.inject, setVcpu_vcpus_of_ne _ hd]

theorem keepsIpi_injectTimer : KeepsIpi h (h.injectTimer c) := by
  unfold Hv.injectTimer
  split_ifs
  · exact keepsIpi_inject 30
  · exact keepsIpi_inject 27
  · exact .of_eq rfl fun _ => rfl

theorem keepsIpi_psciHandle : KeepsIpi h (psciHandle c h) := by
  refine .of_eq ?_ fun _ => psciHandle_ichLr
  simp only [psciHandle]
  split_ifs <;> rfl

theorem keepsIpi_cntpEmulate (vm : Fin 2) : KeepsIpi h (cntpEmulate vm c h) := by
  refine .of_eq ?_ fun _ => cntpEmulate_ichLr vm
  simp only [cntpEmulate]
  split_ifs <;> rfl

theorem regWrite_sgiPending (vm : Int) (r : U64) (val : U32) (g : Vgic) :
    (regWrite vm r val g).sgiPending = g.sgiPending := by
  simp only [regWrite]
  split_ifs <;> rfl

theorem vgicMmio_sgiPending (vm : Int) (v : Vcpu) (ipa : U64) (g : Vgic) :
    (vgicMmio vm v ipa g).2.sgiPending = g.sgiPending := by
  simp only [vgicMmio]
  split_ifs <;> simp [regWrite_sgiPending]

theorem keepsIpi_abort (vm : Int) (ipa : U64) (a : AbortAction) :
    KeepsIpi h (h.abort vm c ipa a) := by
  refine .of_eq ?_ fun _ => abort_ichLr vm ipa a
  cases a with
  | vgic => exact vgicMmio_sgiPending vm (h.vcpus c) ipa h.vgic
  | vuart | fault | zero | skip | report => rfl

theorem keepsIpi_keyIn (key : Option U8) : KeepsIpi h (h.keyIn key) := by
  cases key with
  | none => exact .of_eq rfl fun _ => rfl
  | some ch =>
    simp only [Hv.keyIn]
    split_ifs
    · refine .trans ?_ (keepsIpi_inject 33)
      exact .of_eq rfl fun _ => rfl
    · exact .of_eq rfl fun _ => rfl

theorem postSgi_ichLr : ((h.postSgi c).vcpus d).ichLr = (h.vcpus d).ichLr := by
  rw [Hv.postSgi, Hv.skip, setVcpu_ichLr (skip_ichLr _)]

theorem keepsIpi_postSgi : KeepsIpi h (h.postSgi c) := by
  refine .trans ?_ keepsIpi_skip
  refine ⟨fun d k hb => ?_, fun _ _ _ => rfl⟩
  rw [sgiBit_iff] at hb ⊢
  simp only [vgicPostSgi]
  split_ifs
  · rw [BitVec.getLsbD_or, hb, Bool.true_or]
  · exact hb

theorem keepsIpi_linuxExit {e : Event} : KeepsIpi h (h.linuxExit c e) :=
  linuxExit_cases (.of_eq rfl fun _ => rfl) keepsIpi_injectTimer
    (fun _ => keepsIpi_abort _ _ _) keepsIpi_postSgi (fun _ => keepsIpi_cntpEmulate _)
    keepsIpi_psciHandle (keepsIpi_psciHandle.trans keepsIpi_skip)

theorem toNat_sgiIntid_lt (g : GuestCtx) : g.sgiIntid.toNat < 16 := by
  have hmask : ∀ x : U64, (x &&& 0xF).toNat = x.toNat % 2 ^ 4 :=
    fun x => Bits.toNat_and_mask x (k := 4) (by omega)
  rw [GuestCtx.sgiIntid, BitVec.toNat_setWidth, hmask]
  omega

/-- Sending sets one pending bit of every other vCPU. -/
theorem sgiBit_postSgi_iff {d : Fin 2} {k : U32} : sgiBit d k (h.postSgi c) = true ↔
    sgiBit d k h = true ∨ (d ≠ c ∧ k = (h.vcpus c).sgiIntid) := by
  have hlt := toNat_sgiIntid_lt (h.vcpus c).toGuestCtx
  have hmask : ((h.vcpus c).sgiIntid &&& 0x1F).toNat = (h.vcpus c).sgiIntid.toNat := by
    have hm : ((h.vcpus c).sgiIntid &&& 0x1F).toNat = (h.vcpus c).sgiIntid.toNat % 2 ^ 5 :=
      Bits.toNat_and_mask _ (k := 5) (by omega)
    rw [hm]
    omega
  have hk : k = (h.vcpus c).sgiIntid ↔ k.toNat = (h.vcpus c).sgiIntid.toNat :=
    ⟨fun he => by rw [he], BitVec.eq_of_toNat_eq⟩
  have hmax : vgicMaxVcpus = 4 := rfl
  rw [sgiBit_iff, sgiBit_iff, hk]
  change BitVec.getLsbD (if _ then _ else _) _ = true ↔ _
  by_cases hd : d = c
  · subst hd
    rw [if_neg fun hne => hne.2.2 rfl]
    exact ⟨.inl, fun hor => hor.resolve_right fun hne => hne.1 rfl⟩
  · rw [if_pos (by omega), BitVec.getLsbD_or, hmask, Bits.getLsbD_one_shl, Bool.or_eq_true]
    refine or_congr_right ?_
    simp only [Bool.and_eq_true, decide_eq_true_eq]
    exact ⟨fun hb => ⟨hd, hb.2⟩, fun hb => ⟨by omega, hb.2⟩⟩

end Handlers

/-! ## 3. One pass -/

theorem inject_pends_or_declines (c : Fin 2) (k : U32) (h : Hv) :
    (∃ i, lrPends k (((h.inject c k).vcpus c).ichLr i) = true) ∨
      Declines k (h.vcpus c).ichLr := by
  by_cases hp : ∃ i, lrPends k ((h.vcpus c).ichLr i) = true
  · obtain ⟨i, hi⟩ := hp
    refine .inl ⟨i, ?_⟩
    rw [(keepsIpi_inject k).lr c i (lrState_ne_zero_of_pends hi)]
    exact hi
  · have hnone : ∀ i, lrPends k ((h.vcpus c).ichLr i) = false := by
      simpa using hp
    by_cases hholds : ∃ i, lrHolds k ((h.vcpus c).ichLr i) = true
    · exact .inr ⟨hnone, .inl hholds⟩
    · cases hs : freeSlot (h.vcpus c).ichLr with
      | none => exact .inr ⟨hnone, .inr hs⟩
      | some j =>
        refine .inl ⟨j, ?_⟩
        rw [Hv.inject, setVcpu_vcpus_self]
        exact vgicInject_pends hholds hs

/-- Delivery to `c` keeps every interrupt recorded for it, or `vgic_inject`
declines the one that was popped. -/
theorem recorded_deliverSgi {c : Fin 2} {k : U32} {h : Hv} (hr : Recorded c k h) :
    Recorded c k (h.deliverSgi c) ∨
      ((vgicPopSgi c.val h.vgic).1 = some k.toNat ∧ Declines k (h.vcpus c).ichLr) := by
  rcases vgicPopSgi_cases c.val h.vgic with hpop | ⟨b, -, hpop⟩
  · left
    simp only [Hv.deliverSgi, hpop]
    exact hr
  · simp only [Hv.deliverSgi, hpop]
    by_cases hb : b = k.toNat
    · subst hb
      rw [BitVec.ofNat_toNat, BitVec.setWidth_eq]
      rcases inject_pends_or_declines c k { h with vgic := _ } with hp | hd
      · exact .inl (.inr hp)
      · exact .inr ⟨rfl, hd⟩
    · left
      refine (keepsIpi_inject (BitVec.ofNat 32 b)).recorded ?_
      refine hr.imp_left fun hbit => ?_
      rw [sgiBit_iff] at hbit ⊢
      have hlt : k.toNat < 32 := by
        by_contra hge
        rw [BitVec.getLsbD_of_ge _ _ (by omega)] at hbit
        cases hbit
      simp only [Function.update_self, BitVec.getLsbD_and, hbit, BitVec.getLsbD_not, hlt,
        Bits.getLsbD_one_shl]
      simp [Ne.symm hb]

/-- Delivery to another vCPU changes nothing that is recorded for `c`. -/
theorem recorded_deliverSgi_of_ne {c d : Fin 2} {h : Hv} (hne : c ≠ d) :
    (h.deliverSgi d).vgic.sgiPending c.val = h.vgic.sgiPending c.val ∧
      (h.deliverSgi d).vcpus c = h.vcpus c := by
  have hval : (c.val : Int) ≠ d.val := by omega
  rcases vgicPopSgi_cases d.val h.vgic with hpop | ⟨b, -, hpop⟩
  · simp only [Hv.deliverSgi, hpop, and_self]
  · simp only [Hv.deliverSgi, hpop, Hv.inject, setVcpu_vgic, setVcpu_vcpus_of_ne _ hne,
      Function.update_of_ne hval, and_self]

/-- Which vCPU a pass can be about: vCPU 1 only once it has been brought up. -/
def Smp.Ok (s : Smp) : Prop := s.ncpu = 2 ∨ (s.ncpu = 1 ∧ s.cur = 0)

/-- `k` is recorded for `c` in a place that bringing up vCPU 1 does not reset. -/
def Held (c : Fin 2) (k : U32) (s : Smp) : Prop :=
  sgiBit c k s.hv = true ∨
    ((c = 0 ∨ s.ncpu = 2) ∧ ∃ i, lrPends k ((s.hv.vcpus c).ichLr i) = true)

section Pass

variable {img : Image} {c : Fin 2} {k : U32} {s : Smp}

theorem Held.recorded (h : Held c k s) : Recorded c k s.hv := h.imp_right fun hp => hp.2

theorem held_of_cur (hok : s.Ok) (hr : Recorded s.cur k s.hv) : Held s.cur k s := by
  refine hr.imp_right fun hp => ⟨?_, hp⟩
  rcases hok with h2 | ⟨_, h0⟩
  · exact .inr h2
  · exact .inl h0

theorem KeepsIpi.held {s' : Smp} (hk : KeepsIpi s.hv s'.hv) (hn : s'.ncpu = s.ncpu)
    (h : Held c k s) : Held c k s' := by
  rcases h with hb | ⟨hup, i, hi⟩
  · exact .inl (hk.bit c k hb)
  · refine .inr ⟨by rwa [hn], i, ?_⟩
    rw [hk.lr c i (lrState_ne_zero_of_pends hi)]
    exact hi

theorem ok_bringUp (hok : s.Ok) : (s.bringUp img).Ok := by
  unfold Smp.bringUp
  split_ifs
  · exact .inl rfl
  · exact hok

theorem ok_ready {key : Option U8} (hok : s.Ok) : (s.ready img key).Ok := ok_bringUp hok

theorem held_bringUp (h : Held c k s) : Held c k (s.bringUp img) := by
  by_cases hup : (s.hv.psciOn.pending && decide (s.ncpu < 2)) = true
  · have hb : s.bringUp img = { s with hv := s.hv.cpuOn img 0, ncpu := 2 } := if_pos hup
    rw [hb]
    rcases h with hbit | ⟨hwhich, i, hi⟩
    · exact .inl hbit
    · -- `vcpus[1]` is reset, but nothing is in its list registers before that
      have hc : c = 0 := by
        rcases hwhich with h0 | h2
        · exact h0
        · simp [h2] at hup
      refine .inr ⟨.inl hc, i, ?_⟩
      have hsame : (s.hv.cpuOn img 0).vcpus c = s.hv.vcpus c :=
        setVcpu_vcpus_of_ne _ (by rw [hc]; decide)
      rw [hsame]
      exact hi
  · have hb : s.bringUp img = s := if_neg hup
    rwa [hb]

/-- Up to the entry of the guest: an interrupt that is held stays so or is
dropped. -/
theorem held_ready {e : IpiEvent} (hok : s.Ok) (h : Held c k s) :
    Held c k (s.ready img e.ev.key) ∨ Drops img c k e s := by
  -- the state in which the interrupt is popped
  let p : Smp := { s.bringUp img with hv := s.keyed img e.ev.key }
  have hp : Held c k p :=
    KeepsIpi.held (s := s.bringUp img) (keepsIpi_keyIn e.ev.key) rfl (held_bringUp h)
  by_cases hcur : c = s.cur
  · subst hcur
    rcases recorded_deliverSgi hp.recorded with hr | hd
    · have hr' : Recorded (s.ready img e.ev.key).cur k (s.ready img e.ev.key).hv := by
        simp only [Smp.ready, Smp.bringUp_cur]
        exact hr
      have hheld := held_of_cur (ok_ready hok) hr'
      rw [Smp.ready_cur] at hheld
      exact .inl hheld
    · exact .inr ⟨rfl, hd⟩
  · left
    have hother : c ≠ (s.bringUp img).cur := by rwa [Smp.bringUp_cur]
    obtain ⟨hsgi, hv⟩ := recorded_deliverSgi_of_ne (h := p.hv) hother
    rcases hp with hbit | ⟨hup, i, hi⟩
    · rw [sgiBit_iff] at hbit
      refine .inl (sgiBit_iff.mpr ?_)
      exact hsgi ▸ hbit
    · refine .inr ⟨hup, i, ?_⟩
      exact hv ▸ hi

/-- Over the run of the guest, unless the vCPU acknowledges the interrupt. -/
theorem held_enter {e : IpiEvent} (h : Held c k (s.ready img e.ev.key)) :
    Held c k (s.exited img (e.exit img s)) ∨ Acks img c k e s := by
  rcases h with hbit | ⟨hup, i, hi⟩
  · exact .inl (.inl hbit)
  · by_cases hcur : c = s.cur
    · subst hcur
      cases hack : acksIn k e.steps (entryLrs img e s) with
      | true => exact .inr ⟨rfl, hack⟩
      | false =>
        refine .inl (.inr ⟨hup, i, ?_⟩)
        rw [Smp.exited, enter_vcpus_self]
        exact lrPends_runLrs hi hack
    · refine .inl (.inr ⟨hup, i, ?_⟩)
      rw [Smp.exited, Hv.enter, setVcpu_vcpus_of_ne _ hcur]
      exact hi

/-- After the exit nothing is lost, and only a tick of two vCPUs switches. -/
theorem linuxVgicBoot_next {e : Event} {s' : Smp}
    (hb : (linuxVgicBoot img).body e s = .next s') :
    KeepsIpi (s.exited img e).hv s'.hv ∧ s'.ncpu = (s.exited img e).ncpu ∧
      (s'.cur = s.cur ∨ s'.ncpu = 2) := by
  by_cases hgo : s.GoesOn img e
  · rw [linuxVgicBoot_body_next hgo.1 hgo.2] at hb
    cases hb
    refine ⟨keepsIpi_linuxExit, rfl, ?_⟩
    by_cases htick : e.ctx.exitKind = .irq ∧ e.timerTick = true ∧ (s.exited img e).ncpu = 2
    · exact .inr htick.2.2
    · exact .inl (if_neg htick)
  · rw [not_goesOn hgo] at hb
    cases hb

/-- One pass keeps what is held for a vCPU, acknowledges it or drops it. -/
theorem held_pass {e : IpiEvent} {s' : Smp} (hok : s.Ok) (h : Held c k s)
    (hb : (ipiLoop img).body e s = .next s') :
    Held c k s' ∨ Acks img c k e s ∨ Drops img c k e s := by
  obtain ⟨hkeeps, hn, _⟩ := linuxVgicBoot_next hb
  rcases held_ready hok h with hready | hdrop
  · rcases held_enter hready with henter | hack
    · exact .inl (hkeeps.held hn henter)
    · exact .inr (.inl hack)
  · exact .inr (.inr hdrop)

theorem ok_pass {e : IpiEvent} {s' : Smp} (hok : s.Ok)
    (hb : (ipiLoop img).body e s = .next s') : s'.Ok := by
  obtain ⟨_, hn, hcur⟩ := linuxVgicBoot_next hb
  rcases hcur with hsame | h2
  · have hready : (s.ready img e.ev.key).Ok := ok_ready hok
    rcases hready with h2 | ⟨h1, h0⟩
    · exact .inl (hn.trans h2)
    · rw [Smp.ready_cur] at h0
      exact .inr ⟨hn.trans h1, hsame.trans h0⟩
  · exact .inl h2

/-- A send sets the pending bit of its target. -/
theorem held_send {e : IpiEvent} {s' : Smp} (hsend : Sends c k e s)
    (hb : (ipiLoop img).body e s = .next s') : Held c k s' := by
  obtain ⟨hne, hkind, hcrn, hk⟩ := hsend
  have hpost : s'.hv = (s.exited img (e.exit img s)).hv.postSgi s.cur := by
    have hstate : ((linuxVgicBoot img).body (e.exit img s) s).state = s' := congrArg Flow.state hb
    have hgo : s.GoesOn img (e.exit img s) := by
      by_contra hno
      change (linuxVgicBoot img).body (e.exit img s) s = _ at hb
      rw [not_goesOn hno] at hb
      cases hb
    have hkind' : (e.exit img s).ctx.exitKind = .sysreg := hkind
    have hcrn' : issCrn (esrIss (e.exit img s).ctx.exitEsr) = 12 := hcrn
    rw [← hstate, linuxVgicBoot_body_hv, if_pos hgo]
    simp only [Hv.linuxExit, hkind', if_pos hcrn']
  have hbit := (sgiBit_postSgi_iff (h := (s.exited img (e.exit img s)).hv)).mpr (.inr ⟨hne, rfl⟩)
  have hintid : ((s.exited img (e.exit img s)).hv.vcpus s.cur).sgiIntid = k := by
    rw [Smp.exited, enter_vcpus_self]
    exact hk
  rw [hintid, ← hpost] at hbit
  exact .inl hbit

end Pass

/-! ## 4. Whole runs -/

/-- From the start of the loop, an SGI sent to a vCPU is recorded in
`g_sgi_pending` or pending in a list register until the vCPU acknowledges it or
`vgic_inject` declines it. -/
theorem ipi_kept (img : Image) (hv : Hv) (c : Fin 2) (k : U32) (pre : List IpiEvent) (e : IpiEvent)
    (mid : List IpiEvent) :
    IpiKept img { hv, ncpu := 1, cur := 0 } c k
      (fun e s => Acks img c k e s ∨ Drops img c k e s) pre e mid := by
  intro s s1 s2 hpre hsend he hmid
  have hok : s.Ok :=
    RunLoop.Loop.after_of_invariant (fun _ _ _ h hb => ok_pass h hb) (.inr ⟨rfl, rfl⟩) hpre
  have hb := RunLoop.Loop.body_of_after_singleton he
  -- what a pass keeps: the shape of the state, and the interrupt unless the pass is of the kind
  have hpass : ∀ (i : IpiEvent) (t t' : Smp), t.Ok ∧ Held c k t →
      (ipiLoop img).body i t = .next t' →
      (t'.Ok ∧ Held c k t') ∨ (Acks img c k i t ∨ Drops img c k i t) := by
    rintro i t t' ⟨htok, ht⟩ hbody
    exact (held_pass htok ht hbody).imp_left fun hh => ⟨ok_pass htok hbody, hh⟩
  have hkept := RunLoop.Loop.after_or_stopped hpass ⟨ok_pass hok hb, held_send hsend hb⟩ hmid
  exact hkept.imp_left fun h => h.2.recorded

/-- A pass that ends with a write to `ICC_SGI1R_EL1` of INTID 1. -/
def sendSgi1 : IpiEvent where
  ev := syncExit 0x60003000 0x1000000
  steps := []

/-- A pass of a vCPU that stores `val` to `ipa`. -/
def storePass (ipa val : U64) (steps : List LrStep) : IpiEvent where
  ev :=
    { abortExit 0x93800040 ipa with
      ctx := { (abortExit 0x93800040 ipa).ctx with x := Function.update (fun _ => 0) 0 val } }
  steps

/-- A pass that ends with a physical interrupt, the guest having made `steps`. -/
def irqPass (iar : U64) (steps : List LrStep) : IpiEvent where
  ev := { ctx := { zeroCtx with exitReason := 9 }, iar, key := none }
  steps

/-- vCPU 0 starts vCPU 1 and sends it SGI 1; vCPU 1 acknowledges it and is
preempted inside its handler. -/
def preemptedHandler : List IpiEvent :=
  [{ ev := syncExit 0x58000000 0xC4000003, steps := [] }, sendSgi1, irqPass 26 [],
    irqPass 26 [.ack 0]]

/-- The slice ends after the second send, and vCPU 1 runs without acknowledging
anything. -/
def nextSlice : List IpiEvent := [irqPass 26 [], irqPass 1023 []]

/-- The second SGI is popped while the first one is still active, and is lost. -/
theorem active_sgi_is_dropped :
    ¬ IpiKept exampleImage { hv := resetHv exampleImage 0x40080000, ncpu := 1, cur := 0 } 1 1
      (Acks exampleImage 1 1) preemptedHandler sendSgi1 nextSlice := by
  let s0 : Smp := { hv := resetHv exampleImage 0x40080000, ncpu := 1, cur := 0 }
  let s := ((ipiLoop exampleImage).after s0 preemptedHandler).getD s0
  let s1 := ((ipiLoop exampleImage).after s [sendSgi1]).getD s0
  let s2 := ((ipiLoop exampleImage).after s1 nextSlice).getD s0
  have hsome : ∀ o : Option Smp, o.isSome = true → o = some (o.getD s0) := by
    intro o ho
    rw [← Option.get_eq_getD o (h := ho), Option.some_get]
  have hpre : (ipiLoop exampleImage).after s0 preemptedHandler = some s :=
    hsome _ (by decide +kernel)
  have hsent : (ipiLoop exampleImage).after s [sendSgi1] = some s1 := hsome _ (by decide +kernel)
  have hmid : (ipiLoop exampleImage).after s1 nextSlice = some s2 := hsome _ (by decide +kernel)
  intro hkept
  rcases hkept s s1 s2 hpre (by decide +kernel) hsent hmid with hrec | ⟨p, hp, hack⟩
  · exact absurd hrec (by decide +kernel)
  · have hnone : ∀ p ∈ (ipiLoop exampleImage).iters s1 nextSlice,
        ¬ Acks exampleImage 1 1 p.2 p.1 := by decide +kernel
    exact hnone p hp hack

end FermiHV
