import FermiHV.Ipi
import FermiHV.Ops

/-!
# Conservation of SGIs

Four loops run two vCPUs that send each other SGIs: `smp_demo`, `smp_sched_demo`,
`smp_psci_demo` and `linux_vgic_boot`. An SGI that has been sent is recorded in
`g_sgi_pending` or pending in a list register of its target, and it leaves these
places in one of four ways: the target acknowledges it, it meets an equal one that
is still recorded in `g_sgi_pending`, `vgic_inject` declines it after it has been
popped, or `vcpu_init` clears the list registers of a vCPU that is started again.

`ipi_conservation` is the balance of these amounts over every run of the four loops:
no SGI appears that was not sent, none is taken twice, and none gets lost in any
other way.
-/

namespace FermiHV

open OpTrace

/-! ## 1. The accounts -/

/-- The slots in which `k` is pending. -/
def pendingSlots (k : U32) (lrs : Lrs) : Finset (Fin 4) :=
  Finset.univ.filter fun i => lrPends k (lrs i) = true

/-- How many SGIs `k` are on their way to vCPU `c`. -/
def outstanding (c : Fin 2) (k : U32) (h : Hv) : Nat :=
  (sgiBit c k h).toNat + (pendingSlots k (h.vcpus c).ichLr).card

/-- The operation sends `k` to `c`. -/
def HvOp.posts (c : Fin 2) (k : U32) : HvOp → Hv → Bool
  | .post d, h => d ≠ c && (h.vcpus d).sgiIntid = k
  | _, _ => false

/-- The operation takes `k` out of `g_sgi_pending[c]`. -/
def HvOp.pops (c : Fin 2) (k : U32) : HvOp → Hv → Bool
  | .deliver d, h => d = c && (vgicPopSgi c.val h.vgic).1 = some k.toNat
  | _, _ => false

/-- `vgic_inject` does nothing: a slot holds `k`, or none is idle. -/
def injectDeclines (k : U32) (lrs : Lrs) : Bool := LrsHold k lrs ∨ freeSlot lrs = none

def posted (c : Fin 2) (k : U32) (o : HvOp) (h : Hv) : Nat := (o.posts c k h).toNat

/-- Sent while its bit in `g_sgi_pending` was still set. -/
def merged (c : Fin 2) (k : U32) (o : HvOp) (h : Hv) : Nat := (o.posts c k h && sgiBit c k h).toNat

def declined (c : Fin 2) (k : U32) (o : HvOp) (h : Hv) : Nat :=
  (o.pops c k h && injectDeclines k (h.vcpus c).ichLr).toNat

/-- Taken by the guest while it runs: pending when it is entered and no longer so
when it exits. -/
def acked (c : Fin 2) (k : U32) : HvOp → Hv → Nat
  | .enter d g, h =>
    if d = c then (pendingSlots k (h.vcpus c).ichLr \ pendingSlots k g.ichLr).card else 0
  | _, _ => 0

/-- Pending in a list register that `vcpu_init` clears. -/
def discarded (c : Fin 2) (k : U32) : HvOp → Hv → Nat
  | .cpuOn _ _, h => if c = 1 then (pendingSlots k (h.vcpus c).ichLr).card else 0
  | _, _ => 0

/-! ## 2. What an operation does to them -/

section Balance

variable {c d : Fin 2} {k j : U32} {h h' : Hv}

theorem mem_pendingSlots {lrs : Lrs} {i : Fin 4} :
    i ∈ pendingSlots k lrs ↔ lrPends k (lrs i) = true := by
  simp [pendingSlots]

theorem outstanding_congr (hbit : h'.vgic.sgiPending c.val = h.vgic.sgiPending c.val)
    (hlr : (h'.vcpus c).ichLr = (h.vcpus c).ichLr) : outstanding c k h' = outstanding c k h := by
  rw [outstanding, outstanding, sgiBit, sgiBit, hbit, hlr]

theorem lrPends_pendingLr_of_ne (hne : j ≠ k) : lrPends k (pendingLr j) = false := by
  rw [Bool.eq_false_iff]
  intro hp
  have hk := j.isLt
  rw [lrPends_iff, toNat_pendingLr] at hp
  exact hne (BitVec.eq_of_toNat_eq (by omega))

/-- A slot that is idle has nothing pending. -/
theorem not_mem_pendingSlots {lrs : Lrs} {i : Fin 4} (hidle : lrState (lrs i) = 0) :
    i ∉ pendingSlots k lrs :=
  fun hi => lrState_ne_zero_of_pends (mem_pendingSlots.mp hi) hidle

theorem pendingSlots_inject_of_ne (v : Vcpu) (hne : j ≠ k) :
    pendingSlots k (vgicInject j v).ichLr = pendingSlots k v.ichLr := by
  rcases vgicInject_cases j v with ⟨hsame, -⟩ | ⟨i, -, hidle, hnew⟩
  · rw [hsame]
  · rw [hnew]
    ext i'
    rw [mem_pendingSlots, mem_pendingSlots]
    by_cases hi : i' = i
    · subst hi
      have hno : ¬ lrPends k (v.ichLr i') = true := fun hp => lrState_ne_zero_of_pends hp hidle
      rw [setLr_self, lrPends_pendingLr_of_ne hne]
      exact ⟨fun hf => (Bool.false_ne_true hf).elim, fun hp => (hno hp).elim⟩
    · rw [setLr_of_ne v hi]

/-- An injection of `k` adds a slot, unless it is declined. -/
theorem card_pendingSlots_inject (v : Vcpu) :
    (pendingSlots k v.ichLr).card + 1 =
      (pendingSlots k (vgicInject k v).ichLr).card + (injectDeclines k v.ichLr).toNat := by
  rcases vgicInject_cases k v with ⟨hsame, hwhy⟩ | ⟨i, hnone, hidle, hnew⟩
  · have hdec : injectDeclines k v.ichLr = true :=
      decide_eq_true (hwhy.imp_right freeSlot_eq_none_iff.mpr)
    rw [hsame, hdec, Bool.toNat_true]
  · have hdec : injectDeclines k v.ichLr = false := by
      refine decide_eq_false ?_
      rintro (⟨i', hi'⟩ | hfull)
      · rw [hnone i'] at hi'
        cases hi'
      · exact freeSlot_eq_none_iff.mp hfull i hidle
    have hslots : pendingSlots k (vgicInject k v).ichLr = insert i (pendingSlots k v.ichLr) := by
      ext i'
      rw [hnew, Finset.mem_insert, mem_pendingSlots, mem_pendingSlots]
      by_cases hi : i' = i
      · subst hi
        rw [setLr_self, lrPends_pendingLr]
        exact ⟨fun _ => .inl rfl, fun _ => rfl⟩
      · rw [setLr_of_ne v hi]
        exact ⟨.inr, fun h => h.resolve_left hi⟩
    rw [hslots, Finset.card_insert_of_notMem (not_mem_pendingSlots hidle), hdec,
      Bool.toNat_false, Nat.add_zero]

theorem outstanding_inject_of_ne (hne : d = c → j ≠ k) :
    outstanding c k (h.inject d j) = outstanding c k h := by
  by_cases hd : c = d
  · subst hd
    rw [outstanding, outstanding, inject_ichLr_self, pendingSlots_inject_of_ne _ (hne rfl)]
    rfl
  · exact outstanding_congr rfl (by rw [inject_vcpus_of_ne j hd])

theorem outstanding_injectTimer (hk : k.toNat < 16) :
    outstanding c k (h.injectTimer d) = outstanding c k h := by
  have hne : ∀ m : U32, 16 ≤ m.toNat → m ≠ k := by
    rintro m hm rfl
    omega
  simp only [Hv.injectTimer]
  split_ifs
  · exact outstanding_inject_of_ne fun _ => hne 30 (by decide)
  · exact outstanding_inject_of_ne fun _ => hne 27 (by decide)
  · rfl

theorem outstanding_keyIn (hk : k.toNat < 16) (ch : Option U8) :
    outstanding c k (h.keyIn ch) = outstanding c k h := by
  cases ch with
  | none => rfl
  | some ch =>
    have hne : (33 : U32) ≠ k := by
      rintro rfl
      exact absurd hk (by decide)
    simp only [Hv.keyIn]
    split_ifs
    · rw [outstanding_inject_of_ne fun _ => hne]
      rfl
    · rfl

/-- What is popped was set. -/
theorem sgiBit_of_pop {b : Nat} (hpop : (vgicPopSgi c.val h.vgic).1 = some b) :
    sgiBit c (BitVec.ofNat 32 b) h = true := by
  rw [vgicPopSgi] at hpop
  split_ifs at hpop
  cases hfind : (List.range 16).find? fun b =>
      decide (h.vgic.sgiPending c.val &&& (1#32 <<< b) ≠ 0) with
  | none =>
    rw [hfind] at hpop
    cases hpop
  | some b' =>
    rw [hfind] at hpop
    cases hpop
    have hlt := List.mem_range.mp (List.mem_of_find?_eq_some hfind)
    have hset := List.find?_some hfind
    have hval : (BitVec.ofNat 32 b).toNat = b := by
      rw [BitVec.toNat_ofNat]
      omega
    rw [sgiBit, hval]
    exact hset

/-- The bits that a pop leaves. -/
theorem sgiBit_popped {b : Nat} (hlt : k.toNat < 16)
    (hpop : h'.vgic.sgiPending c.val = h.vgic.sgiPending c.val &&& ~~~(1#32 <<< b)) :
    sgiBit c k h' = (sgiBit c k h && k.toNat ≠ b) := by
  have hbound : k.toNat < 32 := by omega
  rw [Bool.eq_iff_iff, sgiBit_iff, Bool.and_eq_true, sgiBit_iff, decide_eq_true_eq, hpop]
  simp only [BitVec.getLsbD_and, BitVec.getLsbD_not, hbound, Bits.getLsbD_one_shl, decide_true,
    Bool.true_and, Bool.and_eq_true, Bool.not_eq_true', decide_eq_false_iff_not, ne_eq]

/-- Delivery takes one SGI out of `g_sgi_pending` and offers it to `vgic_inject`. -/
theorem outstanding_deliverSgi (hk : k.toNat < 16) :
    outstanding c k h = outstanding c k (h.deliverSgi d) + declined c k (.deliver d) h := by
  by_cases hd : c = d
  · subst hd
    have hpops : (HvOp.deliver c).pops c k h =
        decide ((vgicPopSgi c.val h.vgic).1 = some k.toNat) := by
      simp [HvOp.pops]
    rcases vgicPopSgi_cases c.val h.vgic with hpop | ⟨b, hb, hpop⟩
    · simp [Hv.deliverSgi, declined, hpops, hpop, outstanding, sgiBit]
    · have hset := sgiBit_of_pop (h := h) (c := c) (b := b) (by rw [hpop])
      have hbit : sgiBit c k (h.deliverSgi c) = (sgiBit c k h && k.toNat ≠ b) := by
        refine sgiBit_popped hk ?_
        simp only [Hv.deliverSgi, hpop, Hv.inject, setVcpu_vgic, Function.update_self]
      simp only [declined, hpops, hpop, Option.some.injEq]
      by_cases hkb : k.toNat = b
      · -- the popped interrupt: its bit goes, and it enters a slot or is declined
        subst hkb
        rw [BitVec.ofNat_toNat, BitVec.setWidth_eq] at hset
        have hlr : ((h.deliverSgi c).vcpus c).ichLr = (vgicInject k (h.vcpus c)).ichLr := by
          simp only [Hv.deliverSgi, hpop, inject_ichLr_self, BitVec.ofNat_toNat,
            BitVec.setWidth_eq]
        have hcard := card_pendingSlots_inject (k := k) (h.vcpus c)
        rw [outstanding, outstanding, hlr, hbit, hset]
        simp only [ne_eq, not_true_eq_false, decide_false, Bool.and_false, Bool.toNat_false,
          Bool.toNat_true, decide_true, Bool.true_and]
        omega
      · have hne : BitVec.ofNat 32 b ≠ k := by
          rintro rfl
          rw [BitVec.toNat_ofNat] at hkb
          omega
        have hdec : decide (b = k.toNat) = false := decide_eq_false fun he => hkb he.symm
        have hlr : pendingSlots k ((h.deliverSgi c).vcpus c).ichLr =
            pendingSlots k (h.vcpus c).ichLr := by
          simp only [Hv.deliverSgi, hpop, inject_ichLr_self]
          exact pendingSlots_inject_of_ne (h.vcpus c) hne
        rw [outstanding, outstanding, hlr, hbit, hdec]
        simp [hkb]
  · obtain ⟨hsgi, hv⟩ := recorded_deliverSgi_of_ne (h := h) hd
    have hpops : (HvOp.deliver d).pops c k h = false := by
      simp [HvOp.pops, Ne.symm hd]
    rw [declined, hpops, Bool.false_and, Bool.toNat_false,
      outstanding_congr hsgi (by rw [hv]), Nat.add_zero]

theorem outstanding_postSgi : outstanding c k h + posted c k (.post d) h =
    outstanding c k (h.postSgi d) + merged c k (.post d) h := by
  have hlr : ((h.postSgi d).vcpus c).ichLr = (h.vcpus c).ichLr := postSgi_ichLr
  have hbit : sgiBit c k (h.postSgi d) = (sgiBit c k h || (HvOp.post d).posts c k h) := by
    rw [Bool.eq_iff_iff, sgiBit_postSgi_iff, Bool.or_eq_true]
    simp only [HvOp.posts, Bool.and_eq_true, decide_eq_true_eq]
    exact or_congr_right (and_congr ne_comm eq_comm)
  rw [outstanding, outstanding, hlr, hbit, posted, merged]
  cases sgiBit c k h <;> cases (HvOp.post d).posts c k h <;> simp
  omega

theorem outstanding_enter {g : GuestCtx} (hlaw : (HvOp.enter d g).Lawful h) :
    outstanding c k h = outstanding c k ((HvOp.enter d g).apply h) + acked c k (.enter d g) h := by
  by_cases hd : d = c
  · subst hd
    have hsub : pendingSlots k g.ichLr ⊆ pendingSlots k (h.vcpus d).ichLr := by
      intro i hi
      rw [mem_pendingSlots, lrPends_iff] at hi ⊢
      have hstep := hlaw i
      have hlow := hstep.low
      exact ⟨hstep.pends hi.1, by omega⟩
    have hlr : (((HvOp.enter d g).apply h).vcpus d).ichLr = g.ichLr := by
      rw [HvOp.apply, setVcpu_vcpus_self]
      rfl
    have hcard := Finset.card_sdiff_add_card_eq_card hsub
    have hbit : sgiBit d k ((HvOp.enter d g).apply h) = sgiBit d k h := rfl
    rw [outstanding, outstanding, hlr, hbit, acked, if_pos rfl]
    omega
  · have hlr : (((HvOp.enter d g).apply h).vcpus c).ichLr = (h.vcpus c).ichLr := by
      rw [HvOp.apply, setVcpu_vcpus_of_ne _ (Ne.symm hd)]
    have hbit : ((HvOp.enter d g).apply h).vgic.sgiPending c.val = h.vgic.sgiPending c.val := rfl
    rw [acked, if_neg hd, outstanding_congr hbit hlr, Nat.add_zero]

theorem outstanding_cpuOn (img : Image) (sp : U64) :
    outstanding c k h = outstanding c k (h.cpuOn img sp) + discarded c k (.cpuOn img sp) h := by
  by_cases hc : c = 1
  · subst hc
    have hlr : ((h.cpuOn img sp).vcpus 1).ichLr = fun _ => 0 :=
      congrArg (·.ichLr) (setVcpu_vcpus_self _)
    have hnone : pendingSlots k (fun _ => 0) = ∅ :=
      Finset.eq_empty_of_forall_notMem fun i => not_mem_pendingSlots (by decide)
    have hbit : sgiBit 1 k (h.cpuOn img sp) = sgiBit 1 k h := rfl
    rw [outstanding, outstanding, hlr, hnone, hbit, discarded, if_pos rfl, Finset.card_empty,
      Nat.add_zero]
  · have hlr : ((h.cpuOn img sp).vcpus c).ichLr = (h.vcpus c).ichLr :=
      congrArg (·.ichLr) (setVcpu_vcpus_of_ne _ hc)
    have hbit : (h.cpuOn img sp).vgic.sgiPending c.val = h.vgic.sgiPending c.val := rfl
    rw [discarded, if_neg hc, outstanding_congr hbit hlr, Nat.add_zero]

/-- Only `vgic_post_sgi` and `vgic_pop_sgi` change `g_sgi_pending`. -/
theorem sgiPending_apply {o : HvOp} (hdel : ∀ d, o ≠ .deliver d) (hpost : ∀ d, o ≠ .post d)
    (h : Hv) : (o.apply h).vgic.sgiPending = h.vgic.sgiPending := by
  cases o with
  | deliver d => exact absurd rfl (hdel d)
  | post d => exact absurd rfl (hpost d)
  | timer d =>
    simp only [HvOp.apply, Hv.injectTimer]
    split_ifs <;> rfl
  | key ch =>
    cases ch with
    | none => rfl
    | some ch =>
      simp only [HvOp.apply, Hv.keyIn]
      split_ifs <;> rfl
  | psci d =>
    simp only [HvOp.apply, psciHandle]
    split_ifs <;> rfl
  | cntp vm d =>
    simp only [HvOp.apply, cntpEmulate]
    split_ifs <;> rfl
  | abort vm d ipa a =>
    cases a with
    | vgic => exact vgicMmio_sgiPending vm (h.vcpus d) ipa h.vgic
    | vuart | fault | zero | skip | report => rfl
  | enter | inject | skip | cpuOn => rfl

/-- Each operation pays for what it changes. -/
theorem outstanding_apply (hk : k.toNat < 16) (o : HvOp) (h : Hv)
    (hlaw : o.Lawful h ∧ ∀ d j, o ≠ .inject d j) :
    outstanding c k h + posted c k o h = outstanding c k (o.apply h) +
      (acked c k o h + merged c k o h + declined c k o h + discarded c k o h) := by
  cases o with
  | enter d g => exact outstanding_enter hlaw.1
  | inject d j => exact absurd rfl (hlaw.2 d j)
  | timer d => exact (outstanding_injectTimer hk).symm
  | key ch => exact (outstanding_keyIn hk ch).symm
  | deliver d =>
    have hdel := outstanding_deliverSgi (c := c) (d := d) (h := h) hk
    simp only [posted, acked, merged, discarded, HvOp.posts, HvOp.apply, Bool.false_and,
      Bool.toNat_false, Nat.zero_add, Nat.add_zero]
    exact hdel
  | post d =>
    have hpost := outstanding_postSgi (c := c) (k := k) (d := d) (h := h)
    simp only [acked, declined, discarded, HvOp.pops, HvOp.apply, Bool.false_and,
      Bool.toNat_false, Nat.zero_add, Nat.add_zero]
    exact hpost
  | skip d =>
    have hbits := sgiPending_apply (o := .skip d) (by simp) (by simp) h
    exact (outstanding_congr (congrFun hbits _) (setVcpu_ichLr rfl)).symm
  | psci d =>
    have hbits := sgiPending_apply (o := .psci d) (by simp) (by simp) h
    exact (outstanding_congr (congrFun hbits _) psciHandle_ichLr).symm
  | cntp vm d =>
    have hbits := sgiPending_apply (o := .cntp vm d) (by simp) (by simp) h
    exact (outstanding_congr (congrFun hbits _) (cntpEmulate_ichLr vm)).symm
  | abort vm d ipa a =>
    have hbits := sgiPending_apply (o := .abort vm d ipa a) (by simp) (by simp) h
    exact (outstanding_congr (congrFun hbits _) (abort_ichLr vm ipa a)).symm
  | cpuOn img sp =>
    have hon := outstanding_cpuOn (c := c) (k := k) (h := h) img sp
    simp only [posted, acked, merged, declined, HvOp.posts, HvOp.pops, HvOp.apply,
      Bool.false_and, Bool.toNat_false, Nat.zero_add, Nat.add_zero]
    exact hon

end Balance

/-! ## 3. The loops -/

/-- The loops in which vCPUs send each other SGIs. -/
inductive SgiLoop
  | smpDemo
  | smpSched
  | smpPsci (img : Image) (sp : U64)
  | linuxVgic (img : Image)

def SgiLoop.State : SgiLoop → Type
  | .smpDemo => SmpDemo
  | .smpSched => SmpSched
  | .smpPsci .. => SmpPsci
  | .linuxVgic _ => Smp

def SgiLoop.driver : (L : SgiLoop) → HvDriver L.State
  | .smpDemo => smpDemoDriver
  | .smpSched => smpSchedDriver
  | .smpPsci img sp => smpPsciDriver img sp
  | .linuxVgic img => linuxVgicDriver img

namespace SgiLoop

variable (L : SgiLoop)

def hv (s : L.State) : Hv := L.driver.view s

/-- The state that a run on the events ends in. -/
def ends (s : L.State) (es : List Event) : L.State := final L.driver.loop s es

/-- The sum of an amount over the operations of a run. -/
def sum (n : HvOp → Hv → Nat) (s : L.State) (es : List Event) : Nat :=
  total HvOp.apply n (L.driver.trace s es) (L.hv s)

/-- Throughout the run the guests use their list registers lawfully. -/
def LawfulGuests (s : L.State) (es : List Event) : Prop :=
  Along HvOp.apply HvOp.Lawful (L.driver.trace s es) (L.hv s)

instance (s : L.State) (es : List Event) : Decidable (L.LawfulGuests s es) :=
  inferInstanceAs (Decidable (Along ..))

theorem inject_notMem_smpPsciOps (c d : Fin 2) (j : U32) (g : GuestCtx) :
    HvOp.inject d j ∉ smpPsciOps c g := by
  simp only [smpPsciOps]
  cases g.exitKind with
  | hvc =>
    simp only
    split_ifs <;> simp
  | _ => simp

theorem inject_notMem_linuxVgicOps (c d : Fin 2) (j : U32) (e : Event) :
    HvOp.inject d j ∉ linuxVgicOps c e := by
  simp only [linuxVgicOps]
  cases e.ctx.exitKind with
  | irq | sysreg =>
    simp only
    split_ifs <;> simp
  | _ => simp

/-- These loops inject nothing but SGIs, their timer and their console. -/
theorem inject_notMem_ops (s : L.State) (e : Event) (d : Fin 2) (j : U32) :
    HvOp.inject d j ∉ L.driver.ops e s := by
  cases L with
  | smpDemo =>
    simp only [driver, smpDemoDriver]
    split_ifs <;> simp
  | smpSched =>
    simp only [driver, smpSchedDriver]
    split_ifs <;> simp
  | smpPsci img sp =>
    simp only [driver, smpPsciDriver, List.mem_append, inject_notMem_smpPsciOps, or_false]
    split_ifs <;> simp
  | linuxVgic img =>
    simp only [driver, linuxVgicDriver, List.mem_append]
    split_ifs <;> simp [inject_notMem_linuxVgicOps]

theorem along_not_inject (s : L.State) (es : List Event) :
    Along HvOp.apply (fun o _ => ∀ d j, o ≠ .inject d j) (L.driver.trace s es) (L.hv s) := by
  refine Driver.along_trace_iff.mpr fun p _ => along_of_forall ?_ _
  rintro o ho - d j rfl
  exact L.inject_notMem_ops p.1 p.2 d j ho

end SgiLoop

/-- Over every run of an SMP loop, from any state: the SGIs on their way to a vCPU
before, together with those sent to it, are those on their way after, together with
those it took, those that met an equal one not yet popped, those that `vgic_inject`
declined and those that a restart of the vCPU cleared. -/
theorem ipi_conservation (L : SgiLoop) (s : L.State) (es : List Event) (c : Fin 2) (k : U32)
    (hk : k.toNat < 16) (hguests : L.LawfulGuests s es) :
    outstanding c k (L.hv s) + L.sum (posted c k) s es =
      outstanding c k (L.hv (L.ends s es)) +
        (L.sum (acked c k) s es + L.sum (merged c k) s es + L.sum (declined c k) s es +
          L.sum (discarded c k) s es) := by
  have hbalance := total_balance (outstanding_apply (c := c) hk)
    (hguests.and (L.along_not_inject s es))
  simp only [total_add] at hbalance
  rw [SgiLoop.hv, SgiLoop.hv, SgiLoop.ends, Driver.view_final]
  exact hbalance

/-- The start of `smp_demo`. -/
def smpStart : SgiLoop.smpDemo.State :=
  smpDemoStart exampleImage 0x40080000 0 0 (resetHv exampleImage 0)

/-- vCPU 0 sends SGI 1, and vCPU 1 takes and ends it. -/
def sentAndTaken : List Event :=
  [syncExit 0x60003000 0x1000000,
    { timerExit with ctx := { timerExit.ctx with
        ichLr := Function.update (fun _ => 0) 0 (lrSetState 0 (pendingLr 1)) } }]

/-- The balance of that run: one SGI is sent and taken. -/
theorem ipi_conservation_sentAndTaken :
    SgiLoop.smpDemo.sum (posted 1 1) smpStart sentAndTaken = 1 ∧
      SgiLoop.smpDemo.sum (acked 1 1) smpStart sentAndTaken = 1 ∧
      outstanding 1 1 (SgiLoop.smpDemo.hv smpStart) +
          SgiLoop.smpDemo.sum (posted 1 1) smpStart sentAndTaken =
        outstanding 1 1 (SgiLoop.smpDemo.hv (SgiLoop.smpDemo.ends smpStart sentAndTaken)) +
          (SgiLoop.smpDemo.sum (acked 1 1) smpStart sentAndTaken +
            SgiLoop.smpDemo.sum (merged 1 1) smpStart sentAndTaken +
            SgiLoop.smpDemo.sum (declined 1 1) smpStart sentAndTaken +
            SgiLoop.smpDemo.sum (discarded 1 1) smpStart sentAndTaken) := by
  refine ⟨by decide +kernel, by decide +kernel, ?_⟩
  exact ipi_conservation .smpDemo smpStart sentAndTaken 1 1 (by decide) (by decide +kernel)

end FermiHV
