import FermiHV.IpiLedger
import FermiHV.SgiSet

/-!
# How long an SGI waits

Before a vCPU runs, the loops take one SGI out of its set in `g_sgi_pending`, the one
with the lowest number. An SGI with a higher number waits meanwhile, and while others
with lower numbers keep coming it may wait for ever.

`sgi_wait_law` is the exact account: while SGI `k` stays pending for a vCPU, every pass
that runs it takes one of the lower SGIs, so the number of these passes is that of the
lower SGIs that were ahead at the start and came in between, less those still ahead. It
is thus at most `k` plus the number of lower SGIs that were sent.
-/

namespace FermiHV

open OpTrace

/-! ## 1. The SGIs ahead -/

/-- The SGIs below `k` that are pending for `c`. -/
def ahead (c : Fin 2) (k : Nat) (h : Hv) : Finset Nat :=
  (Finset.range k).filter fun j => sgiPends h.vgic c.val j = true

/-- The operation makes an SGI below `k` pending for `c`. -/
def overtakes (c : Fin 2) (k : Nat) : HvOp → Hv → Nat
  | .post d, h =>
    let j := (h.vcpus d).sgiIntid.toNat
    (d ≠ c && j < k && !sgiPends h.vgic c.val j).toNat
  | _, _ => 0

/-- The operation is the delivery before an entry of `c`. -/
def delivers (c : Fin 2) : HvOp → Hv → Nat
  | .deliver d, _ => if d = c then 1 else 0
  | _, _ => 0

section Ahead

variable {c d : Fin 2} {k : Nat} {h h' : Hv}

theorem mem_ahead {j : Nat} : j ∈ ahead c k h ↔ j < k ∧ sgiPends h.vgic c.val j = true := by
  simp [ahead]

theorem ahead_card_le : (ahead c k h).card ≤ k := by
  have hle := Finset.card_filter_le (Finset.range k) fun j => sgiPends h.vgic c.val j = true
  rwa [Finset.card_range] at hle

theorem ahead_congr (hbits : h'.vgic.sgiPending c.val = h.vgic.sgiPending c.val) :
    ahead c k h' = ahead c k h := by
  ext j
  rw [mem_ahead, mem_ahead, sgiPends, sgiPends, hbits]

theorem inSgiRange (c : Fin 2) : InSgiRange c.val := by
  have hc := c.isLt
  rw [InSgiRange, vgicMaxVcpus]
  omega

theorem deliverSgi_vgic (h : Hv) (c : Fin 2) :
    (h.deliverSgi c).vgic = (vgicPopSgi c.val h.vgic).2 := by
  rcases vgicPopSgi_cases c.val h.vgic with hpop | ⟨b, -, hpop⟩ <;>
    simp only [Hv.deliverSgi, hpop, Hv.inject, setVcpu_vgic]

/-- While `k` stays pending, a delivery takes an SGI that is ahead of it. -/
theorem ahead_deliverSgi (hk : k < 16) (hpend : sgiPends h.vgic c.val k = true)
    (hstill : sgiPends (h.deliverSgi c).vgic c.val k = true) :
    (ahead c k h).card = (ahead c k (h.deliverSgi c)).card + 1 := by
  cases hpop : (vgicPopSgi c.val h.vgic).1 with
  | none =>
    rcases popSgi_eq_none_iff.mp hpop with hrange | hnone
    · exact absurd (inSgiRange c) hrange
    · rw [hnone k hk] at hpend
      cases hpend
  | some j =>
    obtain ⟨-, ⟨hj, hset⟩, hlowest⟩ := popSgi_eq_some_iff.mp hpop
    have hhead : (pendingSgis h.vgic c.val).head? = some j := by
      rw [← hpop, vgicPopSgi_eq h.vgic (inSgiRange c)]
    have hafter : ∀ i, sgiPends (h.deliverSgi c).vgic c.val i =
        (sgiPends h.vgic c.val i && !decide (i = j)) := by
      intro i
      rw [deliverSgi_vgic, vgicPopSgi_eq h.vgic (inSgiRange c), hhead]
      simp only [Option.elim_some, sgiPends_clearSgi, true_and]
    have hne : k ≠ j := by
      rintro rfl
      rw [hafter] at hstill
      simp at hstill
    have hlt : j < k := by
      rcases Nat.lt_or_ge k j with hbelow | hge
      · rw [hlowest k hbelow] at hpend
        cases hpend
      · omega
    have herase : ahead c k (h.deliverSgi c) = (ahead c k h).erase j := by
      ext i
      rw [mem_ahead, Finset.mem_erase, mem_ahead, hafter]
      simp only [Bool.and_eq_true, Bool.not_eq_true', decide_eq_false_iff_not]
      tauto
    have hmem : j ∈ ahead c k h := mem_ahead.mpr ⟨hlt, hset⟩
    rw [herase, Finset.card_erase_of_mem hmem]
    have hpos := Finset.card_pos.mpr ⟨j, hmem⟩
    omega

theorem ahead_deliverSgi_of_ne (hd : d ≠ c) : ahead c k (h.deliverSgi d) = ahead c k h := by
  refine ahead_congr ?_
  rw [deliverSgi_vgic]
  exact popSgi_of_ne h.vgic fun he => hd (Fin.ext (by exact_mod_cast he.symm))

/-- An SGI that comes in is ahead if its number is lower. -/
theorem ahead_postSgi (hk : k < 16) : (ahead c k h).card + overtakes c k (.post d) h =
    (ahead c k (h.postSgi d)).card := by
  have hpend : ∀ j < 16, sgiPends (h.postSgi d).vgic c.val j = true ↔
      sgiPends h.vgic c.val j = true ∨ (d ≠ c ∧ (h.vcpus d).sgiIntid.toNat = j) := by
    intro j hj
    have hval : (BitVec.ofNat 32 j).toNat = j := by
      rw [BitVec.toNat_ofNat]
      omega
    have hbit := @sgiBit_postSgi_iff d h c (BitVec.ofNat 32 j)
    rw [sgiBit_iff, sgiBit_iff, hval] at hbit
    refine hbit.trans (or_congr Iff.rfl (and_congr ne_comm ?_))
    rw [← BitVec.toNat_inj, hval, eq_comm]
  by_cases hnew : d ≠ c ∧ (h.vcpus d).sgiIntid.toNat < k ∧
      sgiPends h.vgic c.val (h.vcpus d).sgiIntid.toNat = false
  · obtain ⟨hd, hlt, hfree⟩ := hnew
    have hinsert : ahead c k (h.postSgi d) =
        insert (h.vcpus d).sgiIntid.toNat (ahead c k h) := by
      ext j
      rw [mem_ahead, Finset.mem_insert, mem_ahead]
      constructor
      · rintro ⟨hj, hp⟩
        rcases (hpend j (by omega)).mp hp with hp | ⟨-, rfl⟩
        · exact .inr ⟨hj, hp⟩
        · exact .inl rfl
      · rintro (rfl | ⟨hj, hp⟩)
        · exact ⟨hlt, (hpend _ (by omega)).mpr (.inr ⟨hd, rfl⟩)⟩
        · exact ⟨hj, (hpend j (by omega)).mpr (.inl hp)⟩
    have hnot : (h.vcpus d).sgiIntid.toNat ∉ ahead c k h := by
      rw [mem_ahead, hfree]
      simp
    rw [hinsert, Finset.card_insert_of_notMem hnot]
    simp [overtakes, hd, hlt, hfree]
  · have hsame : ahead c k (h.postSgi d) = ahead c k h := by
      ext j
      rw [mem_ahead, mem_ahead]
      refine and_congr_right fun hj => ?_
      rw [hpend j (by omega)]
      refine ⟨fun hp => hp.elim id ?_, .inl⟩
      rintro ⟨hd, rfl⟩
      by_contra hfree
      exact hnew ⟨hd, hj, by simpa using hfree⟩
    rw [hsame, overtakes]
    have hzero : (d ≠ c && (h.vcpus d).sgiIntid.toNat < k &&
        !sgiPends h.vgic c.val (h.vcpus d).sgiIntid.toNat) = false := by
      rw [Bool.eq_false_iff]
      intro hall
      simp only [Bool.and_eq_true, decide_eq_true_eq, Bool.not_eq_true'] at hall
      exact hnew ⟨hall.1.1, hall.1.2, hall.2⟩
    simp only [hzero]
    rfl

/-- One operation, while `k` stays pending. -/
theorem ahead_apply (hk : k < 16) (o : HvOp) (h : Hv) (hwait : sgiPends h.vgic c.val k = true ∧
    sgiPends (o.apply h).vgic c.val k = true) :
    (ahead c k h).card + overtakes c k o h = (ahead c k (o.apply h)).card + delivers c o h := by
  by_cases hdel : ∃ d, o = .deliver d
  · obtain ⟨d, rfl⟩ := hdel
    by_cases hd : d = c
    · subst hd
      have hone := ahead_deliverSgi hk hwait.1 hwait.2
      simp only [overtakes, delivers, HvOp.apply, if_true, Nat.add_zero]
      exact hone
    · simp only [overtakes, delivers, HvOp.apply, if_neg hd, Nat.add_zero,
        ahead_deliverSgi_of_ne hd]
  · by_cases hpost : ∃ d, o = .post d
    · obtain ⟨d, rfl⟩ := hpost
      exact ahead_postSgi hk
    · have hbits := sgiPending_apply (fun d hd => hdel ⟨d, hd⟩) (fun d hd => hpost ⟨d, hd⟩) h
      have hover : overtakes c k o h = 0 := by
        cases o <;> first | rfl | exact absurd ⟨_, rfl⟩ hpost
      have hdelivers : delivers c o h = 0 := by
        cases o <;> first | rfl | exact absurd ⟨_, rfl⟩ hdel
      rw [ahead_congr (congrFun hbits c.val), hover, hdelivers]

end Ahead

/-! ## 2. The loops -/

namespace SgiLoop

variable (L : SgiLoop)

/-- The vCPU that a pass runs. -/
def cur : (L : SgiLoop) → L.State → Fin 2
  | .smpDemo => SmpDemo.i
  | .smpSched => SmpSched.cur
  | .smpPsci .. => SmpPsci.cur
  | .linuxVgic _ => Smp.cur

/-- The number of passes that run `c`. -/
def turns (c : Fin 2) (s : L.State) (es : List Event) : Nat :=
  (L.driver.loop.iters s es).countP fun p => L.cur p.1 = c

/-- SGI `k` stays pending for `c` throughout the run. -/
def Waits (c : Fin 2) (k : Nat) (s : L.State) (es : List Event) : Prop :=
  sgiPends (L.hv s).vgic c.val k = true ∧
    Along HvOp.apply (fun o h => sgiPends (o.apply h).vgic c.val k = true) (L.driver.trace s es)
      (L.hv s)

instance (c : Fin 2) (k : Nat) (s : L.State) (es : List Event) : Decidable (L.Waits c k s es) :=
  inferInstanceAs (Decidable (_ ∧ Along ..))

variable {L}

theorem deliver_notMem_smpPsciOps (c d : Fin 2) (g : GuestCtx) :
    HvOp.deliver d ∉ smpPsciOps c g := by
  simp only [smpPsciOps]
  cases g.exitKind with
  | hvc =>
    simp only
    split_ifs <;> simp
  | _ => simp

theorem deliver_notMem_linuxVgicOps (c d : Fin 2) (e : Event) :
    HvOp.deliver d ∉ linuxVgicOps c e := by
  simp only [linuxVgicOps]
  cases e.ctx.exitKind with
  | irq | sysreg =>
    simp only
    split_ifs <;> simp
  | _ => simp

theorem total_delivers_eq_zero {c : Fin 2} {ops : List HvOp} (hops : ∀ d, .deliver d ∉ ops)
    (h : Hv) : total HvOp.apply (delivers c) ops h = 0 := by
  refine total_eq_zero (fun o ho h => ?_) h
  cases o with
  | deliver d => exact absurd ho (hops d)
  | _ => rfl

theorem total_delivers_split {c d : Fin 2} (ops : List HvOp) {ops' : List HvOp}
    (hops : ∀ d, .deliver d ∉ ops) (hops' : ∀ d, .deliver d ∉ ops') (h : Hv) :
    total HvOp.apply (delivers c) (ops ++ .deliver d :: ops') h = (decide (d = c)).toNat := by
  rw [total_append, total, total_delivers_eq_zero hops, total_delivers_eq_zero hops', delivers]
  by_cases hd : d = c <;> simp [hd]

/-- A pass has one delivery, for the vCPU that it runs. -/
theorem total_delivers_ops (c : Fin 2) (e : Event) (s : L.State) :
    total HvOp.apply (delivers c) (L.driver.ops e s) (L.hv s) = (decide (L.cur s = c)).toNat := by
  cases L with
  | smpDemo =>
    refine total_delivers_split [] (fun _ => List.not_mem_nil) (fun d => ?_) _
    change _ ∉ [_] ++ _
    split_ifs <;> simp
  | smpSched =>
    refine total_delivers_split [] (fun _ => List.not_mem_nil) (fun d => ?_) _
    change _ ∉ [_] ++ _
    split_ifs <;> simp
  | smpPsci img sp =>
    simp only [driver, smpPsciDriver, List.append_assoc, List.cons_append, List.nil_append]
    refine total_delivers_split _ (fun d => ?_) (fun d => ?_) _
    · split_ifs <;> simp
    · simp [deliver_notMem_smpPsciOps]
  | linuxVgic img =>
    simp only [driver, linuxVgicDriver, List.append_assoc, List.cons_append, List.nil_append]
    rw [List.append_cons]
    refine total_delivers_split _ (fun d => ?_) (fun d => ?_) _
    · split_ifs <;> simp
    · split_ifs <;> simp [deliver_notMem_linuxVgicOps]

theorem sum_delivers (c : Fin 2) (s : L.State) (es : List Event) :
    L.sum (delivers c) s es = L.turns c s es :=
  Driver.total_trace (total_delivers_ops c) s es

end SgiLoop

/-- The next SGI taken is `k` exactly when `k` is pending and none is ahead of it. -/
theorem pops_iff {c : Fin 2} {k : Nat} (hk : k < 16) {h : Hv} :
    (vgicPopSgi c.val h.vgic).1 = some k ↔ sgiPends h.vgic c.val k = true ∧ ahead c k h = ∅ := by
  rw [popSgi_eq_some_iff, Finset.eq_empty_iff_forall_notMem]
  refine ⟨fun ⟨_, ⟨_, hset⟩, hlow⟩ => ⟨hset, fun j hj => ?_⟩, fun ⟨hset, hnone⟩ =>
    ⟨inSgiRange c, ⟨hk, hset⟩, fun j hj => ?_⟩⟩
  · obtain ⟨hlt, hp⟩ := mem_ahead.mp hj
    rw [hlow j hlt] at hp
    cases hp
  · rw [Bool.eq_false_iff]
    exact fun hp => hnone j (mem_ahead.mpr ⟨hj, hp⟩)

/-- While SGI `k` stays pending for a vCPU of an SMP loop, whatever the guests do: each
pass that runs the vCPU takes one SGI that is ahead. Those ahead at the start, with
those sent ahead of it since, are the passes and those ahead at the end, so there are at
most `k` passes more than SGIs sent ahead. `vgic_pop_sgi` comes to `k` when the passes
have used up the others, and not before. -/
theorem sgi_wait_law (L : SgiLoop) (s : L.State) (es : List Event) (c : Fin 2) (k : Nat)
    (hk : k < 16) (hwait : L.Waits c k s es) :
    (ahead c k (L.hv s)).card + L.sum (overtakes c k) s es =
        (ahead c k (L.hv (L.ends s es))).card + L.turns c s es ∧
      L.turns c s es ≤ k + L.sum (overtakes c k) s es ∧
      ((vgicPopSgi c.val (L.hv (L.ends s es)).vgic).1 = some k ↔
        L.turns c s es = (ahead c k (L.hv s)).card + L.sum (overtakes c k) s es) := by
  obtain ⟨hend, halong⟩ := run_of_invariant (P := fun h : Hv => sgiPends h.vgic c.val k = true)
    (fun _ _ _ hstill => hstill) hwait.1 hwait.2
  rw [SgiLoop.hv, ← Driver.view_final] at hend
  have hturns := SgiLoop.sum_delivers c s es
  have hbound : (ahead c k (L.hv s)).card ≤ k := ahead_card_le
  have hbalance : (ahead c k (L.hv s)).card + L.sum (overtakes c k) s es =
      (ahead c k (L.hv (L.ends s es))).card + L.turns c s es := by
    rw [← hturns, SgiLoop.hv, SgiLoop.hv, SgiLoop.ends, Driver.view_final]
    exact total_balance (ahead_apply hk) halong
  refine ⟨hbalance, by omega, ?_⟩
  rw [pops_iff hk, ← Finset.card_eq_zero]
  constructor
  · rintro ⟨-, hnone⟩
    omega
  · intro hall
    exact ⟨hend, by omega⟩

/-- In `smp_sched_demo` vCPU 0 has sent SGI 5, and then sends SGI 1. On its first pass
vCPU 1 takes 1, and 5 is next. -/
theorem sgi_wait_law_overtaken :
    let L := SgiLoop.smpSched
    let s := L.ends (smpSchedDemoStart exampleImage 0x40080000 0 0 (resetHv exampleImage 0))
      [syncExit 0x60003000 0x5000000]
    let es := [syncExit 0x60003000 0x1000000, timerExit, { timerExit with iar := 1023 }]
    L.sum (overtakes 1 5) s es = 1 ∧ L.turns 1 s es = 1 ∧
      (vgicPopSgi 1 (L.hv (L.ends s es)).vgic).1 = some 5 := by
  intro L s es
  have hover : L.sum (overtakes 1 5) s es = 1 := by decide +kernel
  have hturns : L.turns 1 s es = 1 := by decide +kernel
  have hnone : (ahead 1 5 (L.hv s)).card = 0 := by decide +kernel
  refine ⟨hover, hturns, ?_⟩
  refine (sgi_wait_law L s es 1 5 (by decide) (by decide +kernel)).2.2.mpr ?_
  rw [hover, hturns, hnone]

end FermiHV
