import FermiHV.EnableBits
import FermiHV.Ipi

/-!
# Keystrokes under `linux_vgic_boot`

At the head of each pass the loop takes a byte from the host console, if there is
one, puts it into the receiver of the emulated UART, and injects SPI 33 if the
guest has the receive interrupt unmasked and the SPI enabled.

* The receiver holds one byte and is written without a look at it. Input is
  conserved (`Conserved`) exactly as long as no byte is taken while another one
  waits: `input_conserved_iff`.
* The interrupt is a level: it is asserted while a byte waits and the guest has it
  unmasked. The loop samples it only when a byte arrives. So a guest that unmasks
  or enables it later, or ends it before it has read the byte, is not interrupted
  any more. `RxSteady` is the condition on a pass, in terms of the state before it, of
  the guest's steps on its list registers and of the access with which it exits
  (`RxLeft`); `rx_level` is the result.
-/

namespace FermiHV

open RunLoop (Flow Loop)

/-! ## 1. The UART in a pass -/

section Uart

variable {img : Image} {s : Smp} {c : Fin 2} {h : Hv}

/-- The pass ends with a read of the data register. -/
def Event.readsDr (e : Event) : Bool :=
  let iss := esrIss e.ctx.exitEsr
  let ipa := e.ctx.exitIpa
  e.ctx.exitKind = .abort && !vgicContains ipa && vuartContains ipa && issIsv iss && !issWnr iss &&
    ipa - vuartBase = 0x00

/-- What a guest that polls receives: the data register, if the flag register says
that the receiver is not empty. -/
def Vuart.receive (u : Vuart) : Option U8 :=
  if (vuartRead 0x18 u).1.getLsbD 4 then none else some ((vuartRead 0x00 u).1.setWidth 8)

theorem receive_eq (u : Vuart) : u.receive = u.rx := by
  obtain ⟨imsc, rx, console⟩ := u
  cases rx with
  | none =>
    have hempty : (0x80 ||| 0x10 : U64).getLsbD 4 = true := by decide
    change (if (0x80 ||| 0x10 : U64).getLsbD 4 then none else some _) = _
    rw [hempty, if_pos rfl]
  | some b =>
    have hempty : (0x80 ||| 0 : U64).getLsbD 4 = false := by decide
    have hbyte : ((b.setWidth 64 : U64).setWidth 8 : U8) = b := by
      refine BitVec.eq_of_toNat_eq ?_
      have hlt := b.isLt
      rw [BitVec.toNat_setWidth, BitVec.toNat_setWidth]
      omega
    change (if (0x80 ||| 0 : U64).getLsbD 4 then none
      else some ((b.setWidth 64 : U64).setWidth 8)) = _
    rw [hempty, if_neg Bool.false_ne_true, hbyte]

theorem keyIn_uart (key : Option U8) : (h.keyIn key).uart =
    match key with
    | none => h.uart
    | some b => vuartPushRx b h.uart := by
  cases key with
  | none => rfl
  | some b =>
    simp only [Hv.keyIn]
    split_ifs <;> rfl

theorem bringUp_uart : (s.bringUp img).hv.uart = s.hv.uart := by
  simp only [Smp.bringUp]
  split_ifs <;> rfl

theorem deliverSgi_uart : (h.deliverSgi c).uart = h.uart := by
  rcases vgicPopSgi_cases c.val h.vgic with hpop | ⟨b, -, hpop⟩
  · simp only [Hv.deliverSgi, hpop]
  · simp only [Hv.deliverSgi, hpop]
    rfl

/-- The receiver when the guest exits. -/
theorem exited_rx (e : Event) : (s.exited img e).hv.uart.rx = e.key.or s.hv.uart.rx := by
  have huart : (s.exited img e).hv.uart = ((s.bringUp img).hv.keyIn e.key).uart := deliverSgi_uart
  rw [huart, keyIn_uart, bringUp_uart]
  cases e.key <;> rfl

theorem mmioEmulate_rx (v : Vcpu) (ipa : U64) (u : Vuart) : (mmioEmulate v ipa u).2.rx =
    if issIsv (esrIss v.exitEsr) && !issWnr (esrIss v.exitEsr) && ipa - vuartBase = 0x00 then none
    else u.rx := by
  simp only [mmioEmulate, vuartRead_rx]
  cases issIsv (esrIss v.exitEsr) with
  | false => rfl
  | true =>
    cases issWnr (esrIss v.exitEsr) with
    | true => exact vuartWrite_rx _ _ u
    | false =>
      by_cases h0 : ipa - vuartBase = 0x00
      · simp [h0]
      · simp only [h0, if_false, decide_false, Bool.and_false, Bool.not_true, Bool.false_eq_true]

/-- Reading the data register empties the receiver; nothing else changes it. -/
theorem linuxExit_rx {e : Event} (hctx : (h.vcpus c).toGuestCtx = e.ctx) :
    (h.linuxExit c e).uart.rx = if e.readsDr then none else h.uart.rx := by
  have hesr : (h.vcpus c).exitEsr = e.ctx.exitEsr := congrArg GuestCtx.exitEsr hctx
  by_cases hk : e.ctx.exitKind = .abort
  · simp only [Hv.linuxExit, hk, linuxVgicBootAbort, deviceOr, Event.readsDr]
    cases vgicContains e.ctx.exitIpa with
    | true => rfl
    | false =>
      cases vuartContains e.ctx.exitIpa with
      | false => rfl
      | true =>
        change (mmioEmulate (h.vcpus c) e.ctx.exitIpa h.uart).2.rx = _
        rw [mmioEmulate_rx, hesr]
        simp only [decide_true, Bool.not_false, Bool.true_and]
  · have hno : e.readsDr = false := by simp [Event.readsDr, hk]
    have hkeep : (h.linuxExit c e).uart = h.uart :=
      linuxExit_cases (P := fun h' => h'.uart = h.uart) rfl (injectTimer_uart c h)
        (fun hkind => absurd hkind hk) rfl (fun _ => cntpEmulate_uart c) psciHandle_uart
        psciHandle_uart
    rw [hkeep, hno, if_neg Bool.false_ne_true]

/-- The value that the exit stores to the interrupt mask, if it does. -/
def Event.imscStore (e : Event) : Option U32 :=
  let iss := esrIss e.ctx.exitEsr
  let ipa := e.ctx.exitIpa
  if e.ctx.exitKind = .abort && !vgicContains ipa && vuartContains ipa && issIsv iss &&
      issWnr iss && ipa - vuartBase = 0x38 then
    some ((e.ctx.getX (issSrt iss)).setWidth 32)
  else none

theorem mmioEmulate_imsc (v : Vcpu) (ipa : U64) (u : Vuart) : (mmioEmulate v ipa u).2.imsc =
    if issIsv (esrIss v.exitEsr) && issWnr (esrIss v.exitEsr) && ipa - vuartBase = 0x38 then
      (v.getX (issSrt (esrIss v.exitEsr))).setWidth 32
    else u.imsc := by
  simp only [mmioEmulate, vuartRead_rx]
  cases issIsv (esrIss v.exitEsr) with
  | false => rfl
  | true =>
    cases issWnr (esrIss v.exitEsr) with
    | false =>
      simp only [Bool.not_true, Bool.false_eq_true, if_false, Bool.and_false, Bool.false_and]
      split_ifs <;> rfl
    | true =>
      simp only [Bool.not_true, Bool.false_eq_true, if_false, if_true, Bool.and_self,
        Bool.true_and, decide_eq_true_eq, vuartWrite]
      by_cases h0 : ipa - vuartBase = 0x00
      · rw [if_pos h0, if_neg (by rw [h0]; decide)]
      · rw [if_neg h0]
        split_ifs <;> rfl

/-- Only a store to the mask changes it. -/
theorem linuxExit_imsc {e : Event} (hctx : (h.vcpus c).toGuestCtx = e.ctx) :
    (h.linuxExit c e).uart.imsc = e.imscStore.getD h.uart.imsc := by
  have hesr : (h.vcpus c).exitEsr = e.ctx.exitEsr := congrArg GuestCtx.exitEsr hctx
  by_cases hk : e.ctx.exitKind = .abort
  · simp only [Hv.linuxExit, hk, linuxVgicBootAbort, deviceOr, Event.imscStore]
    cases vgicContains e.ctx.exitIpa with
    | true => rfl
    | false =>
      cases vuartContains e.ctx.exitIpa with
      | false => rfl
      | true =>
        change (mmioEmulate (h.vcpus c) e.ctx.exitIpa h.uart).2.imsc = _
        rw [mmioEmulate_imsc, hesr, hctx]
        simp only [decide_true, Bool.not_false, Bool.true_and]
        split_ifs <;> rfl
  · have hno : e.imscStore = none := by simp [Event.imscStore, hk]
    have hkeep : (h.linuxExit c e).uart = h.uart :=
      linuxExit_cases (P := fun h' => h'.uart = h.uart) rfl (injectTimer_uart c h)
        (fun hkind => absurd hkind hk) rfl (fun _ => cntpEmulate_uart c) psciHandle_uart
        psciHandle_uart
    rw [hkeep, hno]
    rfl

/-- What the loop does before the guest exits leaves the mask and the enable bits. -/
theorem exited_imsc (e : Event) : (s.exited img e).hv.uart.imsc = s.hv.uart.imsc := by
  have huart : (s.exited img e).hv.uart = ((s.bringUp img).hv.keyIn e.key).uart := deliverSgi_uart
  rw [huart, keyIn_uart, bringUp_uart]
  cases e.key <;> rfl

theorem exited_vg (e : Event) : (s.exited img e).hv.vgic.vg = s.hv.vgic.vg := by
  have hsgi : (s.exited img e).hv.vgic.vg = ((s.bringUp img).hv.keyIn e.key).vgic.vg :=
    deliverSgi_vg
  rw [hsgi, keyIn_vgic, bringUp_vgic]

end Uart

/-! ## 2. Input is conserved -/

/-- The byte that the guest receives in the pass. -/
def Smp.received (img : Image) (e : Event) (s : Smp) : Option U8 :=
  if s.GoesOn img e ∧ e.readsDr = true then (s.exited img e).hv.uart.receive else none

/-- The loop with the bytes taken from the host console and the bytes received by
the guest. -/
structure Typed where
  smp : Smp
  taken : List U8
  received : List U8

def consoleLoop (img : Image) : Loop Typed Event where
  cond := fun t => (linuxVgicBoot img).cond t.smp
  body := fun e t => ((linuxVgicBoot img).body e t.smp).map fun s =>
    { smp := s
      taken := t.taken ++ e.key.toList
      received := t.received ++ (t.smp.received img e).toList }

/-- Nothing received; a byte that waits counts as taken. -/
def Typed.start (s : Smp) : Typed where
  smp := s
  taken := s.hv.uart.rx.toList
  received := []

/-- What the guest has received, and then the byte that waits, is what has been
taken. -/
def Conserved (t : Typed) : Prop := t.taken = t.received ++ t.smp.hv.uart.rx.toList

instance (t : Typed) : Decidable (Conserved t) :=
  inferInstanceAs (Decidable (t.taken = t.received ++ t.smp.hv.uart.rx.toList))

/-- The receiver after a pass. -/
theorem body_rx (img : Image) (e : Event) (s : Smp) :
    ((linuxVgicBoot img).body e s).state.hv.uart.rx =
      if s.GoesOn img e ∧ e.readsDr = true then none else (s.exited img e).hv.uart.rx := by
  rw [linuxVgicBoot_body_hv]
  by_cases hgo : s.GoesOn img e
  · rw [if_pos hgo, linuxExit_rx (Smp.exited_ctx img e s)]
    simp only [hgo, true_and]
  · simp only [hgo, if_false, false_and]

/-- What waits at the exit is received in the pass or waits after it. -/
theorem received_append_rx (img : Image) (e : Event) (s : Smp) :
    (s.received img e).toList ++ ((linuxVgicBoot img).body e s).state.hv.uart.rx.toList =
      (e.key.or s.hv.uart.rx).toList := by
  rw [body_rx, Smp.received, receive_eq, exited_rx]
  split_ifs
  · exact List.append_nil _
  · rfl

/-- A pass conserves the input exactly when it does not take a byte while another
one waits. -/
theorem conserved_body_iff (img : Image) {t : Typed} (e : Event) (h : Conserved t) :
    Conserved ((consoleLoop img).body e t).state ↔
      (e.key.isSome = true → t.smp.hv.uart.rx = none) := by
  have hstep := received_append_rx img e t.smp
  rw [consoleLoop, Flow.state_map, Conserved, h, List.append_assoc, List.append_assoc, hstep,
    List.append_cancel_left_eq]
  cases e.key with
  | none => simp
  | some b =>
    cases t.smp.hv.uart.rx with
    | none => simp
    | some b' => simp

/-- Console input is neither lost, duplicated nor reordered in a run exactly when
no keystroke is taken while a byte waits in the receiver. -/
theorem input_conserved_iff (img : Image) (s : Smp) (es : List Event) :
    (∀ t ∈ (consoleLoop img).reached (.start s) es, Conserved t) ↔
      ∀ p ∈ (consoleLoop img).iters (.start s) es,
        p.2.key.isSome = true → p.1.smp.hv.uart.rx = none := by
  have hstart : Conserved (.start s) := rfl
  exact RunLoop.Loop.reached_iff (P := Conserved)
    (C := fun e (t : Typed) => e.key.isSome = true → t.smp.hv.uart.rx = none)
    (fun _ e h _ => conserved_body_iff img e h) hstart

/-- A pass that takes the key `b` and ends with a spurious interrupt. -/
def keyPass (b : U8) : Event where
  ctx := { zeroCtx with exitReason := 1 }
  iar := 1023
  key := some b

/-- Of two keys in a row the first one is lost. -/
theorem second_key_overwrites :
    ¬ ∀ t ∈ (consoleLoop exampleImage).reached (.start linuxStart) [keyPass 0x61, keyPass 0x62],
      Conserved t := by
  decide +kernel

/-! ## 3. The receive interrupt -/

/-- The receive interrupt is asserted and SPI 33 is enabled. -/
def RxRaised (h : Hv) : Prop := vuartRxIrqPending h.uart = true ∧ vgicSpiEnabled h.vgic 0 33 = true

/-- A list register of vCPU 0 holds INTID 33. -/
def RxHeld (h : Hv) : Prop := LrsHold 33 (h.vcpus 0).ichLr

def RxLevel (h : Hv) : Prop := RxRaised h → RxHeld h

instance (h : Hv) : Decidable (RxRaised h) := inferInstanceAs (Decidable (_ ∧ _))

instance (h : Hv) : Decidable (RxHeld h) := inferInstanceAs (Decidable (LrsHold _ _))

instance (h : Hv) : Decidable (RxLevel h) := inferInstanceAs (Decidable (RxRaised h → RxHeld h))

/-- The guest has the receive interrupt unmasked and SPI 33 enabled. -/
def RxArmed (h : Hv) : Prop :=
  h.uart.imsc &&& pl011Rxim ≠ 0 ∧ vgicSpiEnabled h.vgic 0 33 = true

instance (h : Hv) : Decidable (RxArmed h) := inferInstanceAs (Decidable (_ ∧ _))

/-- The state in which the guest is entered in the pass. -/
def entryHv (img : Image) (e : IpiEvent) (s : Smp) : Hv := (s.ready img e.ev.key).hv

/-- A pass from `h` with this exit leaves the interrupt raised: a byte waits that the exit
does not read, and after its store, if it is one to the mask or to an enable register,
the interrupt is unmasked and SPI 33 enabled. -/
structure RxLeft (e : Event) (h : Hv) : Prop where
  waits : (e.key.or h.uart.rx).isSome = true
  unread : e.readsDr = false
  unmasked : e.imscStore.getD h.uart.imsc &&& pl011Rxim ≠ 0
  enabled : (e.ctx.enableAct 0 (spiBit 0 33)).getD (vgicSpiEnabled h.vgic 0 33) = true

/-- The guest's steps on the list registers of vCPU 0. -/
def IpiEvent.stepsOf0 (e : IpiEvent) (s : Smp) : List LrStep := if s.cur = 0 then e.steps else []

/-- The condition on a pass. -/
structure RxSteady (e : IpiEvent) (s : Smp) : Prop where
  /-- A key that raises the interrupt finds INTID 33 in a list register, or one
  free. -/
  room : e.ev.key.isSome = true → RxArmed s.hv →
    RxHeld s.hv ∨ freeSlot (s.hv.vcpus 0).ichLr ≠ none
  /-- The guest does not end INTID 33 and leave the interrupt raised. -/
  kept : RxLeft e.ev s.hv → RxHeld s.hv →
    LrsHold 33 (runLrs (e.stepsOf0 s) (s.hv.vcpus 0).ichLr)
  /-- The same when the key of the pass has just put it into the first free list
  register. -/
  fresh : RxLeft e.ev s.hv → ¬ RxHeld s.hv → e.ev.key.isSome = true → RxArmed s.hv →
    ∀ i, freeSlot (s.hv.vcpus 0).ichLr = some i →
      lrHolds 33 (runLrs (e.stepsOf0 s) (fun _ => pendingLr 33) i) = true
  /-- The exit does not unmask or enable the interrupt with a byte waiting and INTID 33
  in no list register. -/
  early : RxLeft e.ev s.hv → ¬ RxArmed s.hv → RxHeld s.hv

instance (e : Event) (h : Hv) : Decidable (RxLeft e h) :=
  decidable_of_iff ((e.key.or h.uart.rx).isSome = true ∧ e.readsDr = false ∧
      e.imscStore.getD h.uart.imsc &&& pl011Rxim ≠ 0 ∧
      (e.ctx.enableAct 0 (spiBit 0 33)).getD (vgicSpiEnabled h.vgic 0 33) = true)
    ⟨fun h => ⟨h.1, h.2.1, h.2.2.1, h.2.2.2⟩, fun h => ⟨h.1, h.2, h.3, h.4⟩⟩

instance (e : IpiEvent) (s : Smp) : Decidable (RxSteady e s) :=
  decidable_of_iff
    ((e.ev.key.isSome = true → RxArmed s.hv →
        RxHeld s.hv ∨ freeSlot (s.hv.vcpus 0).ichLr ≠ none) ∧
      (RxLeft e.ev s.hv → RxHeld s.hv →
        LrsHold 33 (runLrs (e.stepsOf0 s) (s.hv.vcpus 0).ichLr)) ∧
      (RxLeft e.ev s.hv → ¬ RxHeld s.hv → e.ev.key.isSome = true → RxArmed s.hv →
        ∀ i, freeSlot (s.hv.vcpus 0).ichLr = some i →
          lrHolds 33 (runLrs (e.stepsOf0 s) (fun _ => pendingLr 33) i) = true) ∧
      (RxLeft e.ev s.hv → ¬ RxArmed s.hv → RxHeld s.hv))
    ⟨fun h => ⟨h.1, h.2.1, h.2.2.1, h.2.2.2⟩, fun h => ⟨h.room, h.kept, h.fresh, h.early⟩⟩

section Level

variable {img : Image} {e : IpiEvent} {s t : Smp} {c : Fin 2} {h : Hv}
  (steps : List LrStep)

theorem spiEnabled_congr {g g' : Vgic} (hg : g'.vg = g.vg) (k : U32) :
    vgicSpiEnabled g' 0 k = vgicSpiEnabled g 0 k := by
  rw [vgicSpiEnabled, vgicSpiEnabled, hg]

theorem rxRaised_iff : RxRaised h ↔ h.uart.rx.isSome = true ∧ RxArmed h := by
  rw [RxRaised, vuartRxIrqPending, Bool.and_eq_true, decide_eq_true_eq, RxArmed, and_assoc]

/-- At the entry, the key of the pass waits or the byte that waited before. -/
theorem rxRaised_entry_iff :
    RxRaised (entryHv img e s) ↔ (e.ev.key.or s.hv.uart.rx).isSome = true ∧ RxArmed s.hv := by
  have hrx : (entryHv img e s).uart.rx = e.ev.key.or s.hv.uart.rx := exited_rx e.ev
  have himsc : (entryHv img e s).uart.imsc = s.hv.uart.imsc := exited_imsc e.ev
  have hvg : (entryHv img e s).vgic.vg = s.hv.vgic.vg := exited_vg e.ev
  rw [rxRaised_iff, hrx, RxArmed, himsc, spiEnabled_congr hvg, RxArmed]

/-- After a pass that goes on, what the exit's access and the state before it say. -/
theorem rxRaised_next_iff (hb : (ipiLoop img).body e s = .next t) :
    RxRaised t.hv ↔ RxLeft e.ev s.hv := by
  obtain ⟨hgo, hhv, -⟩ := linuxVgicBoot_next_inv hb
  have hctx := Smp.exited_ctx img (e.exit img s) s
  have hrx : t.hv.uart.rx = if e.ev.readsDr then none else e.ev.key.or s.hv.uart.rx := by
    rw [hhv, linuxExit_rx hctx, exited_rx]
    rfl
  have himsc : t.hv.uart.imsc = e.ev.imscStore.getD s.hv.uart.imsc := by
    rw [hhv, linuxExit_imsc hctx, exited_imsc]
    rfl
  have hspi : vgicSpiEnabled t.hv.vgic 0 33 =
      (e.ev.ctx.enableAct 0 (spiBit 0 33)).getD (vgicSpiEnabled s.hv.vgic 0 33) := by
    rw [hhv, spiEnabled_congr (linuxExit_vg hctx),
      spiEnabled_gicExit _ 0 0 _ (by decide) (by decide), spiEnabled_congr (exited_vg _)]
    rfl
  rw [rxRaised_iff, RxArmed, hrx, himsc, hspi]
  cases hread : e.ev.readsDr with
  | true =>
    refine ⟨fun h => absurd h.1 Bool.false_ne_true, fun h => ?_⟩
    exact absurd (h.unread.symm.trans hread) Bool.false_ne_true
  | false => exact ⟨fun h => ⟨h.1, hread, h.2.1, h.2.2⟩, fun h => ⟨h.waits, h.unmasked, h.enabled⟩⟩

/-- INTID 33 after an injection and the guest's steps. -/
theorem lrsHold_inject_steps (k : U32) : LrsHold 33 (runLrs steps ((h.inject c k).vcpus 0).ichLr) ↔
    LrsHold 33 (runLrs steps (h.vcpus 0).ichLr) ∨ (c = 0 ∧ k = 33 ∧ ¬ RxHeld h ∧
      ∃ i, freeSlot (h.vcpus 0).ichLr = some i ∧
        lrHolds 33 (runLrs steps (fun _ => pendingLr 33) i) = true) := by
  by_cases hc : c = 0
  · subst hc
    rw [Hv.inject, setVcpu_vcpus_self, lrsHold_runLrs_inject, RxHeld]
    simp only [true_and]
  · rw [Hv.inject, setVcpu_vcpus_of_ne _ (Ne.symm hc)]
    simp only [hc, false_and, or_false]

theorem lrsHold_inject_steps_of_ne {k : U32} (hk : k ≠ 33) :
    LrsHold 33 (runLrs steps ((h.inject c k).vcpus 0).ichLr) ↔
      LrsHold 33 (runLrs steps (h.vcpus 0).ichLr) := by
  rw [lrsHold_inject_steps steps]
  exact ⟨fun hor => hor.resolve_right fun hnew => hk hnew.2.1, .inl⟩

theorem lrsHold_deliverSgi_steps :
    LrsHold 33 (runLrs steps ((h.deliverSgi c).vcpus 0).ichLr) ↔
      LrsHold 33 (runLrs steps (h.vcpus 0).ichLr) := by
  rcases vgicPopSgi_cases c.val h.vgic with hpop | ⟨b, hlt, hpop⟩
  · simp only [Hv.deliverSgi, hpop]
  · have hne : BitVec.ofNat 32 b ≠ 33 := by
      intro heq
      have hnat := congrArg BitVec.toNat heq
      rw [BitVec.toNat_ofNat] at hnat
      change _ = 33 at hnat
      omega
    simp only [Hv.deliverSgi, hpop]
    exact lrsHold_inject_steps_of_ne steps hne

/-- A key puts INTID 33 into the first free list register, if the interrupt is armed and
in none. -/
theorem lrsHold_keyIn_steps (key : Option U8) :
    LrsHold 33 (runLrs steps ((h.keyIn key).vcpus 0).ichLr) ↔
      LrsHold 33 (runLrs steps (h.vcpus 0).ichLr) ∨
        (key.isSome = true ∧ RxArmed h ∧ ¬ RxHeld h ∧ ∃ i, freeSlot (h.vcpus 0).ichLr = some i ∧
          lrHolds 33 (runLrs steps (fun _ => pendingLr 33) i) = true) := by
  cases key with
  | none => simp [Hv.keyIn]
  | some ch =>
    have hcond : (vuartRxIrqPending (vuartPushRx ch h.uart) && vgicSpiEnabled h.vgic 0 33) = true ↔
        RxArmed h := by
      rw [Bool.and_eq_true, vuartRxIrqPending, Bool.and_eq_true, decide_eq_true_eq, RxArmed]
      exact and_congr_left fun _ => and_iff_right rfl
    simp only [Hv.keyIn]
    by_cases harmed : RxArmed h
    · rw [if_pos (hcond.mpr harmed), lrsHold_inject_steps]
      simp only [true_and, harmed, Option.isSome_some]
      rfl
    · rw [if_neg fun h => harmed (hcond.mp h)]
      simp only [harmed, false_and, and_false, or_false]

theorem bringUp_vcpu0 (img : Image) (s : Smp) :
    ((s.bringUp img).hv.vcpus 0).ichLr = (s.hv.vcpus 0).ichLr := by
  have hne : (0 : Fin 2) ≠ 1 := by decide
  simp only [Smp.bringUp]
  split_ifs
  · simp only [Hv.cpuOn, setVcpu_vcpus_of_ne _ hne]
  · rfl

/-- INTID 33 in the list registers with which the guest is entered, after its steps. -/
theorem lrsHold_entry_steps : LrsHold 33 (runLrs steps ((entryHv img e s).vcpus 0).ichLr) ↔
    LrsHold 33 (runLrs steps (s.hv.vcpus 0).ichLr) ∨
      (e.ev.key.isSome = true ∧ RxArmed s.hv ∧ ¬ RxHeld s.hv ∧
        ∃ i, freeSlot (s.hv.vcpus 0).ichLr = some i ∧
          lrHolds 33 (runLrs steps (fun _ => pendingLr 33) i) = true) := by
  have hentry : entryHv img e s = ((s.bringUp img).hv.keyIn e.ev.key).deliverSgi
      (s.bringUp img).cur := rfl
  have harmed : RxArmed (s.bringUp img).hv ↔ RxArmed s.hv := by
    rw [RxArmed, bringUp_uart, bringUp_vgic, RxArmed]
  rw [hentry, lrsHold_deliverSgi_steps, lrsHold_keyIn_steps, harmed, RxHeld, bringUp_vcpu0, RxHeld]

/-- The level at the entry. -/
theorem rxLevel_entry_iff (hlevel : RxLevel s.hv) : RxLevel (entryHv img e s) ↔
    (e.ev.key.isSome = true → RxArmed s.hv →
      RxHeld s.hv ∨ freeSlot (s.hv.vcpus 0).ichLr ≠ none) := by
  have hheld : RxHeld (entryHv img e s) ↔ RxHeld s.hv ∨ (e.ev.key.isSome = true ∧ RxArmed s.hv ∧
      freeSlot (s.hv.vcpus 0).ichLr ≠ none) := by
    rw [show RxHeld (entryHv img e s) ↔ _ from lrsHold_entry_steps []]
    constructor
    · rintro (h | ⟨hkey, harmed, -, i, hi, -⟩)
      · exact .inl h
      · exact .inr ⟨hkey, harmed, by simp [hi]⟩
    · rintro (h | ⟨hkey, harmed, hfree⟩)
      · exact .inl h
      · by_cases hs : RxHeld s.hv
        · exact .inl hs
        · obtain ⟨i, hi⟩ := Option.ne_none_iff_exists'.mp hfree
          exact .inr ⟨hkey, harmed, hs, i, hi, lrHolds_pendingLr.mpr rfl⟩
  rw [RxLevel, rxRaised_entry_iff, hheld]
  constructor
  · intro h hkey harmed
    have hwaits : (e.ev.key.or s.hv.uart.rx).isSome = true := by
      rw [Option.isSome_or, hkey, Bool.true_or]
    exact (h ⟨hwaits, harmed⟩).imp_right fun hnew => hnew.2.2
  · rintro h ⟨hwaits, harmed⟩
    cases hkey : e.ev.key.isSome with
    | true => exact (h hkey harmed).imp_right fun hfree => ⟨rfl, harmed, hfree⟩
    | false =>
      rw [Option.isSome_or, hkey, Bool.false_or] at hwaits
      exact .inl (hlevel (rxRaised_iff.mpr ⟨hwaits, harmed⟩))

/-- The exit handlers neither add nor remove INTID 33. -/
theorem rxHeld_next_iff (hb : (ipiLoop img).body e s = .next t) :
    RxHeld t.hv ↔ LrsHold 33 (runLrs (e.stepsOf0 s) ((entryHv img e s).vcpus 0).ichLr) := by
  obtain ⟨-, hhv, -⟩ := linuxVgicBoot_next_inv hb
  have hexit : (((s.exited img (e.exit img s)).hv.vcpus 0).ichLr) =
      runLrs (e.stepsOf0 s) ((entryHv img e s).vcpus 0).ichLr := by
    rw [IpiEvent.stepsOf0]
    by_cases hcur : s.cur = 0
    · rw [if_pos hcur, ← hcur]
      exact congrArg GuestCtx.ichLr (Smp.exited_ctx img (e.exit img s) s)
    · rw [if_neg hcur]
      exact congrArg (fun v : Vcpu => v.ichLr) (setVcpu_vcpus_of_ne _ (Ne.symm hcur))
  rw [← hexit, hhv]
  generalize (s.exited img (e.exit img s)).hv = h0
  have hsame : ∀ h' : Hv, (∀ d, (h'.vcpus d).ichLr = (h0.vcpus d).ichLr) →
      (RxHeld h' ↔ LrsHold 33 (h0.vcpus 0).ichLr) := by
    intro h' hlr
    rw [RxHeld, hlr 0]
  refine linuxExit_cases (P := fun h' => RxHeld h' ↔ LrsHold 33 (h0.vcpus 0).ichLr) Iff.rfl ?_
    (fun _ => hsame _ fun _ => abort_ichLr _ _ _) (hsame _ fun _ => postSgi_ichLr)
    (fun _ => hsame _ fun _ => cntpEmulate_ichLr _) (hsame _ fun _ => psciHandle_ichLr)
    (hsame _ fun d => (setVcpu_ichLr (skip_ichLr _)).trans psciHandle_ichLr)
  unfold Hv.injectTimer
  split_ifs
  · exact lrsHold_inject_steps_of_ne [] (by decide)
  · exact lrsHold_inject_steps_of_ne [] (by decide)
  · exact Iff.rfl

/-- A pass that goes on from a state with the level has it at the entry and after the
exit exactly when it is steady. -/
theorem rxSteady_iff (hlevel : RxLevel s.hv) (hb : (ipiLoop img).body e s = .next t) :
    (RxLevel (entryHv img e s) ∧ RxLevel t.hv) ↔ RxSteady e s := by
  rw [rxLevel_entry_iff hlevel, RxLevel, rxRaised_next_iff hb, rxHeld_next_iff hb,
    lrsHold_entry_steps]
  constructor
  · rintro ⟨hroom, hnext⟩
    refine ⟨hroom, fun hleft hheld => ?_, fun hleft hno _ _ i hi => ?_, fun hleft hno => ?_⟩
    · exact (hnext hleft).resolve_right fun hnew => hnew.2.2.1 hheld
    · obtain ⟨-, -, -, j, hj, hkept⟩ :=
        (hnext hleft).resolve_left fun hold => hno (lrsHold_of_runLrs hold)
      rw [hi] at hj
      rwa [Option.some.inj hj]
    · exact lrsHold_of_runLrs ((hnext hleft).resolve_right fun hnew => hno hnew.2.1)
  · rintro ⟨hroom, hkept, hfresh, hearly⟩
    refine ⟨hroom, fun hleft => ?_⟩
    by_cases hheld : RxHeld s.hv
    · exact .inl (hkept hleft hheld)
    · -- the level held before, so it is the key of this pass that waits
      have harmed : RxArmed s.hv := by
        by_contra hno
        exact hheld (hearly hleft hno)
      have hkey : e.ev.key.isSome = true := by
        have hwaits := hleft.waits
        rw [Option.isSome_or, Bool.or_eq_true] at hwaits
        exact hwaits.resolve_right fun hrx => hheld (hlevel (rxRaised_iff.mpr ⟨hrx, harmed⟩))
      obtain ⟨i, hi⟩ := Option.ne_none_iff_exists'.mp ((hroom hkey harmed).resolve_left hheld)
      exact .inr ⟨hkey, harmed, hheld, i, hi, hfresh hleft hheld hkey harmed i hi⟩

end Level

/-- The loop starts after a reset of the vGIC, with no SPI enabled. -/
theorem rxLevel_of_reset {h : Hv} {g : Vgic} (hg : h.vgic.vg 0 = (vgicReset g).vg 0) :
    RxLevel h := by
  rintro ⟨-, hspi⟩
  have hmax : (0 : Int) < vgicMaxVcpus := by decide
  rw [vgicSpiEnabled, hg] at hspi
  exact absurd hspi (by simp [vgicReset, hmax])

/-- In every run of steady passes, vCPU 0 is never entered with the receive
interrupt raised and INTID 33 in none of its list registers. And a pass that goes on
keeps the level exactly when it is steady. -/
theorem rx_level (img : Image) (s : Smp) (hlevel : RxLevel s.hv) (es : List IpiEvent)
    (hsteady : ∀ p ∈ (ipiLoop img).iters s es, RxSteady p.2 p.1) :
    (∀ p ∈ (ipiLoop img).iters s es, p.1.cur = 0 → RxLevel (entryHv img p.2 p.1)) ∧
    ∀ e s t, RxLevel s.hv → (ipiLoop img).body e s = .next t →
      ((RxLevel (entryHv img e s) ∧ RxLevel t.hv) ↔ RxSteady e s) := by
  have hinv := RunLoop.Loop.iters_of_invariant (L := ipiLoop img) (P := fun s => RxLevel s.hv)
    (fun s e s' hs hC hb => ((rxSteady_iff hs hb).mpr hC).2) hlevel hsteady
  refine ⟨fun p hp _ => ?_, fun e s t hs hb => rxSteady_iff hs hb⟩
  exact (rxLevel_entry_iff (hinv p hp)).mpr (hsteady p hp).room

/-- The guest enables SPI 33 and unmasks the receive interrupt; then a key
arrives. -/
theorem rx_level_enabled_first :
    let es := [storePass 0x08000104 2 [], storePass 0x09000038 0x10 [],
      { ev := keyPass 0x61, steps := [] }, irqPass 1023 []]
    ((ipiLoop exampleImage).iters linuxStart es).length = 4 ∧
    ∀ p ∈ (ipiLoop exampleImage).iters linuxStart es,
      p.1.cur = 0 → RxLevel (entryHv exampleImage p.2 p.1) := by
  intro es
  have hsteady : ∀ p ∈ (ipiLoop exampleImage).iters linuxStart es,
      RxSteady p.2 p.1 := by
    decide +kernel
  have hlevel : RxLevel linuxStart.hv := rxLevel_of_reset (g := (resetHv exampleImage 0).vgic) rfl
  exact ⟨by decide +kernel, (rx_level exampleImage linuxStart hlevel es hsteady).1⟩

/-- The key arrives before the guest unmasks the receive interrupt. -/
theorem late_unmask_is_not_seen :
    let es := [storePass 0x08000104 2 [], { ev := keyPass 0x61, steps := [] },
      storePass 0x09000038 0x10 [], irqPass 1023 []]
    ¬ ∀ p ∈ (ipiLoop exampleImage).iters linuxStart es,
      p.1.cur = 0 → RxLevel (entryHv exampleImage p.2 p.1) := by
  decide +kernel

end FermiHV
