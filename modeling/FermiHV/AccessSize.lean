import FermiHV.VgicIsolation
import FermiHV.Vuart
import FermiHV.Virtio.Overrun

/-!
# Sizes of emulated accesses

The syndrome of a trapped access says how many bytes it moves (SAS). `mmio_emulate`,
`virtio_mmio` and `vblk_mmio` do not look at it and `vgic_mmio` looks for double
words only, so a load of a byte leaves a whole register in Xt and a store of a byte
takes all of Xt into it. An access is faithful to its size if it does not notice the
difference.

1. `AccessForm`, `StoppedAt`: the syndromes.
2. `Decoder`, `AccessFaithful`: a register file, and what the size of an access asks
   of it. The effect of an access is a relation, since the loop behind QueueNotify of a
   disk need not end.
3. `faithful_iff`: if the widths of a register file are lawful, an access is faithful
   exactly when it is no narrower than its register.
4. `uart_lawful`, `vgic_lawful`, `virtio_lawful`: the widths of the four decoders.
5. `access_faithful_iff`: which accesses are faithful, for each of them.
-/

namespace FermiHV

/-! ## 1. Syndromes -/

/-- SSE: a load extends the sign. -/
def issSse (iss : U64) : Bool := (iss >>> 21) &&& 1 = 1

/-- The size of an access and its transfer register. -/
structure AccessForm where
  sas : Fin 4
  srt : Fin 32

def AccessForm.bits (y : AccessForm) : Nat := 8 * 2 ^ y.sas.val

/-- The vCPU has stopped at an access of that form: the syndrome is valid and no sign
is extended. -/
structure StoppedAt (y : AccessForm) (write : Bool) (v : Vcpu) : Prop where
  isv : issIsv (esrIss v.exitEsr) = true
  wnr : issWnr (esrIss v.exitEsr) = write
  sas : issSas (esrIss v.exitEsr) = BitVec.ofNat 64 y.sas.val
  sse : issSse (esrIss v.exitEsr) = false
  srt : issSrt (esrIss v.exitEsr) = y.srt.val

/-- The syndrome of a data abort at such an access. -/
def AccessForm.esr (y : AccessForm) (write : Bool) : U64 :=
  0x93000000 ||| (BitVec.ofNat 64 y.sas.val <<< 22) ||| (BitVec.ofNat 64 y.srt.val <<< 16) |||
    (if write then 0x40 else 0)

/-- A guest stopped there, with `x` in the transfer register. -/
def AccessForm.vcpu (y : AccessForm) (write : Bool) (x : U64) : Vcpu :=
  { (vcpuInit 0x40000000 0 0 0).setX y.srt.val x with exitEsr := y.esr write }

theorem esr_decodes : ∀ (sas : Fin 4) (srt : Fin 32) (write : Bool),
    issIsv (esrIss (AccessForm.esr ⟨sas, srt⟩ write)) = true ∧
    issWnr (esrIss (AccessForm.esr ⟨sas, srt⟩ write)) = write ∧
    issSas (esrIss (AccessForm.esr ⟨sas, srt⟩ write)) = BitVec.ofNat 64 sas.val ∧
    issSse (esrIss (AccessForm.esr ⟨sas, srt⟩ write)) = false ∧
    issSrt (esrIss (AccessForm.esr ⟨sas, srt⟩ write)) = srt.val := by
  decide +kernel

theorem stoppedAt_vcpu (y : AccessForm) (write : Bool) (x : U64) :
    StoppedAt y write (y.vcpu write x) := by
  obtain ⟨isv, wnr, sas, sse, srt⟩ := esr_decodes y.sas y.srt write
  exact ⟨isv, wnr, sas, sse, srt⟩

theorem vcpu_getX {y : AccessForm} (hr : y.srt.val < 31) (write : Bool) (x : U64) :
    (y.vcpu write x).getX y.srt.val = x := by
  simp [AccessForm.vcpu, Vcpu.setX, GuestCtx.getX, hr]

/-! ## 2. Register files -/

/-- An emulated register file with states `D`. -/
structure Decoder (D : Type) where
  contains : U64 → Bool
  /-- The vCPU with which the guest goes on after an access. -/
  resume : Vcpu → U64 → D → Vcpu
  /-- The states that an access can leave. -/
  effect : Vcpu → U64 → D → D → Prop
  /-- The states after a reset. -/
  start : D → Prop
  /-- One access of some guest. -/
  guest : D → D → Prop
  /-- What a load of at most a word leaves in Xt. -/
  value : U64 → D → U64
  /-- What a store does, of a double word or less. -/
  store : Bool → U64 → U64 → D → D → Prop
  /-- How many bits of a register a load can find set. -/
  readWidth : U64 → Nat
  /-- How many bits of Xt a store takes. -/
  writeWidth : U64 → Nat

/-- The states that the accesses of guests lead to. -/
def Decoder.Reach {D : Type} (dec : Decoder D) (d : D) : Prop :=
  ∃ d₀, dec.start d₀ ∧ Relation.ReflTransGen dec.guest d₀ d

/-- Loads leave a value of the access's size in Xt, and what stores leave depends on that
many bits of Xt only. -/
structure AccessFaithful {D : Type} (dec : Decoder D) (y : AccessForm) (ipa : U64) : Prop where
  load : ∀ d, dec.Reach d → ∀ v, StoppedAt y false v →
    ((dec.resume v ipa d).getX y.srt.val).toNat < 2 ^ y.bits
  store : ∀ d, dec.Reach d → ∀ v v', StoppedAt y true v → StoppedAt y true v' →
    (v.getX y.srt.val).toNat % 2 ^ y.bits = (v'.getX y.srt.val).toNat % 2 ^ y.bits →
    ∀ d', dec.effect v ipa d d' ↔ dec.effect v' ipa d d'

/-- `value` and `store` are what an access does. -/
structure Decoder.Decodes {D : Type} (dec : Decoder D) : Prop where
  guest_effect : ∀ {v ipa d d'}, dec.contains ipa = true → dec.effect v ipa d d' → dec.guest d d'
  load_eq : ∀ {y v ipa d}, StoppedAt y false v → y.sas ≠ 3 →
    dec.resume v ipa d = (v.setX y.srt.val (dec.value ipa d)).skip
  store_eq : ∀ {y v ipa d}, StoppedAt y true v →
    dec.effect v ipa d = dec.store (decide (y.sas = 3)) ipa (v.getX y.srt.val) d

/-- The widths bound what an access moves, and are exact for bytes and half words. -/
structure Decoder.Lawful {D : Type} (dec : Decoder D) : Prop extends dec.Decodes where
  width_le : ∀ ipa, dec.readWidth ipa ≤ 32 ∧ dec.writeWidth ipa ≤ 32
  value_lt : ∀ {ipa d}, dec.contains ipa = true → dec.Reach d →
    (dec.value ipa d).toNat < 2 ^ dec.readWidth ipa
  value_wide : ∀ {ipa b}, dec.contains ipa = true → b = 8 ∨ b = 16 → b < dec.readWidth ipa →
    ∃ d, dec.Reach d ∧ 2 ^ b ≤ (dec.value ipa d).toNat
  store_low : ∀ {ipa d x x'}, dec.contains ipa = true → dec.Reach d →
    x.toNat ≡ x'.toNat [MOD 2 ^ dec.writeWidth ipa] →
    dec.store false ipa x d = dec.store false ipa x' d
  store_wide : ∀ {ipa b}, dec.contains ipa = true → b = 8 ∨ b = 16 → b < dec.writeWidth ipa →
    ∃ d, dec.Reach d ∧ ∃ d', dec.store false ipa 0 d d' ∧
      ¬ dec.store false ipa (BitVec.ofNat 64 (2 ^ b)) d d'

/-! ## 3. Which accesses are faithful -/

section Lawful

variable {D : Type} {dec : Decoder D} {y : AccessForm} {ipa : U64}

theorem Decoder.Reach.of_start {d : D} (hd : dec.start d) : dec.Reach d := ⟨d, hd, .refl⟩

/-- A store of a word leads on to a reachable state. -/
theorem Decoder.Reach.store (hdec : dec.Decodes) (hin : dec.contains ipa = true) {d d' : D}
    (hd : dec.Reach d) {x : U64} (h : dec.store false ipa x d d') : dec.Reach d' := by
  have heffect : dec.effect (AccessForm.vcpu ⟨2, 0⟩ true x) ipa d = _ :=
    hdec.store_eq (stoppedAt_vcpu ⟨2, 0⟩ true x)
  rw [vcpu_getX (by decide)] at heffect
  obtain ⟨d₀, hstart, hrun⟩ := hd
  have hd' : dec.effect (AccessForm.vcpu ⟨2, 0⟩ true x) ipa d d' := by
    rw [heffect]
    exact h
  exact ⟨d₀, hstart, hrun.tail (hdec.guest_effect hin hd')⟩

/-- Only bytes and half words are narrower than a register. -/
theorem bits_of_lt_width {w : Nat} (hw : w ≤ 32) (h : y.bits < w) :
    (y.bits = 8 ∨ y.bits = 16) ∧ y.sas ≠ 3 := by
  obtain ⟨sas, srt⟩ := y
  fin_cases sas <;> simp [AccessForm.bits] at h ⊢ <;> omega

theorem bits_eq_of_sas (h : y.sas = 3) : y.bits = 64 := by
  rw [AccessForm.bits, h]
  rfl

theorem load_of_width (hdec : dec.Lawful) (hin : dec.contains ipa = true)
    (hw : dec.readWidth ipa ≤ y.bits) {d : D} (hd : dec.Reach d) {v : Vcpu}
    (hv : StoppedAt y false v) : ((dec.resume v ipa d).getX y.srt.val).toNat < 2 ^ y.bits := by
  by_cases hsas : y.sas = 3
  · -- a double word holds any value
    rw [bits_eq_of_sas hsas]
    exact BitVec.isLt _
  · rw [hdec.load_eq hv hsas, getX_setX_skip]
    split_ifs
    · exact (hdec.value_lt hin hd).trans_le (Nat.pow_le_pow_right (by decide) hw)
    · exact Nat.two_pow_pos _

theorem store_of_width (hdec : dec.Lawful) (hin : dec.contains ipa = true)
    (hw : dec.writeWidth ipa ≤ y.bits) {d : D} (hd : dec.Reach d) {v v' : Vcpu}
    (hv : StoppedAt y true v) (hv' : StoppedAt y true v')
    (hx : (v.getX y.srt.val).toNat % 2 ^ y.bits = (v'.getX y.srt.val).toNat % 2 ^ y.bits) :
    dec.effect v ipa d = dec.effect v' ipa d := by
  rw [hdec.store_eq hv, hdec.store_eq hv']
  by_cases hsas : y.sas = 3
  · rw [bits_eq_of_sas hsas, Nat.mod_eq_of_lt (BitVec.isLt _),
      Nat.mod_eq_of_lt (BitVec.isLt _)] at hx
    rw [BitVec.eq_of_toNat_eq hx]
  · rw [decide_eq_false hsas]
    exact hdec.store_low hin hd (Nat.ModEq.of_dvd (pow_dvd_pow 2 hw) hx)

/-- The zero register loses nothing. -/
theorem faithful_of_zero_register (hdec : dec.Lawful) (hr : y.srt = 31) :
    AccessFaithful dec y ipa where
  load d _ v _ := by
    have hx : (dec.resume v ipa d).getX y.srt.val = 0 := by rw [hr]; rfl
    rw [hx]
    exact Nat.two_pow_pos _
  store d _ v v' hv hv' _ d' := by
    have hx : v.getX y.srt.val = v'.getX y.srt.val := by rw [hr]; rfl
    rw [hdec.store_eq hv, hdec.store_eq hv', hx]

theorem readWidth_le_of_faithful (hdec : dec.Lawful) (hin : dec.contains ipa = true)
    (hr : y.srt.val < 31) (h : AccessFaithful dec y ipa) : dec.readWidth ipa ≤ y.bits := by
  by_contra hlt
  obtain ⟨hbits, hsas⟩ := bits_of_lt_width (hdec.width_le ipa).1 (not_le.mp hlt)
  obtain ⟨d, hd, hwide⟩ := hdec.value_wide hin hbits (not_le.mp hlt)
  have hload := h.load d hd _ (stoppedAt_vcpu y false 0)
  rw [hdec.load_eq (stoppedAt_vcpu y false 0) hsas, getX_setX_skip, if_pos hr] at hload
  omega

theorem writeWidth_le_of_faithful (hdec : dec.Lawful) (hin : dec.contains ipa = true)
    (hr : y.srt.val < 31) (h : AccessFaithful dec y ipa) : dec.writeWidth ipa ≤ y.bits := by
  by_contra hlt
  obtain ⟨hbits, hsas⟩ := bits_of_lt_width (hdec.width_le ipa).2 (not_le.mp hlt)
  obtain ⟨d, hd, d', hzero, hbit⟩ := hdec.store_wide hin hbits (not_le.mp hlt)
  have hstore := h.store d hd _ _ (stoppedAt_vcpu y true 0)
    (stoppedAt_vcpu y true (BitVec.ofNat 64 (2 ^ y.bits)))
  rw [hdec.store_eq (stoppedAt_vcpu y true 0), hdec.store_eq (stoppedAt_vcpu y true _),
    vcpu_getX hr, vcpu_getX hr, decide_eq_false hsas] at hstore
  -- 0 and `2 ^ bits` agree on the bits that the access names
  refine hbit ((hstore ?_ d').mp hzero)
  rcases hbits with hb | hb <;> rw [hb] <;> rfl

/-- An access to a lawful register file is faithful if it is no narrower than its
register, or if it goes through the zero register. -/
theorem faithful_iff (hdec : dec.Lawful) (hin : dec.contains ipa = true) :
    AccessFaithful dec y ipa ↔
      y.srt = 31 ∨ (dec.readWidth ipa ≤ y.bits ∧ dec.writeWidth ipa ≤ y.bits) := by
  constructor
  · intro h
    by_cases hr : y.srt = 31
    · exact .inl hr
    · have hlt : y.srt.val < 31 := by omega
      exact .inr ⟨readWidth_le_of_faithful hdec hin hlt h, writeWidth_le_of_faithful hdec hin hlt h⟩
  · rintro (hr | ⟨hload, hstore⟩)
    · exact faithful_of_zero_register hdec hr
    · exact ⟨fun _ hd _ hv => load_of_width hdec hin hload hd hv,
        fun _ hd _ _ hv hv' hx d' => iff_of_eq (congrFun
          (store_of_width hdec hin hstore hd hv hv' hx) d')⟩

end Lawful

/-! ## 4. The PL011 -/

/-- All ones do not fit into a byte or a half word. -/
theorem le_allOnes {b : Nat} (hb : b = 8 ∨ b = 16) :
    2 ^ b ≤ ((BitVec.allOnes 64).setWidth 32).toNat := by
  rcases hb with rfl | rfl <;> decide

/-- Zero and `2 ^ b` agree on the lowest `b` bits only. -/
theorem zero_ne_bit {b : Nat} (hb : b = 8 ∨ b = 16) :
    (0 : U64).setWidth 32 ≠ (BitVec.ofNat 64 (2 ^ b)).setWidth 32 := by
  rcases hb with rfl | rfl <;> decide

/-- IMSC holds a word; the other registers of the PL011 hold a byte. -/
def uartWidth (ipa : U64) : Nat := if ipa - vuartBase = 0x38 then 32 else 8

def uartDecoder : Decoder Vuart where
  contains := vuartContains
  resume v ipa u := (mmioEmulate v ipa u).1
  effect v ipa u u' := u' = (mmioEmulate v ipa u).2
  start u := u.imsc = 0
  guest u u' := ∃ v ipa, vuartContains ipa = true ∧ u' = (mmioEmulate v ipa u).2
  value ipa u := (vuartRead (ipa - vuartBase) u).1
  store _ ipa x u u' := u' = vuartWrite (ipa - vuartBase) x u
  readWidth := uartWidth
  writeWidth := uartWidth

theorem vuartIdReg_lt (off : U64) : (vuartIdReg off).toNat < 2 ^ 8 := by
  unfold vuartIdReg
  split_ifs <;> decide

theorem ris_lt (u : Vuart) : u.ris.toNat < 2 ^ 8 := by
  unfold Vuart.ris
  split_ifs <;> decide

theorem vuartRead_imsc (u : Vuart) : (vuartRead 0x38 u).1.toNat = u.imsc.toNat :=
  BitVec.toNat_setWidth_of_le (by decide)

/-- Every register of the PL011 but IMSC reads as a byte. -/
theorem vuartRead_lt {off : U64} (h : off ≠ 0x38) (u : Vuart) :
    (vuartRead off u).1.toNat < 2 ^ 8 := by
  simp only [vuartRead, if_neg h]
  split_ifs
  · cases u.rx with
    | none => exact Nat.two_pow_pos _
    | some c =>
      change (c.setWidth 64).toNat < _
      rw [BitVec.toNat_setWidth]
      exact (Nat.mod_le _ _).trans_lt c.isLt
  · change (0x80 ||| 0x10 : U64).toNat < _
    decide
  · change (0x80 ||| 0 : U64).toNat < _
    decide
  · change (u.ris.setWidth 64).toNat < _
    rw [BitVec.toNat_setWidth_of_le (by decide)]
    exact ris_lt u
  · change ((u.ris &&& u.imsc).setWidth 64).toNat < _
    rw [BitVec.toNat_setWidth_of_le (by decide), BitVec.toNat_and]
    exact Nat.and_le_left.trans_lt (ris_lt u)
  · exact vuartIdReg_lt off

theorem vuartWrite_congr {off x x' : U64}
    (hx : x.toNat ≡ x'.toNat [MOD 2 ^ (if off = 0x38 then 32 else 8)]) (u : Vuart) :
    vuartWrite off x u = vuartWrite off x' u := by
  by_cases himsc : off = 0x38
  · subst himsc
    rw [if_pos rfl] at hx
    change { u with imsc := x.setWidth 32 } = { u with imsc := x'.setWidth 32 }
    rw [Bits.setWidth_eq_of_modEq hx]
  · rw [if_neg himsc] at hx
    simp only [vuartWrite, if_neg himsc, Bits.setWidth_eq_of_modEq hx]

/-- Only IMSC is wider than a byte. -/
theorem off_of_lt_uartWidth {ipa : U64} {b : Nat} (hb : b = 8 ∨ b = 16) (h : b < uartWidth ipa) :
    ipa - vuartBase = 0x38 := by
  by_contra hne
  rw [uartWidth, if_neg hne] at h
  omega

theorem uartDecoder_decodes : uartDecoder.Decodes where
  guest_effect {v ipa _ _} hin h := ⟨v, ipa, hin, h⟩
  load_eq hv _ := by
    simp only [uartDecoder, mmioEmulate, hv.isv, hv.wnr, hv.srt, Bool.not_true,
      Bool.false_eq_true, if_false]
  store_eq hv := by
    simp only [uartDecoder, mmioEmulate, hv.isv, hv.wnr, hv.srt, Bool.not_true,
      Bool.false_eq_true, if_false, if_true]

/-- The mask is clear and nothing has been received. -/
def blankVuart : Vuart where
  imsc := 0
  rx := none
  console := []

theorem uart_lawful : uartDecoder.Lawful where
  toDecodes := uartDecoder_decodes
  width_le ipa := by
    simp only [uartDecoder, uartWidth]
    split_ifs <;> decide
  value_lt {ipa u} _ _ := by
    simp only [uartDecoder, uartWidth]
    split_ifs with h
    · rw [h, vuartRead_imsc]
      exact u.imsc.isLt
    · exact vuartRead_lt h u
  value_wide {ipa b} hin hb hlt := by
    have hreach : uartDecoder.Reach blankVuart := .of_start rfl
    refine ⟨_, hreach.store uartDecoder_decodes hin (x := BitVec.allOnes 64) rfl, ?_⟩
    simp only [uartDecoder, off_of_lt_uartWidth hb hlt, vuartRead_imsc]
    exact le_allOnes hb
  store_low _ _ hx := by
    simp only [uartDecoder, vuartWrite_congr hx]
  store_wide {ipa b} _ hb hlt := by
    refine ⟨blankVuart, .of_start rfl, _, rfl, fun heq => ?_⟩
    have himsc := congrArg Vuart.imsc heq
    rw [off_of_lt_uartWidth hb hlt] at himsc
    exact zero_ne_bit hb himsc

/-! ## 5. The GIC -/

/-- The widths that loads from the GIC find: the group, enable and control registers
hold words, GICD_TYPER has 23 bits, and GICR_TYPER holds the number of its frame from
bit 8 on. -/
def gicReadWidth (ipa : U64) : Nat :=
  if vgicGicrBase ≤ ipa then
    let goff := ipa - vgicGicrBase
    let off := goff % vgicGicrStride
    if off = 0x0008 then (if gicrFrame goff = 0 then 8 else 10)
    else if off = 0x10080 ∨ off = 0x10100 then 32
    else 8
  else
    let off := ipa - vgicGicdBase
    if off = 0x0000 then 32
    else if off = 0x0004 then 23
    else if 0x100 ≤ off ∧ off < 0x200 then 32
    else 8

/-- Stores take a word into the registers that hold state; the others ignore them. -/
def gicWriteWidth (ipa : U64) : Nat :=
  if vgicGicrBase ≤ ipa then
    let off := (ipa - vgicGicrBase) % vgicGicrStride
    if off = 0x10080 ∨ off = 0x10100 ∨ off = 0x10180 then 32 else 8
  else
    let off := ipa - vgicGicdBase
    if off = 0x0000 ∨ (0x100 ≤ off ∧ off < 0x200) then 32 else 8

def vgicDecoder (vm : Fin 4) : Decoder Vgic where
  contains := vgicContains
  resume v ipa g := (vgicMmio vm.val v ipa g).1
  effect v ipa g g' := g' = (vgicMmio vm.val v ipa g).2
  start g := ∃ g₀ n, g = vgicSetNgicr n (vgicReset g₀)
  guest g g' := ∃ (vm : Fin 4) (v : Vcpu) (ipa : U64),
    vgicContains ipa = true ∧ g' = (vgicMmio vm.val v ipa g).2
  value ipa g := (regRead g vm.val ipa).setWidth 64
  store dword ipa x g g' :=
    let g1 := regWrite vm.val ipa (x.setWidth 32) g
    g' = if dword then regWrite vm.val (ipa + 4) ((x >>> 32).setWidth 32) g1 else g1
  readWidth := gicReadWidth
  writeWidth := gicWriteWidth

theorem issDword_eq {y : AccessForm} {write : Bool} {v : Vcpu} (hv : StoppedAt y write v) :
    issDword (esrIss v.exitEsr) = decide (y.sas = 3) := by
  rw [issDword, hv.sas]
  have hall : ∀ sas : Fin 4, decide (BitVec.ofNat 64 sas.val = 3) = decide (sas = 3) := by decide
  exact hall y.sas

theorem vgicDecoder_decodes (vm : Fin 4) : (vgicDecoder vm).Decodes where
  guest_effect {v ipa _ _} hin h := ⟨vm, v, ipa, hin, h⟩
  load_eq hv hsas := by
    simp only [vgicDecoder, vgicMmio, hv.isv, hv.wnr, hv.srt, issDword_eq hv, decide_eq_false hsas,
      Bool.not_true, Bool.false_eq_true, if_false]
  store_eq hv := by
    simp only [vgicDecoder, vgicMmio, hv.isv, hv.wnr, hv.srt, issDword_eq hv,
      Bool.not_true, Bool.false_eq_true, if_false, if_true]

/-- In the window a frame is one of four. -/
theorem gicrFrame_of_inWindow {ipa : U64} (hin : vgicContains ipa = true)
    (hr : vgicGicrBase ≤ ipa) :
    0 ≤ gicrFrame (ipa - vgicGicrBase) ∧ gicrFrame (ipa - vgicGicrBase) ≤ 3 := by
  have hlt : (ipa - vgicGicrBase).toNat < 0x80000 := by
    have hwin := vgicContains_iff.mp hin
    simp only [vgicGicrBase, BitVec.le_def] at hr ⊢
    bv_omega
  rw [gicrFrame_eq (by omega)]
  omega

/-- GICR_TYPER of frame `f`. -/
theorem typer_bounds {f : Int} (h0 : 0 ≤ f) (h3 : f ≤ 3) (last : Prop) [Decidable last] :
    ((if last then 1#32 <<< 4 else 0) ||| (BitVec.ofInt 32 f <<< 8)).toNat < 2 ^ 10 ∧
    (f = 0 → ((if last then 1#32 <<< 4 else 0) ||| (BitVec.ofInt 32 f <<< 8)).toNat < 2 ^ 8) ∧
    (f ≠ 0 → 2 ^ 8 ≤ ((if last then 1#32 <<< 4 else 0) ||| (BitVec.ofInt 32 f <<< 8)).toNat) := by
  have hf : f = 0 ∨ f = 1 ∨ f = 2 ∨ f = 3 := by omega
  rcases hf with rfl | rfl | rfl | rfl <;> split_ifs <;> decide

theorem regRead_gicr_lt (g : Vgic) (vm : Int) {ipa : U64} (hin : vgicContains ipa = true)
    (hr : vgicGicrBase ≤ ipa) : (regRead g vm ipa).toNat < 2 ^ gicReadWidth ipa := by
  obtain ⟨h0, h3⟩ := gicrFrame_of_inWindow hin hr
  simp only [regRead, gicReadWidth, if_pos hr]
  generalize (ipa - vgicGicrBase) % vgicGicrStride = off
  generalize gicrFrame (ipa - vgicGicrBase) = frame at h0 h3
  by_cases htyper : off = 0x0008
  · subst htyper
    rw [if_neg (by decide), if_pos rfl, if_pos rfl]
    by_cases hzero : frame = 0
    · rw [if_pos hzero]
      exact (typer_bounds h0 h3 _).2.1 hzero
    · rw [if_neg hzero]
      exact (typer_bounds h0 h3 _).1
  by_cases hword : off = 0x10080 ∨ off = 0x10100
  · rw [if_neg htyper, if_neg htyper, if_pos hword]
    exact BitVec.isLt _
  · have hframe : (BitVec.ofInt 32 frame).toNat < 2 ^ 8 := by
      have hf : frame = 0 ∨ frame = 1 ∨ frame = 2 ∨ frame = 3 := by omega
      rcases hf with rfl | rfl | rfl | rfl <;> decide
    obtain ⟨hgroup, henable⟩ := not_or.mp hword
    rw [if_neg htyper, if_neg htyper, if_neg hword, if_neg hgroup, if_neg henable]
    split_ifs
    · decide
    · exact hframe
    · decide
    · decide

theorem regRead_gicd_lt (g : Vgic) (vm : Int) {ipa : U64} (hr : ¬ vgicGicrBase ≤ ipa) :
    (regRead g vm ipa).toNat < 2 ^ gicReadWidth ipa := by
  simp only [regRead, gicReadWidth, if_neg hr]
  generalize ipa - vgicGicdBase = off
  by_cases hctlr : off = 0x0000
  · rw [if_pos hctlr, if_pos hctlr]
    exact BitVec.isLt _
  by_cases htyper : off = 0x0004
  · rw [if_neg hctlr, if_pos htyper, if_neg hctlr, if_pos htyper]
    decide
  rw [if_neg hctlr, if_neg htyper, if_neg hctlr, if_neg htyper]
  by_cases hword : 0x100 ≤ off ∧ off < 0x200
  · rw [if_pos hword]
    exact BitVec.isLt _
  · have hset : ¬ (0x100 ≤ off ∧ off < 0x180) := fun h => hword ⟨h.1, by bv_omega⟩
    have hclear : ¬ (0x180 ≤ off ∧ off < 0x200) := fun h => hword ⟨by bv_omega, h.2⟩
    rw [if_neg hword, if_neg hset, if_neg hclear]
    split_ifs <;> decide

theorem regRead_lt (g : Vgic) (vm : Int) {ipa : U64} (hin : vgicContains ipa = true) :
    (regRead g vm ipa).toNat < 2 ^ gicReadWidth ipa := by
  by_cases hr : vgicGicrBase ≤ ipa
  · exact regRead_gicr_lt g vm hin hr
  · exact regRead_gicd_lt g vm hr

/-- A store to a register without state does nothing, and the others take a word. -/
theorem regWrite_congr {vm : Int} {ipa x x' : U64}
    (hx : x.toNat ≡ x'.toNat [MOD 2 ^ gicWriteWidth ipa]) (g : Vgic) :
    regWrite vm ipa (x.setWidth 32) g = regWrite vm ipa (x'.setWidth 32) g := by
  by_cases hr : vgicGicrBase ≤ ipa
  · simp only [regWrite, gicWriteWidth, if_pos hr] at hx ⊢
    generalize (ipa - vgicGicrBase) % vgicGicrStride = off at hx
    by_cases hword : off = 0x10080 ∨ off = 0x10100 ∨ off = 0x10180
    · rw [if_pos hword] at hx
      rw [Bits.setWidth_eq_of_modEq hx]
    · simp only [not_or] at hword
      rw [if_neg hword.1, if_neg hword.2.1, if_neg hword.2.2, if_neg hword.1, if_neg hword.2.1,
        if_neg hword.2.2]
  · simp only [regWrite, gicWriteWidth, if_neg hr] at hx ⊢
    generalize ipa - vgicGicdBase = off at hx
    by_cases hword : off = 0x0000 ∨ (0x100 ≤ off ∧ off < 0x200)
    · rw [if_pos hword] at hx
      rw [Bits.setWidth_eq_of_modEq hx]
    · obtain ⟨hctlr, hword⟩ := not_or.mp hword
      have hset : ¬ (0x100 ≤ off ∧ off < 0x180) := fun h => hword ⟨h.1, by bv_omega⟩
      have hclear : ¬ (0x180 ≤ off ∧ off < 0x200) := fun h => hword ⟨by bv_omega, h.2⟩
      rw [if_neg hctlr, if_neg hset, if_neg hclear, if_neg hctlr, if_neg hset, if_neg hclear]

/-- The registers of the GIC that set a word of its state. -/
def GicSets (ipa : U64) : Prop :=
  (vgicGicrBase ≤ ipa ∧ ((ipa - vgicGicrBase) % vgicGicrStride = 0x10080 ∨
    (ipa - vgicGicrBase) % vgicGicrStride = 0x10100)) ∨
  (¬ vgicGicrBase ≤ ipa ∧ (ipa - vgicGicdBase = 0x0000 ∨
    (0x100 ≤ ipa - vgicGicdBase ∧ ipa - vgicGicdBase < 0x180)))

/-- Those that clear bits of one, each 0x80 above the register that sets them. -/
def GicClears (ipa : U64) : Prop :=
  (vgicGicrBase ≤ ipa ∧ (ipa - vgicGicrBase) % vgicGicrStride = 0x10180) ∨
  (¬ vgicGicrBase ≤ ipa ∧ 0x180 ≤ ipa - vgicGicdBase ∧ ipa - vgicGicdBase < 0x200)

/-- The word of the state behind such a register. -/
def gicWord (vm : Int) (ipa : U64) (g : Vgic) : U32 :=
  if vgicGicrBase ≤ ipa then
    let s := g.vg (gicrIndex vm (gicrFrame (ipa - vgicGicrBase)))
    if (ipa - vgicGicrBase) % vgicGicrStride = 0x10080 then s.group else s.enabled
  else
    let off := ipa - vgicGicdBase
    if off = 0x0000 then (g.vg vm).gicdCtlr
    else (g.vg vm).spiEnabled (spiIndex off (if off < 0x180 then 0x100 else 0x180))

theorem resetVgic_vg (i : Int) : resetVgic.vg i = ⟨0, 0, 0, fun _ => 0⟩ := ite_self _

theorem gicWord_regWrite_set {vm : Int} {ipa : U64} (h : GicSets ipa) (val : U32) :
    gicWord vm ipa (regWrite vm ipa val resetVgic) = val := by
  rcases h with ⟨hr, hoff | hoff⟩ | ⟨hr, hoff | hoff⟩
  · simp only [gicWord, regWrite, if_pos hr, if_pos hoff, modify_vg_self]
  · have hne : ¬ (ipa - vgicGicrBase) % vgicGicrStride = 0x10080 := by rw [hoff]; decide
    simp only [gicWord, regWrite, if_pos hr, if_pos hoff, if_neg hne, modify_vg_self,
      resetVgic_vg]
    exact BitVec.zero_or
  · simp only [gicWord, regWrite, if_neg hr, if_pos hoff, modify_vg_self]
  · have hne : ¬ ipa - vgicGicdBase = 0x0000 := by bv_omega
    simp only [gicWord, regWrite, if_neg hr, if_pos hoff, if_pos hoff.2, if_neg hne,
      modify_vg_self, Function.update_self, resetVgic_vg]
    exact BitVec.zero_or

theorem gicWord_regWrite_clear {vm : Int} {ipa : U64} (h : GicClears ipa) (val : U32) (g : Vgic) :
    gicWord vm ipa (regWrite vm ipa val g) = gicWord vm ipa g &&& ~~~val := by
  rcases h with ⟨hr, hoff⟩ | ⟨hr, hoff⟩
  · have hgroup : ¬ (ipa - vgicGicrBase) % vgicGicrStride = 0x10080 := by rw [hoff]; decide
    have henable : ¬ (ipa - vgicGicrBase) % vgicGicrStride = 0x10100 := by rw [hoff]; decide
    simp only [gicWord, regWrite, if_pos hr, if_pos hoff, if_neg hgroup, if_neg henable,
      modify_vg_self]
  · have hctlr : ¬ ipa - vgicGicdBase = 0x0000 := by bv_omega
    have hset : ¬ (0x100 ≤ ipa - vgicGicdBase ∧ ipa - vgicGicdBase < 0x180) := by bv_omega
    have hlow : ¬ ipa - vgicGicdBase < 0x180 := by bv_omega
    simp only [gicWord, regWrite, if_neg hr, if_neg hctlr, if_neg hset, if_pos hoff, if_neg hlow,
      modify_vg_self, Function.update_self]

/-- GICR_ISENABLER0 is 0x80 below GICR_ICENABLER0 of the same frame. -/
theorem gicr_sub {goff : U64} (h : goff % vgicGicrStride = 0x10180) :
    (goff - 0x80) % vgicGicrStride = 0x10100 ∧ gicrFrame (goff - 0x80) = gicrFrame goff := by
  have hmod : goff.toNat % 0x20000 = 0x10180 := by
    rw [← BitVec.toNat_inj, BitVec.toNat_umod] at h
    exact h
  have hsub : (goff - 0x80).toNat = goff.toNat - 0x80 := by bv_omega
  constructor
  · rw [← BitVec.toNat_inj, BitVec.toNat_umod, hsub]
    change (goff.toNat - 0x80) % 0x20000 = 0x10100
    omega
  · have hdiv : (goff - 0x80) / vgicGicrStride = goff / vgicGicrStride := by
      rw [← BitVec.toNat_inj, BitVec.toNat_udiv, BitVec.toNat_udiv, hsub]
      change (goff.toNat - 0x80) / 0x20000 = goff.toNat / 0x20000
      omega
    rw [gicrFrame, gicrFrame, hdiv]

/-- `ICENABLER0` of a frame and the register 0x80 below it. -/
theorem gicSets_of_clears_gicr {ipa : U64} (hin : vgicContains ipa = true)
    (hr : vgicGicrBase ≤ ipa) (hoff : (ipa - vgicGicrBase) % vgicGicrStride = 0x10180) :
    vgicContains (ipa - 0x80) = true ∧ GicSets (ipa - 0x80) ∧
      ∀ vm g, gicWord vm (ipa - 0x80) g = gicWord vm ipa g := by
  obtain ⟨hoff', hframe⟩ := gicr_sub hoff
  have hsub : ipa - vgicGicrBase - 0x80 = ipa - 0x80 - vgicGicrBase := by bv_omega
  have hge : 0x10180 ≤ (ipa - vgicGicrBase).toNat := by
    have hmod := hoff
    rw [← BitVec.toNat_inj, BitVec.toNat_umod] at hmod
    exact (show (ipa - vgicGicrBase).toNat % 0x20000 = 0x10180 from hmod) ▸ Nat.mod_le _ _
  rw [hsub] at hoff' hframe
  have hr' : vgicGicrBase ≤ ipa - 0x80 := by
    simp only [vgicGicrBase] at hr hge ⊢
    bv_omega
  refine ⟨?_, .inl ⟨hr', .inr hoff'⟩, fun vm g => ?_⟩
  · rw [vgicContains_iff] at hin ⊢
    simp only [vgicGicrBase] at hr hr'
    bv_omega
  · have hne : ¬ (ipa - vgicGicrBase) % vgicGicrStride = 0x10080 := by rw [hoff]; decide
    have hne' : ¬ (ipa - 0x80 - vgicGicrBase) % vgicGicrStride = 0x10080 := by rw [hoff']; decide
    simp only [gicWord, if_pos hr, if_pos hr', if_neg hne, if_neg hne', hframe]

/-- A clear-enable register of the distributor and the one 0x80 below it. -/
theorem gicSets_of_clears_gicd {ipa : U64} (hr : ¬ vgicGicrBase ≤ ipa)
    (hlo : 0x180 ≤ ipa - vgicGicdBase) (hhi : ipa - vgicGicdBase < 0x200) :
    vgicContains (ipa - 0x80) = true ∧ GicSets (ipa - 0x80) ∧
      ∀ vm g, gicWord vm (ipa - 0x80) g = gicWord vm ipa g := by
  have hr' : ¬ vgicGicrBase ≤ ipa - 0x80 := by
    simp only [vgicGicrBase, vgicGicdBase] at hr hlo hhi ⊢
    bv_omega
  have hset : 0x100 ≤ ipa - 0x80 - vgicGicdBase ∧ ipa - 0x80 - vgicGicdBase < 0x180 := by
    simp only [vgicGicdBase] at hlo hhi ⊢
    bv_omega
  refine ⟨?_, .inr ⟨hr', .inr hset⟩, fun vm g => ?_⟩
  · rw [vgicContains_iff]
    simp only [vgicGicrBase, vgicGicdBase] at hr hset
    bv_omega
  · have hctlr : ¬ ipa - vgicGicdBase = 0x0000 := by bv_omega
    have hctlr' : ¬ ipa - 0x80 - vgicGicdBase = 0x0000 := by bv_omega
    have hlow : ¬ ipa - vgicGicdBase < 0x180 := by bv_omega
    have hidx : spiIndex (ipa - 0x80 - vgicGicdBase) 0x100 =
        spiIndex (ipa - vgicGicdBase) 0x180 := by
      have hsub : ipa - 0x80 - vgicGicdBase - 0x100 = ipa - vgicGicdBase - 0x180 := by bv_omega
      simp only [spiIndex, hsub]
    simp only [gicWord, if_neg hr, if_neg hr', if_neg hctlr, if_neg hctlr', if_neg hlow,
      if_pos hset.2, hidx]

/-- The register that sets what another clears. -/
theorem gicSets_of_clears {ipa : U64} (hin : vgicContains ipa = true) (h : GicClears ipa) :
    vgicContains (ipa - 0x80) = true ∧ GicSets (ipa - 0x80) ∧
      ∀ vm g, gicWord vm (ipa - 0x80) g = gicWord vm ipa g := by
  rcases h with ⟨hr, hoff⟩ | ⟨hr, hlo, hhi⟩
  · exact gicSets_of_clears_gicr hin hr hoff
  · exact gicSets_of_clears_gicd hr hlo hhi

theorem regRead_gicd_enabler {ipa : U64} (hr : ¬ vgicGicrBase ≤ ipa)
    (hlo : 0x100 ≤ ipa - vgicGicdBase) (hhi : ipa - vgicGicdBase < 0x200) (vm : Int) (g : Vgic) :
    regRead g vm ipa = gicWord vm ipa g := by
  simp only [regRead, gicWord, if_neg hr]
  generalize ipa - vgicGicdBase = off at hlo hhi
  have hctlr : ¬ off = 0x0000 := by bv_omega
  have htyper : ¬ off = 0x0004 := by bv_omega
  have hiidr : ¬ off = 0x0008 := by bv_omega
  have hpidr : ¬ off = 0xFFE8 := by bv_omega
  rw [if_neg hctlr, if_neg htyper, if_neg hiidr, if_neg hpidr, if_neg hctlr]
  by_cases hset : off < 0x180
  · rw [if_pos ⟨hlo, hset⟩, if_pos hset]
  · rw [if_neg (fun h => hset h.2), if_pos ⟨by bv_omega, hhi⟩, if_neg hset]

/-- A load finds the word, except through GICR_ICENABLER0. -/
theorem regRead_eq_gicWord {ipa : U64} (h : GicSets ipa ∨ (GicClears ipa ∧ ¬ vgicGicrBase ≤ ipa))
    (vm : Int) (g : Vgic) : regRead g vm ipa = gicWord vm ipa g := by
  rcases h with (⟨hr, hoff | hoff⟩ | ⟨hr, hoff | hoff⟩) | ⟨⟨hr, -⟩ | ⟨-, hoff⟩, hr'⟩
  · simp only [regRead, gicWord, if_pos hr, hoff]
    rfl
  · simp only [regRead, gicWord, if_pos hr, hoff]
    rfl
  · simp only [regRead, gicWord, if_neg hr, if_pos hoff]
  · exact regRead_gicd_enabler hr hoff.1 (by bv_omega) vm g
  · exact absurd hr hr'
  · exact regRead_gicd_enabler hr' (by bv_omega) hoff.2 vm g

theorem gic_wide_write {ipa : U64} {b : Nat} (hb : b = 8 ∨ b = 16) (h : b < gicWriteWidth ipa) :
    GicSets ipa ∨ GicClears ipa := by
  simp only [gicWriteWidth] at h
  split_ifs at h with hr hword hword
  · rcases hword with hoff | hoff | hoff
    · exact .inl (.inl ⟨hr, .inl hoff⟩)
    · exact .inl (.inl ⟨hr, .inr hoff⟩)
    · exact .inr (.inl ⟨hr, hoff⟩)
  · omega
  · rcases hword with hoff | ⟨hlo, hhi⟩
    · exact .inl (.inr ⟨hr, .inl hoff⟩)
    · by_cases hset : ipa - vgicGicdBase < 0x180
      · exact .inl (.inr ⟨hr, .inr ⟨hlo, hset⟩⟩)
      · exact .inr (.inr ⟨hr, by bv_omega, hhi⟩)
  · omega

/-- What is wider than a byte to loads: the type registers and the words. -/
theorem gic_wide_read {ipa : U64} {b : Nat} (hb : b = 8 ∨ b = 16) (h : b < gicReadWidth ipa) :
    (vgicGicrBase ≤ ipa ∧ (ipa - vgicGicrBase) % vgicGicrStride = 0x0008 ∧
      gicrFrame (ipa - vgicGicrBase) ≠ 0 ∧ b = 8) ∨
    (¬ vgicGicrBase ≤ ipa ∧ ipa - vgicGicdBase = 0x0004) ∨
    GicSets ipa ∨ (GicClears ipa ∧ ¬ vgicGicrBase ≤ ipa) := by
  simp only [gicReadWidth] at h
  split_ifs at h with hr htyper hzero hword hctlr htyper hword
  · omega
  · exact .inl ⟨hr, htyper, hzero, by omega⟩
  · exact .inr (.inr (.inl (.inl ⟨hr, hword⟩)))
  · omega
  · exact .inr (.inr (.inl (.inr ⟨hr, .inl hctlr⟩)))
  · exact .inr (.inl ⟨hr, htyper⟩)
  · by_cases hset : ipa - vgicGicdBase < 0x180
    · exact .inr (.inr (.inl (.inr ⟨hr, .inr ⟨hword.1, hset⟩⟩)))
    · exact .inr (.inr (.inr ⟨.inr ⟨hr, by bv_omega, hword.2⟩, hr⟩))
  · omega

section Gic

variable {vm : Fin 4} {ipa : U64}

theorem reach_resetVgic : (vgicDecoder vm).Reach resetVgic := .of_start ⟨_, 1, rfl⟩

/-- The guest can set a word to any value. -/
theorem reach_set (hin : vgicContains ipa = true) (h : GicSets ipa) (x : U64) :
    ∃ g, (vgicDecoder vm).Reach g ∧ gicWord vm.val ipa g = x.setWidth 32 :=
  ⟨_, reach_resetVgic.store (vgicDecoder_decodes vm) hin (x := x) rfl, gicWord_regWrite_set h _⟩

/-- It can also set the bits that a register clears. -/
theorem reach_word (hin : vgicContains ipa = true) (h : GicSets ipa ∨ GicClears ipa) (x : U64) :
    ∃ g, (vgicDecoder vm).Reach g ∧ gicWord vm.val ipa g = x.setWidth 32 := by
  rcases h with hset | hclear
  · exact reach_set hin hset x
  · obtain ⟨hin', hset, hword⟩ := gicSets_of_clears hin hclear
    obtain ⟨g, hg, hx⟩ := reach_set hin' hset x
    exact ⟨g, hg, (hword _ _).symm.trans hx⟩

theorem value_word (h : GicSets ipa ∨ (GicClears ipa ∧ ¬ vgicGicrBase ≤ ipa)) (g : Vgic) :
    ((vgicDecoder vm).value ipa g).toNat = (gicWord vm.val ipa g).toNat := by
  change ((regRead g vm.val ipa).setWidth 64).toNat = _
  rw [BitVec.toNat_setWidth_of_le (by decide), regRead_eq_gicWord h]

theorem vgic_lawful : (vgicDecoder vm).Lawful where
  toDecodes := vgicDecoder_decodes vm
  width_le ipa := by
    simp only [vgicDecoder, gicReadWidth, gicWriteWidth]
    split_ifs <;> decide
  value_lt {ipa g} hin _ := by
    change ((regRead g vm.val ipa).setWidth 64).toNat < 2 ^ gicReadWidth ipa
    rw [BitVec.toNat_setWidth_of_le (by decide)]
    exact regRead_lt g _ hin
  value_wide {ipa b} hin hb hlt := by
    rcases gic_wide_read hb hlt with ⟨hr, hoff, hframe, rfl⟩ | ⟨hr, hoff⟩ | hword
    · refine ⟨resetVgic, reach_resetVgic, ?_⟩
      obtain ⟨h0, h3⟩ := gicrFrame_of_inWindow hin hr
      change _ ≤ ((regRead resetVgic vm.val ipa).setWidth 64).toNat
      rw [BitVec.toNat_setWidth_of_le (by decide)]
      simp only [regRead, if_pos hr, hoff]
      exact (typer_bounds h0 h3 _).2.2 hframe
    · have htyper : regRead resetVgic vm.val ipa = 0x480007 := by
        simp only [regRead, if_neg hr, hoff]
        rfl
      refine ⟨resetVgic, reach_resetVgic, ?_⟩
      change _ ≤ ((regRead resetVgic vm.val ipa).setWidth 64).toNat
      rw [BitVec.toNat_setWidth_of_le (by decide), htyper]
      rcases hb with rfl | rfl <;> decide
    · -- a word that a guest has filled before
      have hstate : GicSets ipa ∨ GicClears ipa := hword.imp_right And.left
      obtain ⟨g, hg, hones⟩ := reach_word hin hstate (BitVec.allOnes 64)
      refine ⟨g, hg, ?_⟩
      rw [value_word hword, hones]
      exact le_allOnes hb
  store_low _ _ hx := by
    simp only [vgicDecoder, Bool.false_eq_true, if_false, regWrite_congr hx]
  store_wide {ipa b} hin hb hlt := by
    rcases gic_wide_write hb hlt with hset | hclear
    · refine ⟨resetVgic, reach_resetVgic, _, rfl, fun heq => ?_⟩
      have hword := congrArg (gicWord vm.val ipa) heq
      change gicWord vm.val ipa (regWrite vm.val ipa _ _) =
        gicWord vm.val ipa (regWrite vm.val ipa _ _) at hword
      rw [gicWord_regWrite_set hset, gicWord_regWrite_set hset] at hword
      exact zero_ne_bit hb hword
    · -- clearing shows only where the bits were set
      obtain ⟨g, hg, hones⟩ := reach_word hin (.inr hclear) (BitVec.allOnes 64)
      refine ⟨g, hg, _, rfl, fun heq => ?_⟩
      have hword := congrArg (gicWord vm.val ipa) heq
      change gicWord vm.val ipa (regWrite vm.val ipa _ _) =
        gicWord vm.val ipa (regWrite vm.val ipa _ _) at hword
      rw [gicWord_regWrite_clear hclear, gicWord_regWrite_clear hclear, hones] at hword
      rcases hb with rfl | rfl <;> exact absurd hword (by decide)

end Gic

/-! ## 6. The virtio devices

The registers of the disks are fields of `vb[]`, where a request that wraps overwrites
them. -/

/-- MagicValue and VendorID have 31 bits, QueuePFN and Status hold words, and so does
InterruptStatus of a disk. -/
def virtioReadWidth (k : VirtioKind) (ipa : U64) : Nat :=
  let off := ipa - k.base
  if off = 0x000 ∨ off = 0x00c then 31
  else if off = 0x040 ∨ off = 0x070 ∨ (k = .blk ∧ off = 0x060) then 32
  else 8

/-- Stores take a word into GuestPageSize, QueueNum, QueuePFN and Status, and into
InterruptACK of a disk. -/
def virtioWriteWidth (k : VirtioKind) (ipa : U64) : Nat :=
  let off := ipa - k.base
  if off = 0x028 ∨ off = 0x038 ∨ off = 0x040 ∨ off = 0x070 ∨ (k = .blk ∧ off = 0x064) then 32
  else 8

/-- What guests do: change memory and access registers. -/
def VirtioOp.ByGuest : VirtioOp → Prop
  | .ram _ => True
  | .access k _ _ ipa => k.contains ipa = true
  | .takeIrq .. => False

/-- A store to a register of a device. -/
def virtioStore (k : VirtioKind) (vm : Fin 2) (off : U64) (val : U32) (s t : VHost) : Prop :=
  match k with
  | .con => t = mmioWrite .con vm off val s
  | .blk => flatWrite vm off val s t

/-- Guests change memory and access the registers of all devices. -/
def virtioDecoder (k : VirtioKind) (vm : Fin 2) : Decoder VHost where
  contains := k.contains
  resume v ipa s := (mmio k vm v ipa s).1
  effect v ipa := flatStep (.access k vm v ipa)
  start s := (∀ k vm, s.dev k vm = { resetDev with hostOff := (s.dev k vm).hostOff }) ∧
    ∀ vm, vbDev vm s.vbBytes = s.dev .blk vm
  guest s t := ∃ op : VirtioOp, op.ByGuest ∧ flatStep op s t
  value ipa s := (mmioRead k (s.dev k vm) (ipa - k.base)).setWidth 64
  store _ ipa x := virtioStore k vm (ipa - k.base) (x.setWidth 32)
  readWidth := virtioReadWidth k
  writeWidth := virtioWriteWidth k

theorem virtioDecoder_decodes (k : VirtioKind) (vm : Fin 2) : (virtioDecoder k vm).Decodes where
  guest_effect {v ipa _ _} hin h := ⟨.access k vm v ipa, hin, h⟩
  load_eq hv _ := by
    simp only [virtioDecoder, mmio, hv.isv, hv.wnr, hv.srt, Bool.not_true, Bool.false_eq_true,
      if_false]
  store_eq hv := by
    funext t
    cases k with
    | con =>
      simp only [virtioDecoder, flatStep, virtioStore, mmio, hv.isv, hv.wnr, hv.srt, Bool.not_true,
        Bool.false_eq_true, if_false, if_true]
    | blk =>
      simp only [virtioDecoder, flatStep, virtioStore, flatMmio, hv.isv, hv.wnr, hv.srt, and_self,
        if_true]

/-- InterruptStatus of the consoles has no bit but the first. -/
def ConStatusBit (s : VHost) : Prop := ∀ vm, (s.dev .con vm).intStatus.toNat < 2

section Virtio

variable {k : VirtioKind} {vm : Fin 2} {s t : VHost}

theorem ConStatusBit.setDev (h : ConStatusBit s) {f : VirtioDev → VirtioDev}
    (hf : (f (s.dev .con vm)).intStatus.toNat < 2) : ConStatusBit (s.setDev .con vm f) := by
  intro vm'
  by_cases hown : vm' = vm
  · subst hown
    rw [setDev_dev_self]
    exact hf
  · rw [setDev_dev_of_ne f (fun hk => hown hk.2)]
    exact h vm'

theorem or_one_lt {x : U32} (h : x.toNat < 2) : (x ||| 1).toNat < 2 := by
  rw [BitVec.toNat_or]
  exact Nat.or_lt_two_pow (n := 1) h (by decide)

theorem ConStatusBit.pass (h : ConStatusBit s) (q : Queue) : ConStatusBit (pass .con vm q s) := by
  intro vm'
  by_cases hown : vm' = vm
  · subst hown
    rw [pass_dev]
    exact h vm'
  · rw [pass_dev_of_ne (fun hk => hown hk.2)]
    exact h vm'

theorem ConStatusBit.mmioWrite (h : ConStatusBit s) (off : U64) (val : U32) :
    ConStatusBit (mmioWrite .con vm off val s) := by
  simp only [FermiHV.mmioWrite]
  split_ifs
  · exact h.setDev (h vm)
  · exact h.setDev (h vm)
  · exact h.setDev (h vm)
  · exact h.setDev (h vm)
  · refine h.setDev ?_
    rw [BitVec.toNat_and]
    exact Nat.and_le_left.trans_lt (h vm)
  · refine process_invariant (P := ConStatusBit) (fun _ _ h => h) (fun q _ h => h.pass q) ?_ h
    intro t ht
    have hirq : ConStatusBit (t.setDev .con vm fun d =>
        { d with intStatus := d.intStatus ||| 1, irq := true }) :=
      ht.setDev (or_one_lt (ht vm))
    exact hirq
  · exact h

theorem ConStatusBit.step (h : ConStatusBit s) {op : VirtioOp} (hop : op.ByGuest)
    (hstep : flatStep op s t) : ConStatusBit t := by
  cases op with
  | ram mem =>
    rw [show t = { s with mem } from hstep]
    exact h
  | access k vm v ipa =>
    cases k with
    | con =>
      rw [show t = (mmio .con vm v ipa s).2 from hstep]
      simp only [mmio]
      split_ifs
      · exact h
      · exact h.mmioWrite _ _
      · exact h
    | blk =>
      intro vm'
      rw [flatMmio_con hstep]
      exact h vm'
  | takeIrq k vm => exact absurd hop not_false

theorem conStatusBit_of_reach (h : (virtioDecoder k vm).Reach s) : ConStatusBit s := by
  obtain ⟨s₀, hstart, hrun⟩ := h
  induction hrun with
  | refl =>
    intro vm
    rw [hstart.1 .con vm]
    exact Nat.two_pos
  | tail _ hstep ih =>
    obtain ⟨op, hop, hstep⟩ := hstep
    exact ih.step hop hstep

/-- A run of guests leads on to a reachable state. -/
theorem Decoder.Reach.flatRun {ops : List VirtioOp} (hs : (virtioDecoder k vm).Reach s)
    (hops : ∀ op ∈ ops, op.ByGuest) (h : flatRun ops s t) : (virtioDecoder k vm).Reach t := by
  induction ops generalizing s with
  | nil =>
    rw [show t = s from h]
    exact hs
  | cons op ops ih =>
    obtain ⟨u, hu, hrest⟩ := h
    obtain ⟨s₀, hstart, hrun⟩ := hs
    have hguest : (virtioDecoder k vm).guest s u := ⟨op, hops op List.mem_cons_self, hu⟩
    exact ih ⟨s₀, hstart, hrun.tail hguest⟩ (fun op' hop' => hops op' (List.mem_cons_of_mem _ hop'))
      hrest

theorem reach_flatReset : (virtioDecoder k vm).Reach flatReset :=
  .of_start ⟨fun _ _ => rfl, flatReset_agrees.fields⟩

/-- Among the reachable states is one in which the guest has overwritten InterruptStatus. -/
theorem reach_overrunEnd (vm' : Fin 2) : (virtioDecoder k vm).Reach (overrunEnd vm') := by
  have hin : ∀ off : U64, off < 0x200 →
      VirtioKind.contains .blk (VirtioKind.base .blk + off) = true := by
    intro off hoff
    rw [VirtioKind.contains, Bool.and_eq_true, decide_eq_true_eq, decide_eq_true_eq]
    simp only [VirtioKind.base]
    constructor <;> bv_omega
  refine reach_flatReset.flatRun ?_ (flatRun_overrun vm')
  simp only [requestOps, List.forall_mem_cons]
  exact ⟨trivial, hin _ (by decide), hin _ (by decide), hin _ (by decide),
    fun _ h => absurd h List.not_mem_nil⟩

theorem mmioRead_lt (h : k = .con → (s.dev k vm).intStatus.toNat < 2) (ipa : U64) :
    (mmioRead k (s.dev k vm) (ipa - k.base)).toNat < 2 ^ virtioReadWidth k ipa := by
  simp only [virtioReadWidth]
  generalize ipa - k.base = off
  by_cases hid : off = 0x000 ∨ off = 0x00c
  · rw [if_pos hid]
    rcases hid with rfl | rfl
    · exact (by decide : (0x74726976 : U32).toNat < 2 ^ 31)
    · exact (by decide : (0x554d4551 : U32).toNat < 2 ^ 31)
  rw [if_neg hid]
  by_cases hword : off = 0x040 ∨ off = 0x070 ∨ (k = .blk ∧ off = 0x060)
  · rw [if_pos hword]
    exact BitVec.isLt _
  rw [if_neg hword]
  have hconfig : (k.config off).toNat < 2 ^ 8 := by
    cases k with
    | con => exact Nat.two_pow_pos 8
    | blk =>
      simp only [VirtioKind.config]
      split_ifs <;> decide
  have hdevice : k.deviceId.toNat < 2 ^ 8 := by cases k <;> decide
  simp only [not_or] at hid hword
  simp only [mmioRead, if_neg hid.1, if_neg hid.2, if_neg hword.1, if_neg hword.2.1]
  split_ifs with _ _ _ _ hint
  · decide
  · exact hdevice
  · decide
  · decide
  · have hcon : k = .con := by
      cases k with
      | con => rfl
      | blk => exact absurd ⟨rfl, hint⟩ hword.2.2
    exact (h hcon).trans (by decide)
  · exact hconfig

/-- A store to a register that is no word: it acknowledges an interrupt of a console,
notifies, or does nothing. -/
theorem virtioStore_congr (h : ConStatusBit s) {ipa x x' : U64}
    (hx : x.toNat ≡ x'.toNat [MOD 2 ^ virtioWriteWidth k ipa]) :
    virtioStore k vm (ipa - k.base) (x.setWidth 32) s =
      virtioStore k vm (ipa - k.base) (x'.setWidth 32) s := by
  funext t
  simp only [virtioWriteWidth] at hx
  generalize ipa - k.base = off at hx
  by_cases hword :
      off = 0x028 ∨ off = 0x038 ∨ off = 0x040 ∨ off = 0x070 ∨ (k = .blk ∧ off = 0x064)
  · rw [if_pos hword] at hx
    rw [Bits.setWidth_eq_of_modEq hx]
  · rw [if_neg hword] at hx
    simp only [not_or] at hword
    obtain ⟨h028, h038, h040, h070, h064⟩ := hword
    cases k with
    | blk =>
      have hack : ¬ off = 0x064 := fun he => h064 ⟨rfl, he⟩
      simp only [virtioStore, flatWrite, if_neg h028, if_neg h038, if_neg h040, if_neg h070,
        if_neg hack]
    | con =>
      have hack : (s.dev .con vm).intStatus &&& ~~~x.setWidth 32 =
          (s.dev .con vm).intStatus &&& ~~~x'.setWidth 32 := by
        refine Bits.and_not_eq_of_modEq (k := 8) ((h vm).trans (by decide)) ?_
        have hdvd : 2 ^ 8 ∣ 2 ^ 32 := pow_dvd_pow 2 (by decide)
        rw [BitVec.toNat_setWidth, BitVec.toNat_setWidth, Nat.ModEq, Nat.mod_mod_of_dvd _ hdvd,
          Nat.mod_mod_of_dvd _ hdvd]
        exact hx
      have heq : mmioWrite .con vm off (x.setWidth 32) s =
          mmioWrite .con vm off (x'.setWidth 32) s := by
        simp only [mmioWrite, if_neg h028, if_neg h038, if_neg h040, if_neg h070]
        split_ifs
        · refine setDev_congr ?_
          simp only [hack]
        · rfl
        · rfl
      simp only [virtioStore, heq]

theorem mmioRead_id {off : U64} (hoff : off = 0x000 ∨ off = 0x00c) (c : VirtioDev) :
    2 ^ 16 ≤ (mmioRead k c off).toNat := by
  rcases hoff with rfl | rfl
  · exact (by decide : 2 ^ 16 ≤ (0x74726976 : U32).toNat)
  · exact (by decide : 2 ^ 16 ≤ (0x554d4551 : U32).toNat)

/-- What a store to a register other than QueueNotify leaves after a reset. -/
theorem virtioStore_reset (k : VirtioKind) (vm : Fin 2) {off : U64} (hoff : off ≠ 0x050)
    (val : U32) :
    ∃ t, virtioStore k vm off val flatReset t ∧
      (∀ u, virtioStore k vm off val flatReset u → u = t) ∧
      t.dev k vm = (mmioWrite k vm off val resetHost).dev k vm := by
  cases k with
  | con =>
    have hagree := conWrite_agrees vm flatReset_agrees off val
    refine ⟨_, rfl, fun _ hu => hu, ?_⟩
    rw [hagree.same]
  | blk =>
    obtain ⟨t, ht, hagree⟩ := flatWrite_agrees vm flatReset_agrees off val
      (fun he => absurd he hoff)
    refine ⟨t, ht, fun u hu => ?_, ?_⟩
    · simp only [virtioStore, flatWrite, if_neg hoff] at hu ht
      split_ifs at hu ht
      all_goals rw [hu, ht]
    · rw [hagree.same]

/-- A store of ones to a register other than QueueNotify is reachable. -/
theorem reach_ones {ipa off : U64} (hin : (virtioDecoder k vm).contains ipa = true)
    (hoff : off ≠ 0x050) (hipa : ipa - k.base = off) :
    ∃ d, (virtioDecoder k vm).Reach d ∧ d.dev k vm =
      (mmioWrite k vm off ((BitVec.allOnes 64).setWidth 32) resetHost).dev k vm := by
  obtain ⟨t, ht, -, hdev⟩ := virtioStore_reset k vm hoff ((BitVec.allOnes 64).setWidth 32)
  rw [← hipa] at ht
  exact ⟨t, reach_flatReset.store (virtioDecoder_decodes k vm) hin (x := BitVec.allOnes 64) ht,
    hdev⟩

/-- A register holds a value as wide as its width. -/
theorem reach_wide {ipa : U64} {b : Nat} (hin : (virtioDecoder k vm).contains ipa = true)
    (hb : b = 8 ∨ b = 16) (hlt : b < virtioReadWidth k ipa) :
    ∃ d, (virtioDecoder k vm).Reach d ∧
      2 ^ b ≤ (mmioRead k (d.dev k vm) (ipa - k.base)).toNat := by
  simp only [virtioReadWidth] at hlt
  split_ifs at hlt with hid hword
  · exact ⟨flatReset, reach_flatReset,
      (Nat.pow_le_pow_right (by decide) (by omega)).trans (mmioRead_id hid _)⟩
  · rcases hword with hoff | hoff | ⟨rfl, hoff⟩
    · obtain ⟨d, hd, hdev⟩ := reach_ones hin (by decide) hoff
      refine ⟨d, hd, ?_⟩
      rw [hdev, hoff, write_queuePfn, setDev_dev_self]
      exact le_allOnes hb
    · obtain ⟨d, hd, hdev⟩ := reach_ones hin (by decide) hoff
      refine ⟨d, hd, ?_⟩
      rw [hdev, hoff, write_status, setDev_dev_self]
      exact le_allOnes hb
    · refine ⟨overrunEnd vm, reach_overrunEnd vm, ?_⟩
      have hint : mmioRead .blk ((overrunEnd vm).dev .blk vm) 0x060 = 0xffffffff :=
        overrunEnd_intStatus vm
      rw [hoff, hint]
      rcases hb with rfl | rfl <;> decide
  · omega

/-- A store to a register that takes a whole word shows a bit above a byte or half word. -/
theorem stores_differ_of_field {ipa off : U64} {b : Nat} (hb : b = 8 ∨ b = 16)
    (field : VirtioDev → U32) (hoff : off ≠ 0x050) (hipa : ipa - k.base = off)
    (hset : ∀ val, field ((mmioWrite k vm off val resetHost).dev k vm) = val) :
    ∃ d, (virtioDecoder k vm).Reach d ∧ ∃ d', (virtioDecoder k vm).store false ipa 0 d d' ∧
      ¬ (virtioDecoder k vm).store false ipa (BitVec.ofNat 64 (2 ^ b)) d d' := by
  obtain ⟨t, ht, -, hdev⟩ := virtioStore_reset k vm hoff ((0 : U64).setWidth 32)
  obtain ⟨u, -, huniq, hdev'⟩ := virtioStore_reset k vm hoff
    ((BitVec.ofNat 64 (2 ^ b)).setWidth 32)
  rw [← hipa] at ht huniq
  refine ⟨flatReset, reach_flatReset, t, ht, fun hu => zero_ne_bit hb ?_⟩
  rw [huniq t hu, hdev'] at hdev
  have hval := congrArg field hdev
  rw [hset, hset] at hval
  exact hval.symm

/-- So does an acknowledgement, once the guest has set all bits of InterruptStatus. -/
theorem acks_differ {ipa : U64} {b : Nat} (hb : b = 8 ∨ b = 16)
    (hoff : ipa - VirtioKind.base .blk = 0x064) :
    ∃ d, (virtioDecoder .blk vm).Reach d ∧ ∃ d', (virtioDecoder .blk vm).store false ipa 0 d d' ∧
      ¬ (virtioDecoder .blk vm).store false ipa (BitVec.ofNat 64 (2 ^ b)) d d' := by
  refine ⟨overrunEnd vm, reach_overrunEnd vm, ?_⟩
  change ∃ d', flatWrite vm (ipa - VirtioKind.base .blk) _ _ d' ∧ ¬ flatWrite vm _ _ _ d'
  rw [hoff]
  refine ⟨_, rfl, fun hbit => ?_⟩
  have hzero := intStatus_of_ack vm ((0 : U64).setWidth 32) (s := overrunEnd vm) rfl
  have heq := hzero.symm.trans (intStatus_of_ack vm _ hbit)
  rw [overrunEnd_intStatus] at heq
  rcases hb with rfl | rfl <;> exact absurd heq (by decide)

theorem virtio_lawful : (virtioDecoder k vm).Lawful where
  toDecodes := virtioDecoder_decodes k vm
  width_le ipa := by
    simp only [virtioDecoder, virtioReadWidth, virtioWriteWidth]
    split_ifs <;> decide
  value_lt {ipa s} _ hs := by
    change ((mmioRead k (s.dev k vm) (ipa - k.base)).setWidth 64).toNat < 2 ^ virtioReadWidth k ipa
    rw [BitVec.toNat_setWidth_of_le (by decide)]
    refine mmioRead_lt (fun hk => ?_) ipa
    rw [hk]
    exact conStatusBit_of_reach hs vm
  value_wide {ipa b} hin hb hlt := by
    obtain ⟨d, hd, hle⟩ := reach_wide hin hb hlt
    refine ⟨d, hd, ?_⟩
    change _ ≤ ((mmioRead k (d.dev k vm) (ipa - k.base)).setWidth 64).toNat
    rwa [BitVec.toNat_setWidth_of_le (by decide)]
  store_low _ hs hx := virtioStore_congr (conStatusBit_of_reach hs) hx
  store_wide {ipa b} _ hb hlt := by
    simp only [virtioDecoder, virtioWriteWidth] at hlt
    split_ifs at hlt with hword
    · rcases hword with hoff | hoff | hoff | hoff | ⟨rfl, hoff⟩
      · refine stores_differ_of_field hb VirtioDev.pageSize (by decide) hoff fun val => ?_
        rw [write_pageSize, setDev_dev_self]
      · refine stores_differ_of_field hb VirtioDev.queueNum (by decide) hoff fun val => ?_
        rw [write_queueNum, setDev_dev_self]
      · refine stores_differ_of_field hb VirtioDev.queuePfn (by decide) hoff fun val => ?_
        rw [write_queuePfn, setDev_dev_self]
      · refine stores_differ_of_field hb VirtioDev.status (by decide) hoff fun val => ?_
        rw [write_status, setDev_dev_self]
      · exact acks_differ hb hoff
    · omega

end Virtio

/-! ## 7. All of them -/

/-- The emulated register files: `mmio_emulate`, `vgic_mmio` for a VM, and `virtio_mmio`
or `vblk_mmio` for a VM. -/
inductive Emulated
  | uart
  | vgic (vm : Fin 4)
  | virtio (k : VirtioKind) (vm : Fin 2)

def Emulated.State : Emulated → Type
  | .uart => Vuart
  | .vgic _ => Vgic
  | .virtio .. => VHost

def Emulated.decoder : (e : Emulated) → Decoder e.State
  | .uart => uartDecoder
  | .vgic vm => vgicDecoder vm
  | .virtio k vm => virtioDecoder k vm

theorem Emulated.lawful (e : Emulated) : e.decoder.Lawful := by
  cases e with
  | uart => exact uart_lawful
  | vgic vm => exact vgic_lawful
  | virtio k vm => exact virtio_lawful

/-- An address in the window of a register file. -/
structure Emulated.Address (e : Emulated) where
  ipa : U64
  inWindow : e.decoder.contains ipa = true

/-- An emulated access is faithful to its size if and only if it goes through the zero
register or is no narrower than its register, to loads and to stores. -/
theorem access_faithful_iff (e : Emulated) (a : e.Address) (y : AccessForm) :
    AccessFaithful e.decoder y a.ipa ↔
      y.srt = 31 ∨ (e.decoder.readWidth a.ipa ≤ y.bits ∧ e.decoder.writeWidth a.ipa ≤ y.bits) :=
  faithful_iff e.lawful a.inWindow

/-- A byte through x0. -/
def byteAccess : AccessForm where
  sas := 0
  srt := 0

theorem not_faithful_of_read {e : Emulated} (a : e.Address)
    (h : 8 < e.decoder.readWidth a.ipa) : ¬ AccessFaithful e.decoder byteAccess a.ipa := by
  intro hf
  have hle : _ ≤ 8 := readWidth_le_of_faithful e.lawful a.inWindow (by decide) hf
  omega

/-- A load of a byte from GICD_TYPER leaves 0x480007 in x0, and a store of a byte takes
nine bits into IMSC. The same goes for QueuePFN, and for InterruptStatus of a disk. -/
theorem byte_accesses_move_words :
    ¬ AccessFaithful (Emulated.decoder .uart) byteAccess 0x09000038 ∧
    ¬ AccessFaithful (Emulated.decoder (.vgic 0)) byteAccess 0x08000004 ∧
    ¬ AccessFaithful (Emulated.decoder (.virtio .con 0)) byteAccess 0x0A000040 ∧
    ¬ AccessFaithful (Emulated.decoder (.virtio .blk 0)) byteAccess 0x0A000240 ∧
    ¬ AccessFaithful (Emulated.decoder (.virtio .blk 1)) byteAccess 0x0A000260 ∧
    (vgicMmio 0 (byteAccess.vcpu false 0) 0x08000004 resetVgic).1.getX 0 = 0x480007 ∧
    (mmioEmulate (byteAccess.vcpu true 0x1FF) 0x09000038 blankVuart).2.imsc = 0x1FF :=
  ⟨not_faithful_of_read ⟨0x09000038, by decide⟩ (by decide),
    not_faithful_of_read ⟨0x08000004, by decide⟩ (by decide),
    not_faithful_of_read ⟨0x0A000040, by decide⟩ (by decide),
    not_faithful_of_read ⟨0x0A000240, by decide⟩ (by decide),
    not_faithful_of_read ⟨0x0A000260, by decide⟩ (by decide), by decide +kernel, by decide +kernel⟩

end FermiHV
