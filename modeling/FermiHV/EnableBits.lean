import FermiHV.Loops
import FermiHV.VgicIsolation

/-!
# Guest stores and the enable bits

An interrupt is enabled by a bit in a word of `vg[]`: an SGI or PPI in `enabled` of
its redistributor, an SPI in `spi_enabled` of its distributor. A guest changes these
words only by stores that trap on the emulated GIC, and `vgic_mmio` makes one register
write of such a store, or two if it is of 64 bits.

* `enableReg` is the word that a register write addresses, and whether it sets or
  clears the bits it has ones for.
* `GuestCtx.enableAct` is what the store of a guest exit does to one enable bit.
* `irqEnabled_gicExit`, `spiEnabled_gicExit`: `vgic_irq_enabled` and
  `vgic_spi_enabled` after the exit, from the store and their value before it.
* `abort_gicExit`, `linuxExit_vg`: the run loops do no more to the enable bits.
-/

namespace FermiHV

/-! ## 1. Register writes -/

/-- A word of enable bits: `vg[idx].enabled`, or `vg[idx].spi_enabled[n]`. -/
structure EnableWord where
  idx : Int
  spis : Option (Fin 8)
deriving DecidableEq

def VgicState.enableWord (s : VgicState) : Option (Fin 8) → U32
  | none => s.enabled
  | some n => s.spiEnabled n

def VgicState.setEnableWord (s : VgicState) (v : U32) : Option (Fin 8) → VgicState
  | none => { s with enabled := v }
  | some n => { s with spiEnabled := Function.update s.spiEnabled n v }

def Vgic.enableWord (g : Vgic) (w : EnableWord) : U32 := (g.vg w.idx).enableWord w.spis

/-- What a write of `val` to a set register (`set`) or to a clear register does
to the enable bits. -/
def enableBits (set : Bool) (old val : U32) : U32 := if set then old ||| val else old &&& ~~~val

theorem getLsbD_enableBits (set : Bool) (old val : U32) {b : Nat} (hb : b < 32) :
    (enableBits set old val).getLsbD b = if val.getLsbD b then set else old.getLsbD b := by
  cases set with
  | true =>
    simp only [enableBits, if_true, BitVec.getLsbD_or]
    cases val.getLsbD b <;> simp
  | false =>
    simp only [enableBits, Bool.false_eq_true, if_false, BitVec.getLsbD_and, BitVec.getLsbD_not, hb,
      decide_true, Bool.true_and]
    cases val.getLsbD b <;> simp

/-- The word that a register write addresses, and whether the register is one that
sets (`GICR_ISENABLER0`, `GICD_ISENABLER<n>`) or clears (`GICR_ICENABLER0`,
`GICD_ICENABLER<n>`). -/
def enableReg (vm : Int) (ipa : U64) : Option (Bool × EnableWord) :=
  if vgicGicrBase ≤ ipa then
    let goff := ipa - vgicGicrBase
    let off := goff % vgicGicrStride
    let idx := gicrIndex vm (gicrFrame goff)
    if off = 0x10100 then some (true, ⟨idx, none⟩)
    else if off = 0x10180 then some (false, ⟨idx, none⟩)
    else none
  else
    let off := ipa - vgicGicdBase
    if 0x100 ≤ off ∧ off < 0x180 then some (true, ⟨vm, some (spiIndex off 0x100)⟩)
    else if 0x180 ≤ off ∧ off < 0x200 then some (false, ⟨vm, some (spiIndex off 0x180)⟩)
    else none

section RegWrite

variable {g : Vgic} {w : EnableWord}

theorem enableWord_modify_of_eq {i : Int} {f : VgicState → VgicState}
    (h : ∀ p, (f (g.vg i)).enableWord p = (g.vg i).enableWord p) :
    (g.modify i f).enableWord w = g.enableWord w := by
  by_cases hi : w.idx = i
  · rw [Vgic.enableWord, hi, modify_vg_self, h, Vgic.enableWord, hi]
  · rw [Vgic.enableWord, modify_vg_of_ne hi, Vgic.enableWord]

theorem enableWord_setEnableWord (s : VgicState) (v : U32) (p p' : Option (Fin 8)) :
    (s.setEnableWord v p).enableWord p' = if p' = p then v else s.enableWord p' := by
  cases p with
  | none => cases p' <;> rfl
  | some n =>
    cases p' with
    | none => rfl
    | some n' =>
      simp only [VgicState.setEnableWord, VgicState.enableWord, Option.some.injEq]
      by_cases hn : n' = n
      · rw [hn, Function.update_self, if_pos rfl]
      · rw [Function.update_of_ne hn, if_neg hn]

theorem enableWord_modify_set (w' : EnableWord) (v : U32) :
    (g.modify w'.idx fun s => s.setEnableWord v w'.spis).enableWord w =
      if w = w' then v else g.enableWord w := by
  obtain ⟨i, p⟩ := w
  obtain ⟨i', p'⟩ := w'
  by_cases hi : i = i'
  · subst hi
    rw [Vgic.enableWord, modify_vg_self, enableWord_setEnableWord]
    simp only [EnableWord.mk.injEq, true_and]
    rfl
  · rw [Vgic.enableWord, modify_vg_of_ne hi, if_neg fun h => hi (EnableWord.mk.inj h).1]
    rfl

/-- A register write acts on the word it addresses and on no other. -/
theorem enableWord_regWrite (vm : Int) (ipa : U64) (val : U32) :
    (regWrite vm ipa val g).enableWord w =
      match enableReg vm ipa with
      | some (set, w') => if w = w' then enableBits set (g.enableWord w') val else g.enableWord w
      | none => g.enableWord w := by
  have hset : ∀ (set : Bool) (w' : EnableWord),
      (g.modify w'.idx fun s =>
        s.setEnableWord (enableBits set (s.enableWord w'.spis) val) w'.spis).enableWord w =
      if w = w' then enableBits set (g.enableWord w') val else g.enableWord w := by
    intro set w'
    exact enableWord_modify_set w' (enableBits set (g.enableWord w') val)
  by_cases hgicr : vgicGicrBase ≤ ipa
  · simp only [regWrite, enableReg, if_pos hgicr]
    generalize (ipa - vgicGicrBase) % vgicGicrStride = off
    by_cases hgroup : off = 0x10080
    · subst hgroup
      rw [if_pos rfl, if_neg (by decide), if_neg (by decide)]
      exact enableWord_modify_of_eq (fun p => by cases p <;> rfl)
    · rw [if_neg hgroup]
      by_cases hen : off = 0x10100
      · rw [if_pos hen, if_pos hen]
        exact hset true ⟨_, none⟩
      · rw [if_neg hen, if_neg hen]
        by_cases hdis : off = 0x10180
        · rw [if_pos hdis, if_pos hdis]
          exact hset false ⟨_, none⟩
        · rw [if_neg hdis, if_neg hdis]
  · simp only [regWrite, enableReg, if_neg hgicr]
    generalize ipa - vgicGicdBase = off
    by_cases hctlr : off = 0
    · subst hctlr
      rw [if_pos rfl, if_neg (by decide), if_neg (by decide)]
      exact enableWord_modify_of_eq (fun p => by cases p <;> rfl)
    · rw [if_neg hctlr]
      by_cases hen : 0x100 ≤ off ∧ off < 0x180
      · rw [if_pos hen, if_pos hen]
        exact hset true ⟨vm, some _⟩
      · rw [if_neg hen, if_neg hen]
        by_cases hdis : 0x180 ≤ off ∧ off < 0x200
        · rw [if_pos hdis, if_pos hdis]
          exact hset false ⟨vm, some _⟩
        · rw [if_neg hdis, if_neg hdis]

end RegWrite

/-! ## 2. Single bits -/

/-- An enable bit. -/
structure EnableBit where
  word : EnableWord
  bit : Fin 32

/-- The enable bit of the SGI or PPI `k` in `vg[idx]`. -/
def ppiBit (idx : Int) (k : U32) : EnableBit := ⟨⟨idx, none⟩, Fin.ofNat 32 k.toNat⟩

/-- The enable bit of the SPI `k` in `vg[idx]`. -/
def spiBit (idx : Int) (k : U32) : EnableBit :=
  ⟨⟨idx, some ⟨k.toNat / 32 % 8, Nat.mod_lt _ (Nat.succ_pos 7)⟩⟩, Fin.ofNat 32 k.toNat⟩

def Vgic.enableBit (g : Vgic) (b : EnableBit) : Bool := (g.enableWord b.word).getLsbD b.bit

/-- What a register write does to an enable bit, if anything: it sets it or clears it. -/
def regAct (vm : Int) (ipa : U64) (val : U32) (b : EnableBit) : Option Bool :=
  match enableReg vm ipa with
  | some (set, w) => if b.word = w ∧ val.getLsbD b.bit = true then some set else none
  | none => none

theorem enableBit_regWrite (g : Vgic) (vm : Int) (ipa : U64) (val : U32) (b : EnableBit) :
    (regWrite vm ipa val g).enableBit b = (regAct vm ipa val b).getD (g.enableBit b) := by
  rw [Vgic.enableBit, enableWord_regWrite, regAct]
  cases enableReg vm ipa with
  | none => rfl
  | some r =>
    obtain ⟨set, w⟩ := r
    simp only
    by_cases hw : b.word = w
    · rw [if_pos hw, getLsbD_enableBits _ _ _ b.bit.isLt, ← hw]
      cases hval : val.getLsbD b.bit with
      | false => rw [if_neg (by simp), if_neg (by simp)]; rfl
      | true => rw [if_pos rfl, if_pos ⟨rfl, rfl⟩]; rfl
    · rw [if_neg hw, if_neg fun h => hw h.1]
      rfl

/-- The bit that `vgic_irq_enabled` tests. -/
theorem vgicIrqEnabled_eq (g : Vgic) (idx : Int) {k : U32} (hk : k < 32) :
    vgicIrqEnabled g idx k = g.enableBit (ppiBit idx k) := by
  have hlt : k.toNat < 32 := hk
  have hmod : k.toNat % 32 = k.toNat := Nat.mod_eq_of_lt hlt
  rw [vgicIrqEnabled, decide_eq_true hk, Bool.true_and, Bool.eq_iff_iff, decide_eq_true_eq]
  refine (Bits.and_one_shl_ne_zero_iff _ _).trans ?_
  change _ ↔ (g.vg idx).enabled.getLsbD (k.toNat % 32) = true
  rw [hmod]

/-- The bit that `vgic_spi_enabled` tests. -/
theorem vgicSpiEnabled_eq (g : Vgic) (idx : Int) {k : U32} (hlo : 32 ≤ k) (hhi : k < 256) :
    vgicSpiEnabled g idx k = g.enableBit (spiBit idx k) := by
  have hlt : k.toNat < 256 := hhi
  have hrange : ¬ (k < 32 ∨ 256 ≤ k) := by
    rintro (h | h) <;> bv_omega
  have hbit : (k &&& 31).toNat = k.toNat % 32 := Bits.toNat_and_mask k (k := 5) (by omega)
  have hidx : ∀ h, (⟨(k >>> 5).toNat, h⟩ : Fin 8) = Fin.ofNat 8 (k.toNat / 32) := by
    intro h
    refine Fin.ext ?_
    simp only [Fin.ofNat]
    rw [BitVec.toNat_ushiftRight, Nat.shiftRight_eq_div_pow]
    omega
  rw [vgicSpiEnabled, dif_neg hrange, hidx, hbit, Bool.eq_iff_iff, decide_eq_true_iff]
  exact Bits.and_one_shl_ne_zero_iff _ _

/-! ## 3. Guest exits -/

/-- The register writes of a store to the GIC, as address and value. -/
def GuestCtx.gicWrites (x : GuestCtx) : List (U64 × U32) :=
  let iss := esrIss x.exitEsr
  if issIsv iss && issWnr iss then
    let val := x.getX (issSrt iss)
    (x.exitIpa, val.setWidth 32) ::
      if issDword iss then [(x.exitIpa + 4, (val >>> 32).setWidth 32)] else []
  else []

/-- The exit traps on the GIC. -/
def GuestCtx.onGic (x : GuestCtx) : Bool := x.exitKind = .abort && vgicContains x.exitIpa

/-- The GIC after the accesses of an exit of `vm`. -/
def gicExit (vm : Int) (x : GuestCtx) (g : Vgic) : Vgic :=
  if x.onGic then x.gicWrites.foldl (fun g w => regWrite vm w.1 w.2 g) g else g

/-- What the store of an exit does to an enable bit, if anything. -/
def GuestCtx.enableAct (x : GuestCtx) (vm : Int) (b : EnableBit) : Option Bool :=
  if x.onGic then x.gicWrites.foldl (fun act w => (regAct vm w.1 w.2 b).or act) none else none

theorem vgicMmio_gic (vm : Int) (v : Vcpu) (g : Vgic) :
    (vgicMmio vm v v.exitIpa g).2 = v.gicWrites.foldl (fun g w => regWrite vm w.1 w.2 g) g := by
  simp only [vgicMmio, GuestCtx.gicWrites]
  cases issIsv (esrIss v.exitEsr) with
  | false => rfl
  | true =>
    cases issWnr (esrIss v.exitEsr) with
    | false => rfl
    | true =>
      simp only [Bool.not_true, Bool.false_eq_true, if_false, if_true, Bool.and_self]
      split_ifs <;> rfl

theorem enableBit_writes (g : Vgic) (vm : Int) (b : EnableBit) (ws : List (U64 × U32)) :
    (ws.foldl (fun g w => regWrite vm w.1 w.2 g) g).enableBit b =
      (ws.foldl (fun act w => (regAct vm w.1 w.2 b).or act) none).getD (g.enableBit b) := by
  induction ws using List.reverseRecOn with
  | nil => rfl
  | append_singleton ws w ih =>
    rw [List.foldl_append, List.foldl_append, List.foldl_cons, List.foldl_cons, List.foldl_nil,
      List.foldl_nil, enableBit_regWrite, ih]
    cases regAct vm w.1 w.2 b <;> rfl

/-- An exit acts on an enable bit as its store does. -/
theorem enableBit_gicExit (g : Vgic) (vm : Int) (x : GuestCtx) (b : EnableBit) :
    (gicExit vm x g).enableBit b = (x.enableAct vm b).getD (g.enableBit b) := by
  rw [gicExit, GuestCtx.enableAct]
  split_ifs
  · exact enableBit_writes g vm b x.gicWrites
  · rfl

/-- Only a write to a clear register clears. -/
theorem regAct_ne_clear {vm : Int} {ipa : U64} (h : ∀ w, enableReg vm ipa ≠ some (false, w))
    (val : U32) (b : EnableBit) : regAct vm ipa val b ≠ some false := by
  rw [regAct]
  cases hreg : enableReg vm ipa with
  | none => exact (Option.some_ne_none _).symm
  | some r =>
    obtain ⟨set, w⟩ := r
    have hset : set = true := by
      cases set with
      | true => rfl
      | false => exact absurd hreg (h w)
    simp only
    split_ifs <;> simp [hset]

theorem writes_ne_clear {vm : Int} {ws : List (U64 × U32)}
    (h : ∀ w ∈ ws, ∀ d, enableReg vm w.1 ≠ some (false, d)) (b : EnableBit) :
    ws.foldl (fun act w => (regAct vm w.1 w.2 b).or act) none ≠ some false := by
  induction ws using List.reverseRecOn with
  | nil => exact (Option.some_ne_none _).symm
  | append_singleton ws w ih =>
    have hlast := regAct_ne_clear (h w (by simp)) w.2 b
    rw [List.foldl_append, List.foldl_cons, List.foldl_nil]
    cases hact : regAct vm w.1 w.2 b with
    | none => exact ih fun w' hw' => h w' (by simp [hw'])
    | some v => rwa [hact] at hlast

/-- An exit that writes to no clear register clears nothing. -/
theorem enableAct_ne_clear {x : GuestCtx} {vm : Int}
    (h : ∀ w ∈ x.gicWrites, ∀ d, enableReg vm w.1 ≠ some (false, d)) (b : EnableBit) :
    x.enableAct vm b ≠ some false := by
  rw [GuestCtx.enableAct]
  split_ifs
  · exact writes_ne_clear h b
  · exact (Option.some_ne_none _).symm

theorem irqEnabled_gicExit (g : Vgic) (vm idx : Int) (x : GuestCtx) {k : U32} (hk : k < 32) :
    vgicIrqEnabled (gicExit vm x g) idx k =
      (x.enableAct vm (ppiBit idx k)).getD (vgicIrqEnabled g idx k) := by
  rw [vgicIrqEnabled_eq _ _ hk, vgicIrqEnabled_eq _ _ hk, enableBit_gicExit]

theorem spiEnabled_gicExit (g : Vgic) (vm idx : Int) (x : GuestCtx) {k : U32} (hlo : 32 ≤ k)
    (hhi : k < 256) : vgicSpiEnabled (gicExit vm x g) idx k =
      (x.enableAct vm (spiBit idx k)).getD (vgicSpiEnabled g idx k) := by
  rw [vgicSpiEnabled_eq _ _ hlo hhi, vgicSpiEnabled_eq _ _ hlo hhi, enableBit_gicExit]

/-! ## 4. The exits of the run loops -/

section Exits

variable {h : Hv} {c : Fin 2} {vm : Int} {x : GuestCtx} {e : Event}

theorem gicExit_of_not_abort (hk : x.exitKind ≠ .abort) (g : Vgic) : gicExit vm x g = g :=
  if_neg (by simp [GuestCtx.onGic, hk])

theorem abort_vgic_of_ne {ipa : U64} {a : AbortAction} (ha : a ≠ .vgic) :
    (h.abort vm c ipa a).vgic = h.vgic := by
  cases a with
  | vgic => exact absurd rfl ha
  | _ => rfl

/-- An abort accesses the GIC exactly in its window. -/
theorem abort_gicExit {a : AbortAction} (hctx : (h.vcpus c).toGuestCtx = x)
    (hk : x.exitKind = .abort) (ha : a ≠ .vgic) :
    (h.abort vm c x.exitIpa (if vgicContains x.exitIpa then .vgic else a)).vgic =
      gicExit vm x h.vgic := by
  subst hctx
  by_cases hin : vgicContains (h.vcpus c).exitIpa = true
  · rw [if_pos hin, gicExit, if_pos (by simp [GuestCtx.onGic, hk, hin])]
    exact vgicMmio_gic vm (h.vcpus c) h.vgic
  · rw [if_neg hin, abort_vgic_of_ne ha, gicExit, if_neg (by simp [GuestCtx.onGic, hin])]

theorem uart_or_ne_vgic {ipa : U64} {a : AbortAction} (ha : a ≠ .vgic) :
    (if vuartContains ipa then AbortAction.vuart else a) ≠ .vgic := by
  split_ifs
  · exact AbortAction.noConfusion
  · exact ha

/-- The exits of `linux_vgic_boot`. -/
theorem linuxExit_vg (hctx : (h.vcpus c).toGuestCtx = e.ctx) :
    (h.linuxExit c e).vgic.vg = (gicExit 0 e.ctx h.vgic).vg := by
  by_cases hk : e.ctx.exitKind = .abort
  · simp only [Hv.linuxExit, hk, linuxVgicBootAbort, deviceOr]
    rw [abort_gicExit hctx hk (uart_or_ne_vgic AbortAction.noConfusion)]
  · rw [gicExit_of_not_abort hk]
    refine linuxExit_cases (P := fun h' => h'.vgic.vg = h.vgic.vg) rfl ?_
      (fun hkind => absurd hkind hk) rfl (fun _ => ?_) ?_ ?_
    · unfold Hv.injectTimer
      split_ifs <;> rfl
    · rw [cntpEmulate_vgic]
    · rw [psciHandle_vgic]
    · change (psciHandle c h).vgic.vg = _
      rw [psciHandle_vgic]

end Exits

end FermiHV
