import FermiHV.EnableBits
import FermiHV.Lib.FlagHistory

/-!
# The enable registers of the software GIC

Interrupts are enabled by writing ones to an `ISENABLER` register and disabled
by writing ones to the `ICENABLER` register beside it: an interrupt is enabled
when the last write with its bit set was to the former. This module says how
far `reg_read` and `reg_write` keep that law over whole histories of naturally
aligned guest stores, of 32 or 64 bits.

The distributor has enable registers for 1024 interrupts and state for 256 of
them. The decoders take the register number modulo 8, so the registers that
`GICD_TYPER` declares unimplemented are aliases of the implemented ones.

The redistributor of each frame has one register pair. `reg_write` decodes both
of them, `reg_read` only `GICR_ISENABLER0`.

1. `vgicMmio_store`: a store as one or two register writes.
2. `spi_enable_law_iff`: the law for the distributor holds in a run exactly if
   no write to an unimplemented register has an effect.
3. `frame_enable_law_iff`: the law for a redistributor frame holds exactly when
   the frame has no interrupt enabled; all of it but the read of
   `GICR_ICENABLER0` holds always.
-/

namespace FermiHV

open FlagHistory

/-! ## 1. Guest stores as register writes -/

/-- A call of `reg_write`. -/
structure RegWrite where
  vm : Fin 4
  ipa : U64
  val : U32

def RegWrite.apply (g : Vgic) (w : RegWrite) : Vgic := regWrite w.vm.val w.ipa w.val g

/-- A naturally aligned store of 32 or 64 bits that trapped with a valid
syndrome. -/
structure GicStore where
  v : Vcpu
  ipa : U64
  isv : issIsv (esrIss v.exitEsr) = true
  wnr : issWnr (esrIss v.exitEsr) = true
  aligned : issSas (esrIss v.exitEsr) = 2 ∧ ipa.toNat % 4 = 0 ∨
    issSas (esrIss v.exitEsr) = 3 ∧ ipa.toNat % 8 = 0

/-- The register writes of a store of VM `vm`: two of them for 64 bits. -/
def GicStore.writes (a : GicStore) (vm : Fin 4) : List RegWrite :=
  let val := a.v.getX (issSrt (esrIss a.v.exitEsr))
  { vm := vm, ipa := a.ipa, val := val.setWidth 32 } ::
    if issDword (esrIss a.v.exitEsr) then
      [{ vm := vm, ipa := a.ipa + 4, val := (val >>> 32).setWidth 32 }]
    else []

theorem vgicMmio_store (a : GicStore) (vm : Fin 4) (g : Vgic) :
    (vgicMmio vm.val a.v a.ipa g).2 = (a.writes vm).foldl RegWrite.apply g := by
  simp only [vgicMmio, GicStore.writes, a.isv, a.wnr, Bool.not_true, Bool.false_eq_true, if_false,
    if_true]
  split_ifs <;> rfl

/-- The address of each register write is word aligned and in the double word
that the store is aligned to. -/
theorem ipa_of_mem_writes {a : GicStore} {vm : Fin 4} {w : RegWrite} (hw : w ∈ a.writes vm) :
    w.vm = vm ∧ w.ipa.toNat % 4 = 0 ∧
      (w.ipa = a.ipa ∨ w.ipa = a.ipa + 4 ∧ a.ipa.toNat % 8 = 0) := by
  rcases List.mem_cons.mp hw with rfl | hw
  · refine ⟨rfl, ?_, .inl rfl⟩
    rcases a.aligned with ⟨-, h⟩ | ⟨-, h⟩
    · exact h
    · change a.ipa.toNat % 4 = 0
      omega
  · split_ifs at hw with hd
    · obtain rfl := List.mem_singleton.mp hw
      have hsas : issSas (esrIss a.v.exitEsr) = 3 := by simpa [issDword] using hd
      have h8 : a.ipa.toNat % 8 = 0 := by
        rcases a.aligned with ⟨h2, -⟩ | ⟨-, h8⟩
        · rw [h2] at hsas
          exact absurd hsas (by decide)
        · exact h8
      refine ⟨rfl, ?_, .inr ⟨rfl, h8⟩⟩
      change (a.ipa + 4).toNat % 4 = 0
      rw [BitVec.toNat_add]
      change (a.ipa.toNat + 4) % 2 ^ 64 % 4 = 0
      omega
    · exact absurd hw List.not_mem_nil

/-- The write has no effect exactly when it sets no bit that is clear, or
clears no bit that is set. -/
theorem enableBits_eq_self_iff (set : Bool) (old val : U32) :
    enableBits set old val = old ↔ val &&& (if set then ~~~old else old) = 0 := by
  constructor
  · intro h
    refine BitVec.eq_of_getLsbD_eq fun b hb => ?_
    have hbit := congrArg (BitVec.getLsbD · b) h
    rw [getLsbD_enableBits set old val hb] at hbit
    rw [BitVec.getLsbD_and]
    cases hv : val.getLsbD b with
    | false => simp
    | true =>
      rw [hv, if_pos rfl] at hbit
      cases set <;> simp [← hbit]
  · intro h
    refine BitVec.eq_of_getLsbD_eq fun b hb => ?_
    have hbit := congrArg (BitVec.getLsbD · b) h
    rw [getLsbD_enableBits set old val hb]
    cases hv : val.getLsbD b with
    | false => rfl
    | true =>
      simp only [BitVec.getLsbD_and, hv, Bool.true_and] at hbit
      cases set with
      | true => simpa [hb] using hbit.symm
      | false => simpa using hbit.symm

/-! ## 2. The distributor -/

/-- The offsets of `GICD_ISENABLER<0>` (`set`) and `GICD_ICENABLER<0>`. -/
def enablerOff : Bool → U64
  | true => 0x100
  | false => 0x180

/-- `GICD_ISENABLER<n>` (`set`) and `GICD_ICENABLER<n>`. -/
def gicdEnabler (set : Bool) (n : Nat) : U64 :=
  vgicGicdBase + enablerOff set + BitVec.ofNat 64 (4 * n)

theorem gicdEnabler_off (set : Bool) {n : Nat} (hn : n < 32) :
    (gicdEnabler set n - vgicGicdBase).toNat = (enablerOff set).toNat + 4 * n := by
  cases set <;> simp only [gicdEnabler, vgicGicdBase, enablerOff] <;> bv_omega

/-- No two enable registers share an address. -/
theorem gicdEnabler_inj {set set' : Bool} {n n' : Nat} (hn : n < 32) (hn' : n' < 32) :
    gicdEnabler set n = gicdEnabler set' n' ↔ set = set' ∧ n = n' := by
  constructor
  · intro h
    have haddr := congrArg (fun ipa => (ipa - vgicGicdBase).toNat) h
    simp only [gicdEnabler_off set hn, gicdEnabler_off set' hn'] at haddr
    cases set <;> cases set' <;> simp only [enablerOff] at haddr <;> simp <;> bv_omega
  · rintro ⟨rfl, rfl⟩
    rfl

theorem gicdEnabler_lt_gicr (set : Bool) {n : Nat} (hn : n < 32) :
    ¬ vgicGicrBase ≤ gicdEnabler set n := by
  cases set <;> simp only [gicdEnabler, vgicGicdBase, vgicGicrBase, enablerOff] <;> bv_omega

theorem spiIndex_gicdEnabler (set : Bool) {n : Nat} (hn : n < 32) :
    spiIndex (gicdEnabler set n - vgicGicdBase) (enablerOff set) = Fin.ofNat 8 n := by
  have hoff := gicdEnabler_off set hn
  refine Fin.ext ?_
  simp only [spiIndex, Fin.ofNat]
  generalize gicdEnabler set n - vgicGicdBase = off at hoff
  have hsub : (off - enablerOff set).toNat = 4 * n := by
    cases set <;> simp only [enablerOff] at hoff ⊢ <;> bv_omega
  rw [BitVec.toNat_umod, BitVec.toNat_udiv, hsub]
  change 4 * n / 4 % 8 = n % 8
  omega

/-- Register `n` of each kind is kept in element `n mod 8`. -/
theorem regRead_gicdEnabler (g : Vgic) (vm : Int) (set : Bool) {n : Nat} (hn : n < 32) :
    regRead g vm (gicdEnabler set n) = (g.vg vm).spiEnabled (Fin.ofNat 8 n) := by
  have hoff := gicdEnabler_off set hn
  have hidx := spiIndex_gicdEnabler set hn
  simp only [regRead, gicdEnabler_lt_gicr set hn, if_false]
  generalize gicdEnabler set n - vgicGicdBase = off at hoff hidx
  cases set with
  | true =>
    simp only [enablerOff] at hoff hidx
    rw [if_neg (by bv_omega), if_neg (by bv_omega), if_neg (by bv_omega), if_neg (by bv_omega),
      if_pos (by constructor <;> bv_omega), hidx]
  | false =>
    simp only [enablerOff] at hoff hidx
    rw [if_neg (by bv_omega), if_neg (by bv_omega), if_neg (by bv_omega), if_neg (by bv_omega),
      if_neg (by rintro ⟨-, h⟩; bv_omega), if_pos (by constructor <;> bv_omega), hidx]

/-- What a write to an enable register does to the element of its VM. -/
def VgicState.enableSpis (s : VgicState) (set : Bool) (n : Nat) (val : U32) : VgicState :=
  { s with
    spiEnabled := Function.update s.spiEnabled (Fin.ofNat 8 n)
      (enableBits set (s.spiEnabled (Fin.ofNat 8 n)) val) }

theorem enableSpis_self (s : VgicState) (set : Bool) (n : Nat) (val : U32) :
    (s.enableSpis set n val).spiEnabled (Fin.ofNat 8 n) =
      enableBits set (s.spiEnabled (Fin.ofNat 8 n)) val :=
  Function.update_self ..

theorem enableSpis_of_ne (s : VgicState) (set : Bool) {n : Nat} (val : U32) {k : Fin 8}
    (hk : k ≠ Fin.ofNat 8 n) : (s.enableSpis set n val).spiEnabled k = s.spiEnabled k :=
  Function.update_of_ne hk ..

theorem regWrite_gicdEnabler (g : Vgic) (vm : Int) (set : Bool) {n : Nat} (hn : n < 32)
    (val : U32) : regWrite vm (gicdEnabler set n) val g =
      g.modify vm fun s => s.enableSpis set n val := by
  have hoff := gicdEnabler_off set hn
  have hidx := spiIndex_gicdEnabler set hn
  simp only [regWrite, gicdEnabler_lt_gicr set hn, if_false]
  generalize gicdEnabler set n - vgicGicdBase = off at hoff hidx
  cases set with
  | true =>
    simp only [enablerOff] at hoff hidx
    rw [if_neg (by bv_omega), if_pos (by constructor <;> bv_omega), hidx]
    rfl
  | false =>
    simp only [enablerOff] at hoff hidx
    rw [if_neg (by bv_omega), if_neg (by rintro ⟨-, h⟩; bv_omega),
      if_pos (by constructor <;> bv_omega), hidx]
    rfl

/-- Any other distributor register keeps the enable bits. -/
theorem regWrite_gicd_other (g : Vgic) (vm : Int) {ipa : U64} (hgicd : ¬ vgicGicrBase ≤ ipa)
    (hoff : ¬ (0x100 ≤ (ipa - vgicGicdBase).toNat ∧ (ipa - vgicGicdBase).toNat < 0x200))
    (val : U32) (j : Int) : ((regWrite vm ipa val g).vg j).spiEnabled = (g.vg j).spiEnabled := by
  simp only [regWrite, hgicd, if_false]
  generalize ipa - vgicGicdBase = off at hoff
  rw [if_neg (c := _ ∧ _) (by rintro ⟨h1, h2⟩; exact hoff (by constructor <;> bv_omega)),
    if_neg (c := _ ∧ _) (by rintro ⟨h1, h2⟩; exact hoff (by constructor <;> bv_omega))]
  split_ifs
  · by_cases hj : j = vm
    · subst hj
      rw [modify_vg_self]
    · rw [modify_vg_of_ne hj]
  · rfl

/-- An aligned distributor register is an enable register or keeps the enable
bits. -/
theorem gicd_reg_cases {ipa : U64} (hgicd : vgicGicdBase ≤ ipa)
    (halign : ipa.toNat % 4 = 0) : (∃ set n, n < 32 ∧ ipa = gicdEnabler set n) ∨
      ¬ (0x100 ≤ (ipa - vgicGicdBase).toNat ∧ (ipa - vgicGicdBase).toNat < 0x200) := by
  by_cases henable : 0x100 ≤ (ipa - vgicGicdBase).toNat ∧ (ipa - vgicGicdBase).toNat < 0x200
  · left
    obtain ⟨hlo, hhi⟩ := henable
    have hoff : (ipa - vgicGicdBase).toNat = ipa.toNat - 0x08000000 := by
      simp only [vgicGicdBase] at hgicd ⊢
      bv_omega
    by_cases hset : (ipa - vgicGicdBase).toNat < 0x180
    · refine ⟨true, ((ipa - vgicGicdBase).toNat - 0x100) / 4, by omega, ?_⟩
      simp only [gicdEnabler, enablerOff]
      rw [hoff] at *
      simp only [vgicGicdBase] at *
      bv_omega
    · refine ⟨false, ((ipa - vgicGicdBase).toNat - 0x180) / 4, by omega, ?_⟩
      simp only [gicdEnabler, enablerOff]
      rw [hoff] at *
      simp only [vgicGicdBase] at *
      bv_omega
  · exact .inr henable

/-- The bit that `vgic_spi_enabled` tests, by number. -/
theorem vgicSpiEnabled_ofNat (g : Vgic) (vm : Int) {i : Nat} (hlo : 32 ≤ i) (hhi : i < 256) :
    vgicSpiEnabled g vm (BitVec.ofNat 32 i) =
      ((g.vg vm).spiEnabled (Fin.ofNat 8 (i / 32))).getLsbD (i % 32) := by
  have hi : (BitVec.ofNat 32 i).toNat = i := by
    rw [BitVec.toNat_ofNat]
    omega
  have hbit := vgicSpiEnabled_eq g vm (k := BitVec.ofNat 32 i) (by bv_omega) (by bv_omega)
  simp only [spiBit, hi] at hbit
  exact hbit

/-- A store to the distributor by one of the VMs. -/
structure GicdStore extends GicStore where
  vm : Fin 4
  window : vgicGicdBase ≤ ipa ∧ ipa < vgicGicdBase + vgicGicdSize

/-- The state after a sequence of stores. -/
def gicdRun (g : Vgic) (as : List GicdStore) : Vgic :=
  as.foldl (fun g a => (vgicMmio a.vm.val a.v a.ipa g).2) g

/-- The register writes of a sequence of stores. -/
def gicdWrites (as : List GicdStore) : List RegWrite := as.flatMap fun a => a.writes a.vm

theorem gicdRun_eq (g : Vgic) (as : List GicdStore) :
    gicdRun g as = (gicdWrites as).foldl RegWrite.apply g := by
  rw [gicdWrites, List.foldl_flatMap]
  exact congrArg (fun f => as.foldl f g) (funext₂ fun g a => vgicMmio_store a.toGicStore a.vm g)

theorem ipa_of_mem_gicdWrites {as : List GicdStore} {w : RegWrite} (hw : w ∈ gicdWrites as) :
    w.ipa.toNat % 4 = 0 ∧ vgicGicdBase ≤ w.ipa ∧ ¬ vgicGicrBase ≤ w.ipa := by
  obtain ⟨a, -, hmem⟩ := List.mem_flatMap.mp hw
  obtain ⟨-, halign, hipa⟩ := ipa_of_mem_writes hmem
  have hwin := a.window
  simp only [vgicGicdBase, vgicGicdSize, vgicGicrBase] at hwin ⊢
  refine ⟨halign, ?_⟩
  rcases hipa with h | ⟨h, h8⟩ <;> rw [h] <;> constructor <;> bv_omega

/-- What a register write does to the enable bit of interrupt `i` of a VM, as
the GIC architecture has it. -/
def RegWrite.spiAct (vm : Fin 4) (i : Nat) (w : RegWrite) : Option Bool :=
  if w.vm = vm ∧ w.val.getLsbD (i % 32) = true then
    if w.ipa = gicdEnabler true (i / 32) then some true
    else if w.ipa = gicdEnabler false (i / 32) then some false
    else none
  else none

/-- The write is to an enable register of interrupts 256 and above. -/
def RegWrite.Unimplemented (w : RegWrite) : Prop :=
  ∃ set n, 8 ≤ n ∧ n < 32 ∧ w.ipa = gicdEnabler set n

/-- The write would change no bit of the register that it aliases: one that
enables has ones only where that register has ones, one that disables only
where it has zeros. -/
def RegWrite.Idle (w : RegWrite) (g : Vgic) : Prop :=
  ∀ set n, n < 32 → w.ipa = gicdEnabler set n →
    let bitmap := regRead g w.vm.val (gicdEnabler true (n % 8))
    w.val &&& (if set then ~~~bitmap else bitmap) = 0

theorem modify_eq_self_iff (g : Vgic) (i : Int) (f : VgicState → VgicState) :
    g.modify i f = g ↔ f (g.vg i) = g.vg i := by
  constructor
  · intro h
    rw [← modify_vg_self g i f, h]
  · intro h
    rw [Vgic.modify, h, Function.update_eq_self]

theorem enableSpis_eq_self_iff (s : VgicState) (set : Bool) (n : Nat) (val : U32) :
    s.enableSpis set n val = s ↔
      enableBits set (s.spiEnabled (Fin.ofNat 8 n)) val = s.spiEnabled (Fin.ofNat 8 n) := by
  constructor
  · intro h
    rw [← enableSpis_self s set n val, h]
  · intro h
    rw [VgicState.enableSpis, h, Function.update_eq_self]

/-- A write to an enable register has no effect exactly when it is idle. -/
theorem apply_eq_self_iff_idle {g : Vgic} {w : RegWrite} {set : Bool} {n : Nat} (hn : n < 32)
    (hw : w.ipa = gicdEnabler set n) : RegWrite.apply g w = g ↔ w.Idle g := by
  have hmod : Fin.ofNat 8 (n % 8) = Fin.ofNat 8 n := Fin.ext (Nat.mod_mod n 8)
  rw [RegWrite.apply, hw, regWrite_gicdEnabler g _ set hn, modify_eq_self_iff,
    enableSpis_eq_self_iff, enableBits_eq_self_iff]
  constructor
  · intro h set' n' hn' hw'
    obtain ⟨rfl, rfl⟩ := (gicdEnabler_inj hn hn').mp (hw.symm.trans hw')
    simp only [regRead_gicdEnabler g _ true (by omega : n % 8 < 32), hmod]
    exact h
  · intro h
    have hidle := h set n hn hw
    simpa only [regRead_gicdEnabler g _ true (by omega : n % 8 < 32), hmod] using hidle

theorem spiAct_gicdEnabler {w : RegWrite} {set : Bool} {n : Nat} (hn : n < 32)
    (hw : w.ipa = gicdEnabler set n) (vm : Fin 4) {i : Nat} (hi : i < 256) :
    w.spiAct vm i =
      if w.vm = vm ∧ n = i / 32 ∧ w.val.getLsbD (i % 32) = true then some set else none := by
  have hinj : ∀ set', (w.ipa = gicdEnabler set' (i / 32) ↔ set = set' ∧ n = i / 32) := by
    intro set'
    rw [hw]
    exact gicdEnabler_inj hn (by omega)
  simp only [RegWrite.spiAct, hinj]
  by_cases hvm : w.vm = vm <;> by_cases hni : n = i / 32 <;> cases w.val.getLsbD (i % 32) <;>
    cases set <;> simp [hvm, hni]

theorem spiAct_other {w : RegWrite}
    (hoff : ¬ (0x100 ≤ (w.ipa - vgicGicdBase).toNat ∧ (w.ipa - vgicGicdBase).toNat < 0x200))
    (vm : Fin 4) {i : Nat} (hi : i < 256) : w.spiAct vm i = none := by
  have hne : ∀ set, w.ipa ≠ gicdEnabler set (i / 32) := by
    intro set h
    have haddr := gicdEnabler_off set (by omega : i / 32 < 32)
    rw [← h] at haddr
    apply hoff
    rw [haddr]
    cases set <;> simp only [enablerOff] <;> constructor <;> bv_omega
  simp [RegWrite.spiAct, hne]

/-- One register write does to the enable bits what the architecture says,
unless it is to an unimplemented register and has an effect. -/
theorem spiEnabled_apply {g : Vgic} {w : RegWrite} (halign : w.ipa.toNat % 4 = 0)
    (hbase : vgicGicdBase ≤ w.ipa) (hgicd : ¬ vgicGicrBase ≤ w.ipa) {vm : Fin 4}
    (hidle : w.vm = vm → w.Unimplemented → RegWrite.apply g w = g) {i : Nat} (hlo : 32 ≤ i)
    (hhi : i < 256) : vgicSpiEnabled (RegWrite.apply g w) vm.val (BitVec.ofNat 32 i) =
      (w.spiAct vm i).getD (vgicSpiEnabled g vm.val (BitVec.ofNat 32 i)) := by
  rw [vgicSpiEnabled_ofNat _ _ hlo hhi, vgicSpiEnabled_ofNat _ _ hlo hhi]
  rcases gicd_reg_cases hbase halign with ⟨set, n, hn, hw⟩ | hother
  · rw [spiAct_gicdEnabler hn hw vm hhi]
    by_cases hvm : w.vm = vm
    · by_cases hni : n = i / 32
      · rw [RegWrite.apply, hw, regWrite_gicdEnabler g _ set hn, hvm, modify_vg_self,
          ← hni, enableSpis_self, getLsbD_enableBits _ _ _ (by omega)]
        cases w.val.getLsbD (i % 32) <;> simp
      · rw [if_neg (by rintro ⟨-, h, -⟩; exact hni h), Option.getD_none]
        -- register `n` shares its word with `n % 8`, which is another one below 8
        by_cases himpl : n < 8
        · have hne : Fin.ofNat 8 (i / 32) ≠ Fin.ofNat 8 n := by
            intro h
            have hval := congrArg Fin.val h
            simp only [Fin.ofNat] at hval
            omega
          rw [RegWrite.apply, hw, regWrite_gicdEnabler g _ set hn, hvm, modify_vg_self,
            enableSpis_of_ne _ set _ hne]
        · rw [hidle hvm ⟨set, n, by omega, hn, hw⟩]
    · have hne : (vm.val : Int) ≠ w.vm.val := fun h => hvm (Fin.ext (by omega))
      rw [RegWrite.apply, hw, regWrite_gicdEnabler g _ set hn, modify_vg_of_ne hne,
        if_neg (by rintro ⟨h, -⟩; exact hvm h), Option.getD_none]
  · rw [RegWrite.apply, regWrite_gicd_other g _ hgicd hother, spiAct_other hother vm hhi,
      Option.getD_none]

/-- The enable registers of the distributor of a VM behave, over a sequence of
stores by any VMs that starts at `vgic_reset`, as the architecture has it. -/
structure SpiEnableLaw (g : Vgic) (as : List GicdStore) (vm : Fin 4) : Prop where
  enabled : ∀ i, 32 ≤ i → i < 256 →
    (vgicSpiEnabled (gicdRun (vgicReset g) as) vm.val (BitVec.ofNat 32 i) = true ↔
      lastAct (RegWrite.spiAct vm i) (gicdWrites as) = some true)
  reads : ∀ set n b, 1 ≤ n → n < 8 → b < 32 →
    (regRead (gicdRun (vgicReset g) as) vm.val (gicdEnabler set n)).getLsbD b =
      vgicSpiEnabled (gicdRun (vgicReset g) as) vm.val (BitVec.ofNat 32 (32 * n + b))
  void : ∀ pre w post, gicdWrites as = pre ++ w :: post → w.vm = vm → w.Unimplemented →
    RegWrite.apply (pre.foldl RegWrite.apply (vgicReset g)) w =
      pre.foldl RegWrite.apply (vgicReset g)

theorem spiEnabled_reset (g : Vgic) (vm : Fin 4) {i : Nat} (hlo : 32 ≤ i) (hhi : i < 256) :
    vgicSpiEnabled (vgicReset g) vm.val (BitVec.ofNat 32 i) = false := by
  have hvm : (0 : Int) ≤ vm.val ∧ (vm.val : Int) < vgicMaxVcpus := by
    unfold vgicMaxVcpus
    omega
  rw [vgicSpiEnabled_ofNat _ _ hlo hhi]
  simp only [vgicReset, hvm, and_self, if_true]
  exact BitVec.getLsbD_zero

/-- Reads of both registers return the enable bits, in every state. -/
theorem regRead_gicdEnabler_bit (g : Vgic) (vm : Int) (set : Bool) {n b : Nat} (hlo : 1 ≤ n)
    (hhi : n < 8) (hb : b < 32) : (regRead g vm (gicdEnabler set n)).getLsbD b =
      vgicSpiEnabled g vm (BitVec.ofNat 32 (32 * n + b)) := by
  have hdiv : (32 * n + b) / 32 = n := by omega
  have hmod : (32 * n + b) % 32 = b := by omega
  rw [vgicSpiEnabled_ofNat g vm (by omega) (by omega), hdiv, hmod,
    regRead_gicdEnabler g vm set (by omega)]

/-- The law holds in a run exactly if every write to an unimplemented register
is idle in the state it is made in. -/
theorem spi_enable_law_iff (g : Vgic) (as : List GicdStore) (vm : Fin 4) :
    SpiEnableLaw g as vm ↔ ∀ pre w post, gicdWrites as = pre ++ w :: post → w.vm = vm →
      w.Unimplemented → w.Idle (pre.foldl RegWrite.apply (vgicReset g)) := by
  constructor
  · intro h pre w post heq hvm hun
    have hvoid := h.void pre w post heq hvm hun
    obtain ⟨set, n, -, hn, hw⟩ := hun
    exact (apply_eq_self_iff_idle hn hw).mp hvoid
  · intro h
    have hvoid : ∀ pre w post, gicdWrites as = pre ++ w :: post → w.vm = vm → w.Unimplemented →
        RegWrite.apply (pre.foldl RegWrite.apply (vgicReset g)) w =
          pre.foldl RegWrite.apply (vgicReset g) := by
      intro pre w post heq hvm hun
      have hidle := h pre w post heq hvm hun
      obtain ⟨set, n, -, hn, hw⟩ := hun
      exact (apply_eq_self_iff_idle hn hw).mpr hidle
    refine ⟨fun i hlo hhi => ?_, fun set n b hlo hhi hb => ?_, hvoid⟩
    · rw [gicdRun_eq, flag_run RegWrite.apply (fun _ w => w) (RegWrite.spiAct vm i)
        (fun g => vgicSpiEnabled g vm.val (BitVec.ofNat 32 i)), history_self,
        spiEnabled_reset g vm hlo hhi]
      · cases lastAct (RegWrite.spiAct vm i) (gicdWrites as) <;> simp
      · intro pre w post heq
        have hmem : w ∈ gicdWrites as := by
          rw [heq]
          simp
        obtain ⟨halign, hbase, hgicd⟩ := ipa_of_mem_gicdWrites hmem
        exact spiEnabled_apply halign hbase hgicd (hvoid pre w post heq) hlo hhi
    · exact regRead_gicdEnabler_bit _ _ set hlo hhi hb

/-- A store of all ones to `GICD_ISENABLER<9>`, for interrupts 288 to 319. -/
def isenabler9Store : GicdStore where
  v := storingVcpu 0xFFFFFFFF
  ipa := 0x08000124
  isv := by decide
  wnr := by decide
  aligned := .inl (by decide)
  vm := 0
  window := by decide

/-- It enables interrupt 32, which no write has addressed. -/
theorem isenabler9_enables_spi32 :
    vgicSpiEnabled (gicdRun (vgicReset resetVgic) [isenabler9Store]) 0 32 = true ∧
      lastAct (RegWrite.spiAct 0 32) (gicdWrites [isenabler9Store]) = none ∧
      ¬ SpiEnableLaw resetVgic [isenabler9Store] 0 := by
  have hon : vgicSpiEnabled (gicdRun (vgicReset resetVgic) [isenabler9Store]) 0 32 = true := by
    decide +kernel
  have hnone : lastAct (RegWrite.spiAct 0 32) (gicdWrites [isenabler9Store]) = none := by
    decide +kernel
  refine ⟨hon, hnone, fun h => ?_⟩
  have hlast := (h.enabled 32 (by decide) (by decide)).mp hon
  rw [hnone] at hlast
  cases hlast

/-! ## 3. The redistributor frames

The configuration of `smp_gicr_demo`: one VM with four vCPUs, all of which
reach all frames, and `vm = 0` in every call.
-/

/-- `GICR_ISENABLER0` (`set`) and `GICR_ICENABLER0` of frame `f`. -/
def gicrEnabler (set : Bool) (f : Fin 4) : U64 :=
  vgicGicrBase + BitVec.ofNat 64 f.val * vgicGicrStride + 0x10000 + enablerOff set

theorem gicrEnabler_decoded (set : Bool) (f : Fin 4) : vgicGicrBase ≤ gicrEnabler set f ∧
    (gicrEnabler set f - vgicGicrBase) % vgicGicrStride = 0x10000 + enablerOff set ∧
    gicrIndex 0 (gicrFrame (gicrEnabler set f - vgicGicrBase)) = f.val := by
  revert set f
  decide

theorem gicrEnabler_inj {set set' : Bool} {f f' : Fin 4} :
    gicrEnabler set f = gicrEnabler set' f' ↔ set = set' ∧ f = f' := by
  revert set set' f f'
  decide

/-- Only `GICR_ISENABLER0` is decoded for reading. -/
theorem regRead_gicrEnabler (g : Vgic) (set : Bool) (f : Fin 4) :
    regRead g 0 (gicrEnabler set f) = if set then (g.vg f.val).enabled else 0 := by
  obtain ⟨hbase, hoff, hidx⟩ := gicrEnabler_decoded set f
  simp only [regRead, hbase, if_true, hoff, hidx]
  cases set <;> rfl

theorem regWrite_gicrEnabler (g : Vgic) (set : Bool) (f : Fin 4) (val : U32) :
    regWrite 0 (gicrEnabler set f) val g =
      g.modify f.val fun s => { s with enabled := enableBits set s.enabled val } := by
  obtain ⟨hbase, hoff, hidx⟩ := gicrEnabler_decoded set f
  simp only [regWrite, hbase, if_true, hoff, hidx]
  cases set <;> rfl

/-- The frame and the offset in it of an address of the window. -/
theorem gicr_window {ipa : U64} (h : vgicGicrBase ≤ ipa ∧ ipa < vgicGicrBase + vgicGicrSize) :
    (ipa - vgicGicrBase).toNat = ipa.toNat - 0x080A0000 ∧ (ipa - vgicGicrBase).toNat < 0x80000 := by
  simp only [vgicGicrBase, vgicGicrSize, vgicGicrStride] at h ⊢
  constructor <;> bv_omega

/-- An address of the window at the offset of an enable register is the enable
register of one of the frames. -/
theorem eq_gicrEnabler {ipa : U64}
    (h : vgicGicrBase ≤ ipa ∧ ipa < vgicGicrBase + vgicGicrSize) {set : Bool}
    (hoff : (ipa - vgicGicrBase) % vgicGicrStride = 0x10000 + enablerOff set) :
    ∃ f, ipa = gicrEnabler set f := by
  obtain ⟨hsub, hlt⟩ := gicr_window h
  have hrem : (ipa - vgicGicrBase).toNat % 0x20000 = (0x10000 + enablerOff set).toNat := by
    rw [← hoff, BitVec.toNat_umod]
    rfl
  refine ⟨⟨(ipa - vgicGicrBase).toNat / 0x20000, by omega⟩, ?_⟩
  have hle : 0x080A0000 ≤ ipa.toNat := h.1
  apply BitVec.eq_of_toNat_eq
  rw [hsub] at *
  simp only [gicrEnabler, vgicGicrBase, vgicGicrStride]
  cases set <;> simp only [enablerOff] at hrem ⊢ <;> bv_omega

/-- Any other register of the window keeps the enable bits of every frame. -/
theorem regWrite_gicr_other (g : Vgic) {ipa : U64}
    (h : vgicGicrBase ≤ ipa ∧ ipa < vgicGicrBase + vgicGicrSize)
    (hne : ∀ set f, ipa ≠ gicrEnabler set f) (val : U32) (j : Int) :
    ((regWrite 0 ipa val g).vg j).enabled = (g.vg j).enabled := by
  have hoff : ∀ set, (ipa - vgicGicrBase) % vgicGicrStride ≠ 0x10000 + enablerOff set := by
    intro set hoff
    obtain ⟨f, hf⟩ := eq_gicrEnabler h hoff
    exact hne set f hf
  have hset : (ipa - vgicGicrBase) % vgicGicrStride ≠ 0x10100 := hoff true
  have hclear : (ipa - vgicGicrBase) % vgicGicrStride ≠ 0x10180 := hoff false
  simp only [regWrite, h.1, if_true]
  rw [if_neg hset, if_neg hclear]
  split_ifs
  · by_cases hj : j = gicrIndex 0 (gicrFrame (ipa - vgicGicrBase))
    · rw [hj, modify_vg_self]
    · rw [modify_vg_of_ne hj]
  · rfl

/-- The bit that `vgic_irq_enabled` tests. -/
theorem vgicIrqEnabled_ofNat (g : Vgic) (vm : Int) {i : Nat} (hi : i < 32) :
    vgicIrqEnabled g vm (BitVec.ofNat 32 i) = (g.vg vm).enabled.getLsbD i := by
  have hval : (BitVec.ofNat 32 i).toNat = i := by
    rw [BitVec.toNat_ofNat]
    omega
  have hlt : BitVec.ofNat 32 i < 32 := by bv_omega
  rw [vgicIrqEnabled, hval, decide_eq_true hlt, Bool.true_and, Bool.eq_iff_iff, decide_eq_true_iff]
  exact Bits.and_one_shl_ne_zero_iff _ _

/-- A store to the redistributor window. -/
structure GicrStore extends GicStore where
  window : vgicGicrBase ≤ ipa ∧ ipa < vgicGicrBase + vgicGicrSize

/-- The state after a sequence of stores. -/
def gicrRun (g : Vgic) (as : List GicrStore) : Vgic :=
  as.foldl (fun g a => (vgicMmio 0 a.v a.ipa g).2) g

/-- The register writes of a sequence of stores. -/
def gicrWrites (as : List GicrStore) : List RegWrite := as.flatMap fun a => a.writes 0

theorem gicrRun_eq (g : Vgic) (as : List GicrStore) :
    gicrRun g as = (gicrWrites as).foldl RegWrite.apply g := by
  rw [gicrWrites, List.foldl_flatMap]
  exact congrArg (fun f => as.foldl f g) (funext₂ fun g a => vgicMmio_store a.toGicStore 0 g)

theorem ipa_of_mem_gicrWrites {as : List GicrStore} {w : RegWrite} (hw : w ∈ gicrWrites as) :
    w.vm = 0 ∧ vgicGicrBase ≤ w.ipa ∧ w.ipa < vgicGicrBase + vgicGicrSize := by
  obtain ⟨a, -, hmem⟩ := List.mem_flatMap.mp hw
  obtain ⟨hvm, -, hipa⟩ := ipa_of_mem_writes hmem
  have hwin := a.window
  simp only [vgicGicrBase, vgicGicrSize, vgicGicrStride] at hwin ⊢
  refine ⟨hvm, ?_⟩
  rcases hipa with h | ⟨h, h8⟩ <;> rw [h] <;> constructor <;> bv_omega

/-- What a register write does to the enable bit of interrupt `i` in frame `f`,
as the GIC architecture has it. -/
def RegWrite.irqAct (f : Fin 4) (i : Nat) (w : RegWrite) : Option Bool :=
  if w.val.getLsbD i = true then
    if w.ipa = gicrEnabler true f then some true
    else if w.ipa = gicrEnabler false f then some false
    else none
  else none

/-- One register write does to the enable bits what the architecture says. -/
theorem irqEnabled_apply (g : Vgic) {w : RegWrite} (hvm : w.vm = 0)
    (hwin : vgicGicrBase ≤ w.ipa ∧ w.ipa < vgicGicrBase + vgicGicrSize) (f : Fin 4) {i : Nat}
    (hi : i < 32) : vgicIrqEnabled (RegWrite.apply g w) f.val (BitVec.ofNat 32 i) =
      (w.irqAct f i).getD (vgicIrqEnabled g f.val (BitVec.ofNat 32 i)) := by
  have happly : RegWrite.apply g w = regWrite 0 w.ipa w.val g := by
    rw [RegWrite.apply, hvm]
    rfl
  rw [vgicIrqEnabled_ofNat _ _ hi, vgicIrqEnabled_ofNat _ _ hi, happly, RegWrite.irqAct]
  by_cases hreg : ∃ set f', w.ipa = gicrEnabler set f'
  · obtain ⟨set, f', hw⟩ := hreg
    simp only [hw, regWrite_gicrEnabler, gicrEnabler_inj]
    by_cases hf : f' = f
    · rw [hf, modify_vg_self, getLsbD_enableBits _ _ _ hi]
      cases w.val.getLsbD i <;> cases set <;> simp
    · have hne : (f.val : Int) ≠ f'.val := fun h => hf (Fin.ext (by omega))
      rw [modify_vg_of_ne hne]
      simp [hf]
  · push Not at hreg
    rw [regWrite_gicr_other g hwin hreg]
    simp [hreg]

/-- An access to the redistributors addresses the register at its offset and, for
a double word, the next one. -/
theorem gicr_reg_offset {a : GicAccess} (hbase : vgicGicrBase ≤ a.ipa) {r : U64}
    (hr : r ∈ a.regs) : vgicGicrBase ≤ r ∧ (a.ipa - vgicGicrBase).toNat < 0x80000 ∧
      ((r - vgicGicrBase).toNat = (a.ipa - vgicGicrBase).toNat ∨
        (r - vgicGicrBase).toNat = (a.ipa - vgicGicrBase).toNat + 4) := by
  have hwin : a.ipa < vgicGicrBase + vgicGicrSize := by
    have hwin := vgicContains_iff.mp a.inWindow
    simp only [vgicGicrBase, vgicGicrSize, vgicGicrStride, BitVec.le_def] at hbase ⊢
    bv_omega
  obtain ⟨hsub, hlt⟩ := gicr_window ⟨hbase, hwin⟩
  rcases mem_regs hr with rfl | rfl
  · exact ⟨hbase, hlt, .inl rfl⟩
  · rw [hsub] at hlt ⊢
    simp only [vgicGicrBase, vgicGicrSize, vgicGicrStride] at hbase hwin ⊢
    exact ⟨by bv_omega, hlt, .inr (by bv_omega)⟩

/-- A register of an access to a frame belongs to that frame, or is the first
word of the next one, which holds no state. -/
theorem gicr_reg_frame {a : GicAccess} (hbase : vgicGicrBase ≤ a.ipa) {r : U64} (hr : r ∈ a.regs) :
    vgicGicrBase ≤ r ∧
      (regOwner 0 r = gicrFrame (a.ipa - vgicGicrBase) ∨ gicrStateReg r = false) := by
  obtain ⟨hrbase, hlt, hoff⟩ := gicr_reg_offset hbase hr
  refine ⟨hrbase, ?_⟩
  have howner : regOwner 0 r = gicrIndex 0 (gicrFrame (r - vgicGicrBase)) := by
    simp only [regOwner, hrbase, if_true]
  rw [howner, gicrFrame_eq (by omega), gicrFrame_eq (by omega)]
  by_cases hsame : (r - vgicGicrBase).toNat / 0x20000 = (a.ipa - vgicGicrBase).toNat / 0x20000
  · left
    rw [hsame]
    unfold gicrIndex vgicMaxVcpus
    rw [if_neg (by omega)]
    omega
  · right
    -- a double word at the end of a frame: its second half is offset 0 of the next
    have hrem : ((r - vgicGicrBase) % vgicGicrStride).toNat < 4 := by
      rw [BitVec.toNat_umod]
      change (r - vgicGicrBase).toNat % 0x20000 < 4
      omega
    have hne : ∀ o : U64, 4 ≤ o.toNat → (r - vgicGicrBase) % vgicGicrStride ≠ o := by
      intro o ho heq
      rw [heq] at hrem
      omega
    simp only [gicrStateReg, hne 0x10080 (by decide), hne 0x10100 (by decide),
      hne 0x10180 (by decide), decide_false, Bool.or_self, Bool.and_false]

theorem gicr_reg_index {a : GicAccess} (hbase : vgicGicrBase ≤ a.ipa) {r : U64} (hr : r ∈ a.regs) :
    0 ≤ regOwner 0 r ∧ regOwner 0 r < vgicMaxVcpus := by
  obtain ⟨hrbase, -⟩ := gicr_reg_frame hbase hr
  obtain ⟨hlo, -⟩ := gicrFrame_bounds (regs_window hr hrbase)
  simp only [regOwner, hrbase, if_true, gicrIndex, vgicMaxVcpus]
  split_ifs <;> omega

/-- A register write of an access to a frame keeps the other frames. -/
theorem gicr_regWrite_frame {a : GicAccess} (hbase : vgicGicrBase ≤ a.ipa) {r : U64}
    (hr : r ∈ a.regs) (val : U32) (g : Vgic) {j : Int}
    (hj : j ≠ gicrFrame (a.ipa - vgicGicrBase)) : (regWrite 0 r val g).vg j = g.vg j := by
  obtain ⟨f, hf, hid⟩ := regWrite_eq_modify 0 r val
  obtain ⟨hrbase, howner | hstate⟩ := gicr_reg_frame hbase hr
  · rw [hf, howner, modify_vg_of_ne hj]
  · rw [hf, hid hrbase hstate, modify_id]

/-- An access to a frame, of any size and alignment, keeps the other frames. -/
theorem gicr_access_frame {a : GicAccess} (hvm : a.vm = 0) (hbase : vgicGicrBase ≤ a.ipa)
    (g : Vgic) {j : Int} (hj : j ≠ gicrFrame (a.ipa - vgicGicrBase)) :
    (gicMachine.step g a).vg j = g.vg j := by
  have hvm0 : (a.vm.val : Int) = 0 := by simp [hvm]
  rcases step_cases a with hs | ⟨val, hr, hs⟩ | ⟨val, val', hr, hr', hs⟩
  · rw [hs]
  · rw [hs, hvm0, gicr_regWrite_frame hbase hr val g hj]
  · rw [hs, hvm0, gicr_regWrite_frame hbase hr' val' _ hj, gicr_regWrite_frame hbase hr val g hj]

/-- The enable registers of frame `f` behave, over a sequence of stores to the
window that starts at `vgic_reset`, as the architecture has it, and accesses to
a frame concern that frame only. -/
structure FrameEnableLaw (g : Vgic) (as : List GicrStore) (f : Fin 4) : Prop where
  enabled : ∀ i, i < 32 →
    (vgicIrqEnabled (gicrRun (vgicReset g) as) f.val (BitVec.ofNat 32 i) = true ↔
      lastAct (RegWrite.irqAct f i) (gicrWrites as) = some true)
  reads : ∀ set, regRead (gicrRun (vgicReset g) as) 0 (gicrEnabler set f) =
    ((gicrRun (vgicReset g) as).vg f.val).enabled
  indices : ∀ a : GicAccess, a.vm = 0 → vgicGicrBase ≤ a.ipa →
    ∀ r ∈ a.regs, 0 ≤ regOwner 0 r ∧ regOwner 0 r < vgicMaxVcpus
  confined : ∀ a : GicAccess, a.vm = 0 → vgicGicrBase ≤ a.ipa →
    ∀ j, j ≠ gicrFrame (a.ipa - vgicGicrBase) →
      (gicMachine.step (gicrRun (vgicReset g) as) a).vg j = (gicrRun (vgicReset g) as).vg j

/-- The last-writer law of a frame holds after every sequence of stores. -/
theorem irqEnabled_iff_lastAct (g : Vgic) (as : List GicrStore) (f : Fin 4) {i : Nat}
    (hi : i < 32) : vgicIrqEnabled (gicrRun (vgicReset g) as) f.val (BitVec.ofNat 32 i) = true ↔
      lastAct (RegWrite.irqAct f i) (gicrWrites as) = some true := by
  have hreset : vgicIrqEnabled (vgicReset g) f.val (BitVec.ofNat 32 i) = false := by
    have hf : (0 : Int) ≤ f.val ∧ (f.val : Int) < vgicMaxVcpus := by
      unfold vgicMaxVcpus
      omega
    rw [vgicIrqEnabled_ofNat _ _ hi]
    simp only [vgicReset, hf, and_self, if_true]
    exact BitVec.getLsbD_zero
  rw [gicrRun_eq, flag_run RegWrite.apply (fun _ w => w) (RegWrite.irqAct f i)
    (fun g => vgicIrqEnabled g f.val (BitVec.ofNat 32 i)), history_self, hreset]
  · cases lastAct (RegWrite.irqAct f i) (gicrWrites as) <;> simp
  · intro pre w post heq
    obtain ⟨hvm, hwin⟩ := ipa_of_mem_gicrWrites (by rw [heq]; simp : w ∈ gicrWrites as)
    exact irqEnabled_apply _ hvm hwin f hi

/-- The law holds for a frame exactly when no interrupt of the frame is
enabled: a read of `GICR_ICENABLER0` returns zero. -/
theorem frame_enable_law_iff (g : Vgic) (as : List GicrStore) (f : Fin 4) :
    FrameEnableLaw g as f ↔
      ∀ i, i < 32 →
        vgicIrqEnabled (gicrRun (vgicReset g) as) f.val (BitVec.ofNat 32 i) = false := by
  constructor
  · intro h i hi
    have hread := h.reads false
    rw [regRead_gicrEnabler] at hread
    rw [vgicIrqEnabled_ofNat _ _ hi, ← hread]
    exact BitVec.getLsbD_zero
  · intro h
    have hzero : ((gicrRun (vgicReset g) as).vg f.val).enabled = 0 := by
      refine BitVec.eq_of_getLsbD_eq fun i hi => ?_
      rw [← vgicIrqEnabled_ofNat _ _ hi, h i hi]
      exact BitVec.getLsbD_zero.symm
    refine ⟨fun i hi => irqEnabled_iff_lastAct g as f hi, fun set => ?_,
      fun a _ hbase r hr => gicr_reg_index hbase hr,
      fun a hvm hbase j hj => gicr_access_frame hvm hbase _ hj⟩
    rw [regRead_gicrEnabler, hzero]
    cases set <;> rfl

/-- A store that enables the timer interrupt, 27, in frame 0. -/
def enableTimerStore : GicrStore where
  v := storingVcpu (1 <<< 27)
  ipa := 0x080B0100
  isv := by decide
  wnr := by decide
  aligned := .inl (by decide)
  window := by decide

/-- After it, reads of the two registers differ. -/
theorem icenabler0_reads_zero :
    let g := gicrRun (vgicReset resetVgic) [enableTimerStore]
    vgicIrqEnabled g 0 27 = true ∧ regRead g 0 (gicrEnabler true 0) = 1 <<< 27 ∧
      regRead g 0 (gicrEnabler false 0) = 0 ∧ ¬ FrameEnableLaw resetVgic [enableTimerStore] 0 := by
  intro g
  have hset : regRead g 0 (gicrEnabler true 0) = 1 <<< 27 := by decide +kernel
  have hclear : regRead g 0 (gicrEnabler false 0) = 0 := by decide +kernel
  refine ⟨by decide +kernel, hset, hclear, fun h => ?_⟩
  have hsame := (h.reads true).trans (h.reads false).symm
  change regRead g 0 (gicrEnabler true 0) = regRead g 0 (gicrEnabler false 0) at hsame
  rw [hset, hclear] at hsame
  exact absurd hsame (by decide)

end FermiHV
