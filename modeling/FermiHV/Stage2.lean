import FermiHV.Exception

/-!
# Stage-2 translation

`stage2.c`: the shared level-1 table `s2_l1`, the per-VM tables `s2_vm` and the
functions that write them, with the walk the hardware makes through the table
that a `VTTBR_EL2` value selects (4 KiB granule, 39-bit IPA, one level of 1 GiB
blocks).

Results:
1. `buildVm_vttbr`: the `VTTBR_EL2` value that `stage2_build_vm` returns decodes
   to the VM's own table and to the VMID it was given.
2. `walk_of_built`: the translation of a built VM, in closed form.
3. `tenant_separation`: a built VM keeps exactly that translation whatever the
   hypervisor does to the other tables, and two VMs never share a host address.
-/

namespace FermiHV

/-! ## Tables -/

/-- Stage-2 block descriptor attributes: Normal memory, read/write. -/
def s2BlockNormal : U64 := 0x7FD
/-- Stage-2 block descriptor attributes: Device-nGnRnE, read/write. -/
def s2BlockDevice : U64 := 0x4C1
/-- T0SZ = 25, SL0 = 1, 4 KiB granule, 40-bit output addresses. -/
def vtcrEl2Value : U64 := 0x80023559

/-- Where the linker puts the tables: both 4 KiB-aligned, inside the image,
without overlap. -/
structure Image where
  s2L1 : U64
  s2Vm : U64
  s2L1_aligned : s2L1.toNat % 4096 = 0
  s2Vm_aligned : s2Vm.toNat % 4096 = 0
  s2L1_image : 0x40000000 ≤ s2L1.toNat ∧ s2L1.toNat + 4096 ≤ 0x80000000
  s2Vm_image : 0x40000000 ≤ s2Vm.toNat ∧ s2Vm.toNat + 8192 ≤ 0x80000000
  disjoint : s2L1.toNat + 4096 ≤ s2Vm.toNat ∨ s2Vm.toNat + 8192 ≤ s2L1.toNat

/-- The address of `s2_vm[vm]`. -/
def Image.s2VmAddr (img : Image) (vm : Fin 2) : U64 := img.s2Vm + BitVec.ofNat 64 (4096 * vm.val)

/-- A level-1 table: 512 descriptors. -/
abbrev Table := Fin 512 → U64

/-- The stage-2 state of the hypervisor. -/
structure Stage2 where
  s2L1 : Table
  s2Vm : Fin 2 → Table
  vtcr : U64

/-- The level-1 index of an IPA, bits 38:30. -/
def s2Index (ipa : U64) : Fin 512 :=
  ⟨((ipa >>> 30) &&& 0x1FF).toNat, by
    have h := Bits.toNat_and_mask (ipa >>> 30) (k := 9) (by omega)
    have hlt := Nat.mod_lt (ipa >>> 30).toNat (y := 2 ^ 9) (by omega)
    exact lt_of_eq_of_lt h hlt⟩

/-- `stage2_map_1gb`. -/
def stage2Map1gb (ipa : U64) (st : Stage2) : Stage2 :=
  { st with s2L1 := Function.update st.s2L1 (s2Index ipa) (blockBase ipa ||| s2BlockNormal) }

/-- `stage2_init`. -/
def stage2Init (st : Stage2) : Stage2 :=
  { stage2Map1gb 0x40000000 { st with s2L1 := fun _ => 0 } with vtcr := vtcrEl2Value }

/-- `stage2_map_1gb_device`. -/
def stage2Map1gbDevice (ipa : U64) (st : Stage2) : Stage2 :=
  { st with s2L1 := Function.update st.s2L1 (s2Index ipa) (blockBase ipa ||| s2BlockDevice) }

/-- `stage2_vttbr`: the shared table with VMID 0. -/
def stage2Vttbr (img : Image) : U64 := img.s2L1

/-- `stage2_build_vm`: the `VTTBR_EL2` value and the new tables. -/
def stage2BuildVm (img : Image) (vm : Fin 2) (ipa pa : U64) (vmid : U32) (st : Stage2) :
    U64 × Stage2 :=
  (img.s2VmAddr vm ||| (vmid.signExtend 64 <<< 48),
    { st with
      s2Vm := Function.update st.s2Vm vm
        (Function.update (fun _ => 0) (s2Index ipa) (blockBase pa ||| s2BlockNormal)) })

/-- One call that writes stage-2 tables. -/
inductive Stage2Op
  | init
  | map1gb (ipa : U64)
  | map1gbDevice (ipa : U64)
  | buildVm (vm : Fin 2) (ipa pa : U64) (vmid : U32)

def Stage2Op.apply (img : Image) : Stage2Op → Stage2 → Stage2
  | .init, st => stage2Init st
  | .map1gb ipa, st => stage2Map1gb ipa st
  | .map1gbDevice ipa, st => stage2Map1gbDevice ipa st
  | .buildVm vm ipa pa vmid, st => (stage2BuildVm img vm ipa pa vmid st).2

/-- The tables after a sequence of calls. -/
def runStage2 (img : Image) (ops : List Stage2Op) (st : Stage2) : Stage2 :=
  ops.foldl (fun st op => op.apply img st) st

/-- The call rebuilds the table of `vm`. -/
def Stage2Op.Builds (vm : Fin 2) : Stage2Op → Prop
  | .buildVm vm' _ _ _ => vm' = vm
  | _ => False

/-! ## The hardware walk -/

/-- BADDR, bits 47:1 of `VTTBR_EL2`. -/
def vttbrBaddr (vttbr : U64) : U64 := (vttbr &&& 0xFFFFFFFFFFFF) &&& ~~~1
/-- VMID, bits 63:48 of `VTTBR_EL2`. -/
def vttbrVmid (vttbr : U64) : Nat := (vttbr >>> 48).toNat

/-- The table at a base address. -/
def tableAt (img : Image) (st : Stage2) (baddr : U64) : Option Table :=
  if baddr = img.s2VmAddr 0 then some (st.s2Vm 0)
  else if baddr = img.s2VmAddr 1 then some (st.s2Vm 1)
  else if baddr = img.s2L1 then some st.s2L1
  else none

/-- The output address of a block descriptor, bits 47:30. -/
def descOutput (d : U64) : U64 := ((d >>> 30) &&& 0x3FFFF) <<< 30

/-- Translation of an IPA below `2 ^ 39` by a level-1 table. The code writes
block descriptors only, so any other descriptor is a fault. -/
def s2Lookup (t : Table) (ipa : U64) : Option U64 :=
  let d := t (s2Index ipa)
  if d &&& 3 = 1 then some (descOutput d ||| (ipa &&& 0x3FFFFFFF)) else none

/-- The stage-2 walk. An IPA of more than 39 bits always faults (T0SZ = 25). -/
def stage2Walk (img : Image) (st : Stage2) (vttbr ipa : U64) : Option U64 :=
  if ipa.toNat < 2 ^ 39 then (tableAt img st (vttbrBaddr vttbr)).bind fun t => s2Lookup t ipa
  else none

/-! ## Descriptors and indices as numbers -/

theorem s2Index_val (ipa : U64) : (s2Index ipa).val = ipa.toNat / 2 ^ 30 % 512 := by
  have h := Bits.toNat_and_mask (ipa >>> 30) (k := 9) (by omega)
  rw [Bits.toNat_shiftRight] at h
  exact h

/-- Below `2 ^ 39` two addresses have the same index exactly when they are in
the same block. -/
theorem s2Index_eq_iff {a b : U64} (ha : a.toNat < 2 ^ 39) (hb : b.toNat < 2 ^ 39) :
    s2Index a = s2Index b ↔ a.toNat / 2 ^ 30 = b.toNat / 2 ^ 30 := by
  rw [Fin.ext_iff, s2Index_val, s2Index_val]
  omega

theorem toNat_blockDesc (a attrs : U64) (h : attrs.toNat < 2 ^ 30) :
    (blockBase a ||| attrs).toNat = a.toNat / 2 ^ 30 * 2 ^ 30 + attrs.toNat := by
  have hbase := toNat_blockBase a
  rw [Bits.toNat_or_low (k := 30) (by omega) h, hbase]

theorem toNat_descOutput (d : U64) :
    (descOutput d).toNat = d.toNat / 2 ^ 30 % 2 ^ 18 * 2 ^ 30 := by
  have h := Bits.toNat_and_mask (d >>> 30) (k := 18) (by omega)
  rw [Bits.toNat_shiftRight] at h
  have hlt := d.isLt
  unfold descOutput
  rw [BitVec.toNat_shiftLeft, Nat.shiftLeft_eq]
  have hval : ((d >>> 30) &&& 0x3FFFF).toNat = d.toNat / 2 ^ 30 % 2 ^ 18 := h
  rw [hval]
  omega

theorem toNat_descOutput_block {a attrs : U64} (ha : a.toNat < 2 ^ 48)
    (h : attrs.toNat < 2 ^ 30) :
    (descOutput (blockBase a ||| attrs)).toNat = a.toNat / 2 ^ 30 * 2 ^ 30 := by
  rw [toNat_descOutput, toNat_blockDesc a attrs h]
  omega

/-- A descriptor the code writes is a valid block. -/
theorem blockDesc_valid {a attrs : U64} (h : attrs.toNat < 2 ^ 30) (h1 : attrs.toNat % 4 = 1) :
    (blockBase a ||| attrs) &&& 3 = 1 := by
  apply BitVec.eq_of_toNat_eq
  have hmask := Bits.toNat_and_mask (blockBase a ||| attrs) (k := 2) (by omega)
  rw [toNat_blockDesc a attrs h] at hmask
  have : ((blockBase a ||| attrs) &&& 3).toNat = 1 := by
    refine hmask.trans ?_
    omega
  exact this

theorem toNat_blockOffset (ipa : U64) : (ipa &&& 0x3FFFFFFF).toNat = ipa.toNat % 2 ^ 30 :=
  Bits.toNat_and_mask ipa (k := 30) (by omega)

/-- The host address of a translated IPA: the block of the descriptor and the
offset of the IPA. -/
theorem toNat_translated {a attrs ipa : U64} (ha : a.toNat < 2 ^ 48) (h : attrs.toNat < 2 ^ 30) :
    (descOutput (blockBase a ||| attrs) ||| (ipa &&& 0x3FFFFFFF)).toNat =
      a.toNat / 2 ^ 30 * 2 ^ 30 + ipa.toNat % 2 ^ 30 := by
  have hout := toNat_descOutput_block ha h
  have hoff := toNat_blockOffset ipa
  rw [Bits.toNat_or_low (k := 30) (by omega) (by omega), hout, hoff]

/-! ## 1. The returned `VTTBR_EL2` -/

theorem toNat_s2VmAddr (img : Image) (vm : Fin 2) :
    (img.s2VmAddr vm).toNat = img.s2Vm.toNat + 4096 * vm.val := by
  have himg := img.s2Vm_image
  have hvm := vm.isLt
  unfold Image.s2VmAddr
  rw [BitVec.toNat_add, BitVec.toNat_ofNat]
  omega

theorem s2VmAddr_inj {img : Image} {vm vm' : Fin 2}
    (h : img.s2VmAddr vm = img.s2VmAddr vm') : vm = vm' := by
  have h' := congrArg BitVec.toNat h
  rw [toNat_s2VmAddr, toNat_s2VmAddr] at h'
  omega

theorem toNat_vttbrBaddr (v : U64) : (vttbrBaddr v).toNat = v.toNat % 2 ^ 48 / 2 * 2 := by
  have hlow : (v &&& 0xFFFFFFFFFFFF).toNat = v.toNat % 2 ^ 48 :=
    Bits.toNat_and_mask v (k := 48) (by omega)
  have hclear := Bits.toNat_and_not_mask (v &&& 0xFFFFFFFFFFFF) 1
  rw [hlow] at hclear
  exact hclear

theorem toNat_buildVm_vttbr (img : Image) (vm : Fin 2) (ipa pa : U64) {vmid : U32}
    (hvmid : vmid.toNat < 2 ^ 16) (st : Stage2) :
    (stage2BuildVm img vm ipa pa vmid st).1.toNat =
      vmid.toNat * 2 ^ 48 + (img.s2VmAddr vm).toNat := by
  have himg := img.s2Vm_image
  have haddr := toNat_s2VmAddr img vm
  have hvm := vm.isLt
  have hsign : (vmid.signExtend 64).toNat = vmid.toNat := by
    have hmsb : vmid.msb = false := by
      rw [BitVec.msb_eq_decide]
      simp only [decide_eq_false_iff_not]
      omega
    rw [BitVec.signExtend_eq_setWidth_of_msb_false hmsb, BitVec.toNat_setWidth]
    omega
  have hshift : (vmid.signExtend 64 <<< 48).toNat = vmid.toNat * 2 ^ 48 := by
    rw [BitVec.toNat_shiftLeft, Nat.shiftLeft_eq, hsign]
    omega
  simp only [stage2BuildVm]
  rw [BitVec.or_comm, Bits.toNat_or_low (k := 48) (by omega) (by omega), hshift]

/-- The value of `stage2_build_vm` selects the table of the VM and carries the
VMID. -/
theorem buildVm_vttbr (img : Image) (vm : Fin 2) (ipa pa : U64) {vmid : U32}
    (hvmid : vmid.toNat < 2 ^ 16) (st : Stage2) :
    vttbrBaddr (stage2BuildVm img vm ipa pa vmid st).1 = img.s2VmAddr vm ∧
      vttbrVmid (stage2BuildVm img vm ipa pa vmid st).1 = vmid.toNat := by
  have hval := toNat_buildVm_vttbr img vm ipa pa hvmid st
  have himg := img.s2Vm_image
  have halign := img.s2Vm_aligned
  have haddr := toNat_s2VmAddr img vm
  have hvm := vm.isLt
  constructor
  · apply BitVec.eq_of_toNat_eq
    rw [toNat_vttbrBaddr, hval]
    omega
  · unfold vttbrVmid
    rw [Bits.toNat_shiftRight, hval]
    omega

theorem tableAt_s2VmAddr (img : Image) (st : Stage2) (vm : Fin 2) :
    tableAt img st (img.s2VmAddr vm) = some (st.s2Vm vm) := by
  unfold tableAt
  by_cases h0 : img.s2VmAddr vm = img.s2VmAddr 0
  · rw [if_pos h0, s2VmAddr_inj h0]
  · have h1 : vm = 1 := by
      have hne : vm ≠ 0 := fun h => h0 (by rw [h])
      omega
    rw [if_neg h0, h1, if_pos rfl]

theorem tableAt_s2L1 (img : Image) (st : Stage2) :
    tableAt img st (vttbrBaddr (stage2Vttbr img)) = some st.s2L1 := by
  have hbase : vttbrBaddr (stage2Vttbr img) = img.s2L1 := by
    have haligned := img.s2L1_aligned
    have himg := img.s2L1_image
    refine BitVec.eq_of_toNat_eq ?_
    rw [toNat_vttbrBaddr, stage2Vttbr]
    omega
  have hne : ∀ vm, img.s2L1 ≠ img.s2VmAddr vm := by
    intro vm he
    have haddr := toNat_s2VmAddr img vm
    have hdis := img.disjoint
    have hvm := vm.isLt
    rw [← he] at haddr
    omega
  rw [hbase, tableAt, if_neg (hne 0), if_neg (hne 1), if_pos rfl]

/-- The walk through the shared table. -/
theorem walk_shared (img : Image) (st : Stage2) {a : U64} (ha : a.toNat < 2 ^ 39) :
    stage2Walk img st (stage2Vttbr img) a = s2Lookup st.s2L1 a := by
  rw [stage2Walk, if_pos ha, tableAt_s2L1, Option.bind_some]

/-! ## 2. The translation of a built VM -/

/-- The table of `vm` maps the block of `ipa` to the block of `pa` and nothing
else. -/
def Built (st : Stage2) (vm : Fin 2) (ipa pa : U64) : Prop :=
  st.s2Vm vm = Function.update (fun _ => 0) (s2Index ipa) (blockBase pa ||| s2BlockNormal)

theorem built_buildVm (img : Image) (vm : Fin 2) (ipa pa : U64) (vmid : U32) (st : Stage2) :
    Built (stage2BuildVm img vm ipa pa vmid st).2 vm ipa pa := by
  simp [Built, stage2BuildVm]

/-- Only a rebuild of `vm` writes the table of `vm`. -/
theorem apply_s2Vm {img : Image} {op : Stage2Op} {vm : Fin 2} (h : ¬ op.Builds vm) (st : Stage2) :
    (op.apply img st).s2Vm vm = st.s2Vm vm := by
  cases op with
  | init => rfl
  | map1gb ipa => rfl
  | map1gbDevice ipa => rfl
  | buildVm vm' ipa pa vmid =>
    have hne : vm ≠ vm' := fun he => h he.symm
    simp [Stage2Op.apply, stage2BuildVm, Function.update_of_ne hne]

theorem runStage2_s2Vm {img : Image} {ops : List Stage2Op} {vm : Fin 2}
    (h : ∀ op ∈ ops, ¬ op.Builds vm) (st : Stage2) :
    (runStage2 img ops st).s2Vm vm = st.s2Vm vm := by
  induction ops generalizing st with
  | nil => rfl
  | cons op ops ih =>
    have htail := ih (fun o ho => h o (List.mem_cons_of_mem _ ho)) (op.apply img st)
    rw [apply_s2Vm (h op List.mem_cons_self)] at htail
    exact htail

theorem built_runStage2 {img : Image} {ops : List Stage2Op} {vm : Fin 2} {ipa pa : U64}
    {st : Stage2} (hb : Built st vm ipa pa) (h : ∀ op ∈ ops, ¬ op.Builds vm) :
    Built (runStage2 img ops st) vm ipa pa := by
  unfold Built
  rw [runStage2_s2Vm h]
  exact hb

/-- The walk through the table of a built VM. -/
theorem walk_of_built {img : Image} {st : Stage2} {vm : Fin 2} {ipa pa vttbr a : U64}
    (hb : Built st vm ipa pa) (hv : vttbrBaddr vttbr = img.s2VmAddr vm) (ha : a.toNat < 2 ^ 39) :
    stage2Walk img st vttbr a =
      if s2Index a = s2Index ipa then
        some (descOutput (blockBase pa ||| s2BlockNormal) ||| (a &&& 0x3FFFFFFF))
      else none := by
  unfold stage2Walk
  rw [if_pos ha, hv, tableAt_s2VmAddr, Option.bind_some]
  unfold Built at hb
  unfold s2Lookup
  rw [hb]
  by_cases hi : s2Index a = s2Index ipa
  · have hvalid := @blockDesc_valid pa s2BlockNormal (by decide) (by decide)
    simp only [hi, Function.update_self, hvalid, if_true]
  · simp [hi]

theorem walk_some_iff {img : Image} {st : Stage2} {vm : Fin 2} {ipa pa vttbr a h : U64}
    (hb : Built st vm ipa pa) (hv : vttbrBaddr vttbr = img.s2VmAddr vm) (hipa : ipa.toNat < 2 ^ 39)
    (hpa : pa.toNat < 2 ^ 40) :
    stage2Walk img st vttbr a = some h ↔
      a.toNat / 2 ^ 30 = ipa.toNat / 2 ^ 30 ∧
        h.toNat = pa.toNat / 2 ^ 30 * 2 ^ 30 + a.toNat % 2 ^ 30 := by
  by_cases ha : a.toNat < 2 ^ 39
  · have hval := @toNat_translated pa s2BlockNormal a (by omega) (by decide)
    rw [walk_of_built hb hv ha]
    by_cases hblk : a.toNat / 2 ^ 30 = ipa.toNat / 2 ^ 30
    · rw [if_pos ((s2Index_eq_iff ha hipa).mpr hblk), Option.some.injEq]
      refine ⟨fun he => ⟨hblk, by rw [← he, hval]⟩, fun he => ?_⟩
      apply BitVec.eq_of_toNat_eq
      rw [hval, he.2]
    · rw [if_neg fun he => hblk ((s2Index_eq_iff ha hipa).mp he)]
      exact ⟨fun he => (nomatch he), fun he => absurd he.1 hblk⟩
  · -- beyond 39 bits the walk faults, and no such address is in the block of `ipa`
    have hblk : a.toNat / 2 ^ 30 ≠ ipa.toNat / 2 ^ 30 := by omega
    unfold stage2Walk
    rw [if_neg ha]
    exact ⟨fun he => (nomatch he), fun he => absurd he.1 hblk⟩

/-! ## 3. Separation of tenants -/

/-- The host addresses that a guest with this `VTTBR_EL2` can reach. -/
def reachable (img : Image) (st : Stage2) (vttbr : U64) : Set U64 :=
  { h | ∃ a, stage2Walk img st vttbr a = some h }

/-- What a VM built with `(ipa, pa, vmid)` sees: its own table, its VMID, and
exactly the block of `ipa`, offset by offset in the block of `pa`. -/
structure SeesBlock (img : Image) (st : Stage2) (vttbr : U64) (vm : Fin 2) (ipa pa : U64)
    (vmid : U32) : Prop where
  table : vttbrBaddr vttbr = img.s2VmAddr vm
  aligned : (vttbrBaddr vttbr).toNat % 4096 = 0
  vmid_eq : vttbrVmid vttbr = vmid.toNat
  mapped : ∀ a : U64, a.toNat < 2 ^ 39 →
    ((stage2Walk img st vttbr a).isSome ↔ a.toNat / 2 ^ 30 = ipa.toNat / 2 ^ 30)
  offset : ∀ a h : U64, stage2Walk img st vttbr a = some h →
    h.toNat = pa.toNat / 2 ^ 30 * 2 ^ 30 + a.toNat % 2 ^ 30

theorem seesBlock_of_built {img : Image} {st : Stage2} {vm : Fin 2} {ipa pa vttbr : U64}
    {vmid : U32} (hb : Built st vm ipa pa) (hipa : ipa.toNat < 2 ^ 39) (hpa : pa.toNat < 2 ^ 40)
    (hv : vttbrBaddr vttbr = img.s2VmAddr vm) (hid : vttbrVmid vttbr = vmid.toNat) :
    SeesBlock img st vttbr vm ipa pa vmid where
  table := hv
  aligned := by
    have haddr := toNat_s2VmAddr img vm
    have halign := img.s2Vm_aligned
    rw [hv]
    omega
  vmid_eq := hid
  mapped := by
    intro a _
    constructor
    · intro h
      obtain ⟨x, hx⟩ := Option.isSome_iff_exists.mp h
      exact ((walk_some_iff hb hv hipa hpa).mp hx).1
    · intro h
      have hlt : pa.toNat / 2 ^ 30 * 2 ^ 30 + a.toNat % 2 ^ 30 < 2 ^ 64 := by omega
      refine Option.isSome_iff_exists.mpr
        ⟨BitVec.ofNat 64 (pa.toNat / 2 ^ 30 * 2 ^ 30 + a.toNat % 2 ^ 30), ?_⟩
      refine (walk_some_iff hb hv hipa hpa).mpr ⟨h, ?_⟩
      rw [BitVec.toNat_ofNat, Nat.mod_eq_of_lt hlt]
  offset := fun _ _ h => ((walk_some_iff hb hv hipa hpa).mp h).2

/-- Every reachable host address is in the block of `pa`. -/
theorem SeesBlock.block {img : Image} {st : Stage2} {vttbr : U64} {vm : Fin 2} {ipa pa : U64}
    {vmid : U32} (hs : SeesBlock img st vttbr vm ipa pa vmid) {h : U64}
    (hr : h ∈ reachable img st vttbr) : h.toNat / 2 ^ 30 = pa.toNat / 2 ^ 30 := by
  obtain ⟨a, ha⟩ := hr
  have := hs.offset a h ha
  omega

/-- Tenant separation over whole runs. A VM built with `(ipa, pa, vmid)` keeps
its table, its VMID and exactly the translation of the block of `ipa` to the
block of `pa`, whatever sequence of table-building calls follows, as long as it
is not rebuilt itself. If the other VM is built with another host block, the
two never reach a common host address, at any later time; and with the host
blocks `0x80000000` and `0xC0000000` neither reaches the hypervisor's block. -/
theorem tenant_separation (img : Image) (st : Stage2) (vm : Fin 2) (ipa pa : U64) (vmid : U32)
    (hipa : ipa.toNat < 2 ^ 39) (hpa : pa.toNat < 2 ^ 40) (hvmid : vmid.toNat < 2 ^ 16)
    (ops : List Stage2Op) (hops : ∀ op ∈ ops, ¬ op.Builds vm) :
    let built := stage2BuildVm img vm ipa pa vmid st
    let st1 := runStage2 img ops built.2
    SeesBlock img st1 built.1 vm ipa pa vmid ∧
    (pa.toNat / 2 ^ 30 = 2 ∨ pa.toNat / 2 ^ 30 = 3 →
      ∀ h ∈ reachable img st1 built.1, ¬ (0x40000000 ≤ h.toNat ∧ h.toNat < 0x80000000)) ∧
    ∀ (vm' : Fin 2) (ipa' pa' : U64) (vmid' : U32) (ops' : List Stage2Op),
      vm' ≠ vm → ipa'.toNat < 2 ^ 39 → pa'.toNat < 2 ^ 40 → vmid'.toNat < 2 ^ 16 →
      (∀ op ∈ ops', ¬ op.Builds vm ∧ ¬ op.Builds vm') →
      let built' := stage2BuildVm img vm' ipa' pa' vmid' st1
      let st2 := runStage2 img ops' built'.2
      SeesBlock img st2 built.1 vm ipa pa vmid ∧ SeesBlock img st2 built'.1 vm' ipa' pa' vmid' ∧
      (pa.toNat / 2 ^ 30 ≠ pa'.toNat / 2 ^ 30 →
        Disjoint (reachable img st2 built.1) (reachable img st2 built'.1)) := by
  intro built st1
  obtain ⟨hbase, hid⟩ := buildVm_vttbr img vm ipa pa hvmid st
  have hbuilt1 : Built st1 vm ipa pa := built_runStage2 (built_buildVm img vm ipa pa vmid st) hops
  have hsees1 : SeesBlock img st1 built.1 vm ipa pa vmid :=
    seesBlock_of_built hbuilt1 hipa hpa hbase hid
  refine ⟨hsees1, ?_, ?_⟩
  · intro hblk h hr hin
    have := hsees1.block hr
    omega
  · intro vm' ipa' pa' vmid' ops' hne hipa' hpa' hvmid' hops' built' st2
    obtain ⟨hbase', hid'⟩ := buildVm_vttbr img vm' ipa' pa' hvmid' st1
    -- building the other VM is itself a call that does not rebuild `vm`
    have hstep : ∀ op ∈ [Stage2Op.buildVm vm' ipa' pa' vmid'], ¬ op.Builds vm := by
      simpa [Stage2Op.Builds] using hne
    have hother : Built built'.2 vm ipa pa := built_runStage2 hbuilt1 hstep
    have hsees2 : SeesBlock img st2 built.1 vm ipa pa vmid :=
      seesBlock_of_built (built_runStage2 hother fun op ho => (hops' op ho).1) hipa hpa hbase hid
    have hsees2' : SeesBlock img st2 built'.1 vm' ipa' pa' vmid' :=
      seesBlock_of_built (built_runStage2 (built_buildVm img vm' ipa' pa' vmid' st1)
        fun op ho => (hops' op ho).2) hipa' hpa' hbase' hid'
    refine ⟨hsees2, hsees2', fun hpne => ?_⟩
    rw [Set.disjoint_left]
    intro h hr hr'
    exact hpne ((hsees2.block hr).symm.trans (hsees2'.block hr'))

/-- An image as the linker script lays it out, above `0x70000000`. -/
def exampleImage : Image where
  s2L1 := 0x70010000
  s2Vm := 0x70012000
  s2L1_aligned := by decide
  s2Vm_aligned := by decide
  s2L1_image := by decide
  s2Vm_image := by decide
  disjoint := by decide

/-- The two tenants of `mtenant_demo`. -/
theorem tenant_separation_mtenant :
    let st : Stage2 := stage2Init { s2L1 := fun _ => 0, s2Vm := fun _ _ => 0, vtcr := 0 }
    let vm0 := stage2BuildVm exampleImage 0 0x40000000 0x80000000 1 st
    let vm1 := stage2BuildVm exampleImage 1 0x40000000 0xC0000000 2 vm0.2
    SeesBlock exampleImage vm1.2 vm0.1 0 0x40000000 0x80000000 1 ∧
      Disjoint (reachable exampleImage vm1.2 vm0.1) (reachable exampleImage vm1.2 vm1.1) := by
  intro st vm0 vm1
  have h := tenant_separation exampleImage st 0 0x40000000 0x80000000 1 (by decide) (by decide)
    (by decide) [] (by simp)
  obtain ⟨hsees, _, hdisj⟩ :=
    h.2.2 1 0x40000000 0xC0000000 2 [] (by decide) (by decide) (by decide) (by decide) (by simp)
  exact ⟨hsees, hdisj (by decide)⟩

end FermiHV
