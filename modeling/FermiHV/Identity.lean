import FermiHV.Trapped

/-!
# The shared table as an identity map

`stage2_init` and the fault-ins are meant to keep IPA equal to PA. The level-1
index of `stage2_map_1gb` is masked to nine bits and its output address is not,
so this depends on the address that a call site passes: `HPFAR_EL2` reports 48
bits of IPA, the table covers 39, and of the seven call sites only
`fermios_boot` compares.

* `MapCall` is one call that a run loop, `el2_exception_dispatch` or a boot
  function makes on the shared table.
* `serves_of_mem`: what a pass of a run loop maps is what its call site answers.
* `identity_iff`: the table stays an identity map, and a call leaves the other
  blocks alone, exactly when every block that is mapped lies below `2 ^ 39`; for
  sequences of calls and for the runs of the loops.
-/

namespace FermiHV

open RunLoop (Flow Loop)

/-! ## 1. Calls that map -/

/-- A stage-2 abort as the hardware reports it: `HPFAR_EL2` holds bits 47:12 of
the IPA in its bits 39:4. -/
structure AbortReport where
  ec : U64
  hpfar : U64
  far : U64
  hpfar_lt : hpfar.toNat < 2 ^ 40

/-- The block that `el2_exception_dispatch` faults in. -/
def el2DispatchBlock (hpfar : U64) : U64 := blockBase ((hpfar >>> 4) <<< 12)

inductive MapSite
  | runVcpus
  | vgicDemo
  | realGuestDemo
  | linuxBoot
  | fermiosBoot
  | fermiosVgicBoot
  | el2ExceptionDispatch

/-- The block that a call site maps on an abort. -/
def MapSite.block (site : MapSite) (r : AbortReport) : Option U64 :=
  let ipa := faultIpa r.hpfar r.far
  match site with
  | .runVcpus => (runVcpusAbort r.ec ipa).block
  | .vgicDemo => (vgicDemoAbort ipa).block
  | .realGuestDemo => (realGuestAbort r.ec ipa).block
  | .linuxBoot => (linuxBootAbort ipa).block
  | .fermiosBoot => (fermiosBootAbort ipa).block
  | .fermiosVgicBoot => (fermiosVgicBootAbort ipa).block
  | .el2ExceptionDispatch => some (el2DispatchBlock r.hpfar)

/-- A call on the shared table: `stage2_map_1gb_device(0)` of a boot function,
or the answer of a site to an abort. -/
inductive MapCall
  | device
  | abort (site : MapSite) (r : AbortReport)

/-- The block that a call maps. -/
def MapCall.block : MapCall → Option U64
  | .device => some 0
  | .abort site r => site.block r

def MapCall.apply (c : MapCall) (st : Stage2) : Stage2 :=
  match c with
  | .device => stage2Map1gbDevice 0 st
  | .abort site r =>
    match site.block r with
    | some base => stage2Map1gb base st
    | none => st

def runMaps (calls : List MapCall) (st : Stage2) : Stage2 := calls.foldl (fun st c => c.apply st) st

/-! ## 2. Identity -/

/-- Every valid entry `i` maps to `i * 2^30`, and every translated address to
itself. -/
structure IdentityMap (img : Image) (st : Stage2) : Prop where
  entry : ∀ i : Fin 512, ¬ InvalidDesc (st.s2L1 i) → (descOutput (st.s2L1 i)).toNat = i.val * 2 ^ 30
  walk : ∀ a h, stage2Walk img st (stage2Vttbr img) a = some h → h = a

/-- The call does not change the translation of an address outside the block it
maps. -/
def MapCall.KeepsOthers (img : Image) (c : MapCall) (st : Stage2) : Prop :=
  ∀ a : U64, (∀ base, c.block = some base → a.toNat / 2 ^ 30 ≠ base.toNat / 2 ^ 30) →
    stage2Walk img (c.apply st) (stage2Vttbr img) a = stage2Walk img st (stage2Vttbr img) a

theorem walk_of_entries {img : Image} {st : Stage2}
    (h : ∀ i : Fin 512, ¬ InvalidDesc (st.s2L1 i) →
      (descOutput (st.s2L1 i)).toNat = i.val * 2 ^ 30) {a b : U64}
    (hw : stage2Walk img st (stage2Vttbr img) a = some b) : b = a := by
  have ha : a.toNat < 2 ^ 39 := by
    by_contra hge
    rw [stage2Walk, if_neg hge] at hw
    cases hw
  rw [walk_shared img st ha] at hw
  have hvalid : ¬ InvalidDesc (st.s2L1 (s2Index a)) := by
    intro hinv
    rw [s2Lookup_of_invalid hinv] at hw
    cases hw
  have hout := h (s2Index a) hvalid
  rw [s2Index_val] at hout
  have hoff := toNat_blockOffset a
  simp only [s2Lookup] at hw
  split_ifs at hw
  rw [← Option.some.inj hw]
  refine BitVec.eq_of_toNat_eq ?_
  rw [Bits.toNat_or_low (k := 30) (by omega) (by omega), hout, hoff]
  omega

theorem identityMap_of_entries {img : Image} {st : Stage2}
    (h : ∀ i : Fin 512, ¬ InvalidDesc (st.s2L1 i) →
      (descOutput (st.s2L1 i)).toNat = i.val * 2 ^ 30) : IdentityMap img st :=
  ⟨h, fun _ _ => walk_of_entries h⟩

/-! ## 3. One call -/

theorem toNat_faultIpa_lt {hpfar far : U64} (h : hpfar.toNat < 2 ^ 40) :
    (faultIpa hpfar far).toNat < 2 ^ 48 := by
  have hpage : (((hpfar >>> 4) <<< 12 : U64)).toNat = hpfar.toNat / 2 ^ 4 * 2 ^ 12 := by
    rw [BitVec.toNat_shiftLeft, Bits.toNat_shiftRight, Nat.shiftLeft_eq]
    omega
  have hoff : (far &&& 0xFFF).toNat = far.toNat % 2 ^ 12 :=
    Bits.toNat_and_mask far (k := 12) (by omega)
  rw [faultIpa, Bits.toNat_or_low (k := 12) (by omega) (by omega), hpage, hoff]
  omega

theorem block_uartOrFault {ec ipa base : U64} (h : (uartOrFault ec ipa).block = some base) :
    base = blockBase ipa := by
  unfold uartOrFault at h
  split_ifs at h
  · cases h
  · exact (Option.some.inj h).symm

/-- Every site maps the block of an address of at most 48 bits. -/
theorem MapSite.block_lt {site : MapSite} {r : AbortReport} {base : U64}
    (h : site.block r = some base) : base.toNat < 2 ^ 48 := by
  have hipa : (faultIpa r.hpfar r.far).toNat < 2 ^ 48 := toNat_faultIpa_lt r.hpfar_lt
  have hbase : ∀ a : U64, a.toNat < 2 ^ 48 → base = blockBase a → base.toNat < 2 ^ 48 := by
    rintro a ha rfl
    rw [toNat_blockBase]
    omega
  cases site with
  | runVcpus | realGuestDemo => exact hbase _ hipa (block_uartOrFault h)
  | linuxBoot => exact hbase _ hipa (Option.some.inj h).symm
  | vgicDemo =>
    simp only [MapSite.block, vgicDemoAbort] at h
    split_ifs at h
    · cases h
    · exact hbase _ hipa (Option.some.inj h).symm
  | fermiosBoot =>
    simp only [MapSite.block, fermiosBootAbort] at h
    split_ifs at h
    · exact hbase _ hipa (Option.some.inj h).symm
    · cases h
  | fermiosVgicBoot =>
    simp only [MapSite.block, fermiosVgicBootAbort, deviceOr] at h
    split_ifs at h
    · cases h
    · cases h
    · exact hbase _ hipa (Option.some.inj h).symm
  | el2ExceptionDispatch =>
    have hpage : (((r.hpfar >>> 4) <<< 12 : U64)).toNat < 2 ^ 48 := by
      have hlt := r.hpfar_lt
      rw [BitVec.toNat_shiftLeft, Bits.toNat_shiftRight, Nat.shiftLeft_eq]
      omega
    exact hbase _ hpage (Option.some.inj h).symm

theorem MapCall.block_lt {c : MapCall} {base : U64} (h : c.block = some base) :
    base.toNat < 2 ^ 48 := by
  cases c with
  | device =>
    rw [← Option.some.inj h]
    decide
  | abort site r => exact MapSite.block_lt h

/-- A call that maps writes one block descriptor. -/
theorem MapCall.apply_of_block {c : MapCall} {base : U64} (h : c.block = some base) (st : Stage2) :
    ∃ attrs : U64, attrs.toNat < 2 ^ 30 ∧ attrs.toNat % 4 = 1 ∧
      (c.apply st).s2L1 =
        Function.update st.s2L1 (s2Index base) (blockBase base ||| attrs) := by
  cases c with
  | device =>
    rw [← Option.some.inj h]
    exact ⟨s2BlockDevice, by decide, by decide, rfl⟩
  | abort site r =>
    have hsite : site.block r = some base := h
    refine ⟨s2BlockNormal, by decide, by decide, ?_⟩
    simp only [MapCall.apply, hsite]
    rfl

theorem MapCall.apply_of_no_block {c : MapCall} (h : c.block = none) (st : Stage2) :
    c.apply st = st := by
  cases c with
  | device => cases h
  | abort site r =>
    have hsite : site.block r = none := h
    simp only [MapCall.apply, hsite]

theorem not_invalidDesc_of_attrs {a attrs : U64} (h : attrs.toNat < 2 ^ 30)
    (h1 : attrs.toNat % 4 = 1) : ¬ InvalidDesc (blockBase a ||| attrs) := by
  rw [invalidDesc_iff, toNat_blockDesc a attrs h]
  omega

/-- Mapping a block below `2 ^ 39` keeps the identity. -/
theorem identityMap_apply {img : Image} {st : Stage2} {c : MapCall} (h : IdentityMap img st)
    (hc : ∀ base, c.block = some base → base.toNat < 2 ^ 39) : IdentityMap img (c.apply st) := by
  cases hb : c.block with
  | none =>
    rw [c.apply_of_no_block hb]
    exact h
  | some base =>
    obtain ⟨attrs, hattr, -, happ⟩ := c.apply_of_block hb st
    have hlt := hc base hb
    refine identityMap_of_entries fun i hvalid => ?_
    rw [happ] at hvalid ⊢
    by_cases hi : i = s2Index base
    · rw [hi, Function.update_self, toNat_descOutput_block (by omega) hattr, s2Index_val]
      omega
    · rw [Function.update_of_ne hi] at hvalid ⊢
      exact h.entry i hvalid

/-- Conversely, an identity map after the call means that the block was below
`2 ^ 39`. -/
theorem lt_of_identityMap_apply {img : Image} {st : Stage2} {c : MapCall}
    (h : IdentityMap img (c.apply st)) {base : U64} (hb : c.block = some base) :
    base.toNat < 2 ^ 39 := by
  obtain ⟨attrs, hattr, hone, happ⟩ := c.apply_of_block hb st
  have h48 := c.block_lt hb
  have hentry := h.entry (s2Index base)
  rw [happ, Function.update_self, toNat_descOutput_block h48 hattr, s2Index_val] at hentry
  have heq := hentry (not_invalidDesc_of_attrs hattr hone)
  omega

theorem keepsOthers_of_lt {img : Image} {st : Stage2} {c : MapCall}
    (hc : ∀ base, c.block = some base → base.toNat < 2 ^ 39) : c.KeepsOthers img st := by
  intro a ha
  cases hb : c.block with
  | none => rw [c.apply_of_no_block hb]
  | some base =>
    obtain ⟨attrs, -, -, happ⟩ := c.apply_of_block hb st
    by_cases hlt : a.toNat < 2 ^ 39
    · have hne : s2Index a ≠ s2Index base := fun he =>
        ha base hb ((s2Index_eq_iff hlt (hc base hb)).mp he)
      rw [walk_shared _ _ hlt, walk_shared _ _ hlt, happ, s2Lookup, s2Lookup,
        Function.update_of_ne hne]
    · rw [stage2Walk, stage2Walk, if_neg hlt, if_neg hlt]

/-! ## 4. Sequences of calls -/

theorem identityMap_stage2Init (img : Image) (st : Stage2) : IdentityMap img (stage2Init st) := by
  refine identityMap_of_entries fun i hvalid => ?_
  by_cases hi : i = s2Index 0x40000000
  · subst hi
    simp only [stage2Init, stage2Map1gb, Function.update_self]
    decide
  · refine absurd ?_ hvalid
    simp only [stage2Init, stage2Map1gb, Function.update_of_ne hi]
    rfl

theorem runMaps_append (pre : List MapCall) (c : MapCall) (st : Stage2) :
    runMaps (pre ++ [c]) st = c.apply (runMaps pre st) := by
  simp [runMaps]

theorem identityMap_runMaps {img : Image} {st : Stage2} {calls : List MapCall}
    (h : IdentityMap img st)
    (hc : ∀ c ∈ calls, ∀ base, c.block = some base → base.toNat < 2 ^ 39) :
    IdentityMap img (runMaps calls st) := by
  induction calls using List.reverseRecOn with
  | nil => exact h
  | append_singleton pre c ih =>
    rw [runMaps_append]
    refine identityMap_apply (ih fun d hd => hc d (List.mem_append_left _ hd)) ?_
    exact hc c (List.mem_append_right _ (List.mem_singleton.mpr rfl))

theorem runMaps_iff (img : Image) (st : Stage2) (calls : List MapCall) :
    (IdentityMap img (stage2Init st) ∧
      ∀ pre c post, calls = pre ++ c :: post →
        IdentityMap img (runMaps (pre ++ [c]) (stage2Init st)) ∧
        c.KeepsOthers img (runMaps pre (stage2Init st))) ↔
    ∀ c ∈ calls, ∀ base, c.block = some base → base.toNat < 2 ^ 39 := by
  constructor
  · rintro ⟨-, hall⟩ c hmem base hb
    obtain ⟨pre, post, hsplit⟩ := List.append_of_mem hmem
    have hid := (hall pre c post hsplit).1
    rw [runMaps_append] at hid
    exact lt_of_identityMap_apply hid hb
  · intro hc
    refine ⟨identityMap_stage2Init img st, fun pre c post hsplit => ⟨?_, ?_⟩⟩
    · refine identityMap_runMaps (identityMap_stage2Init img st) fun d hd => hc d ?_
      rw [hsplit]
      rcases List.mem_append.mp hd with hd | hd
      · exact List.mem_append_left _ hd
      · rw [List.mem_singleton.mp hd]
        exact List.mem_append_right _ List.mem_cons_self
    · refine keepsOthers_of_lt (hc c ?_)
      rw [hsplit]
      exact List.mem_append_right _ List.mem_cons_self

/-! ## 5. Runs of the loops -/

/-- The abort report of an exit. -/
def Event.report (e : Event) (h : e.ctx.exitHpfar.toNat < 2 ^ 40) : AbortReport where
  ec := e.ctx.exitEc
  hpfar := e.ctx.exitHpfar
  far := e.ctx.exitFar
  hpfar_lt := h

/-- The blocks that a loop maps are those of its call site. -/
def MapSite.Serves (site : MapSite) (L : FaultingLoop) : Prop :=
  ∀ e (h : e.ctx.exitHpfar.toNat < 2 ^ 40) s,
    L.fault e s = none ∨ L.fault e s = site.block (e.report h)

/-- The six loops with their call sites. -/
def faultSites (n budget nticks : Nat) : List (MapSite × FaultingLoop) :=
  [(.runVcpus, runVcpusFaults n budget), (.vgicDemo, vgicDemoFaults nticks),
    (.realGuestDemo, realGuestFaults), (.linuxBoot, linuxBootFaults),
    (.fermiosBoot, fermiosBootFaults), (.fermiosVgicBoot, fermiosVgicBootFaults)]

theorem faultOf_cases (kind : ExitKind) (a : AbortAction) :
    faultOf kind a = none ∨ faultOf kind a = a.block := by
  unfold faultOf
  split_ifs
  · exact .inr rfl
  · exact .inl rfl

theorem faultOf_unless_halted (halted : Bool) (kind : ExitKind) (a : AbortAction) :
    (if halted then none else faultOf kind a) = none ∨
      (if halted then none else faultOf kind a) = a.block := by
  cases halted with
  | true => exact .inl rfl
  | false => exact faultOf_cases kind a

theorem serves_of_mem {n budget nticks : Nat} :
    ∀ p ∈ faultSites n budget nticks, p.1.Serves p.2 := by
  simp only [faultSites, List.forall_mem_cons, List.not_mem_nil, false_imp_iff, implies_true,
    and_true]
  refine ⟨?_, ?_, ?_, ?_, ?_, ?_⟩ <;> intro e h s
  · exact faultOf_unless_halted _ _ _
  · exact faultOf_cases _ _
  · exact faultOf_cases _ _
  · exact faultOf_unless_halted _ _ _
  · exact faultOf_unless_halted _ _ _
  · exact faultOf_unless_halted _ _ _

/-- After every pass of the run the table is an identity map, and no pass changes
the translation of an address outside the block it maps. -/
def FaultingLoop.KeepsIdentity (L : FaultingLoop) (img : Image) (s : L.S) (es : List Event) :
    Prop :=
  ∀ p ∈ L.loop.iters s es,
    IdentityMap img (L.s2 (L.loop.body p.2 p.1).state) ∧
    ∀ a : U64, (∀ base, L.fault p.2 p.1 = some base → a.toNat / 2 ^ 30 ≠ base.toNat / 2 ^ 30) →
      stage2Walk img (L.s2 (L.loop.body p.2 p.1).state) (stage2Vttbr img) a =
        stage2Walk img (L.s2 p.1) (stage2Vttbr img) a

/-- A pass that maps a block does it by a call of its site. -/
theorem body_s2_of_fault {site : MapSite} {L : FaultingLoop} (hs : site.Serves L) {e : Event}
    (he : e.ctx.exitHpfar.toNat < 2 ^ 40) {s : L.S} {base : U64} (hf : L.fault e s = some base) :
    (MapCall.abort site (e.report he)).block = some base ∧
    L.s2 (L.loop.body e s).state = (MapCall.abort site (e.report he)).apply (L.s2 s) := by
  have hsite : site.block (e.report he) = some base := by
    rcases hs e he s with hnone | hsome
    · cases hnone.symm.trans hf
    · exact hsome.symm.trans hf
  refine ⟨hsite, ?_⟩
  rw [L.body_s2, hf]
  simp only [MapCall.apply, hsite]

theorem body_s2_of_no_fault {L : FaultingLoop} {e : Event} {s : L.S} (hf : L.fault e s = none) :
    L.s2 (L.loop.body e s).state = L.s2 s := by
  rw [L.body_s2, hf]

theorem identityMap_body {img : Image} {site : MapSite} {L : FaultingLoop} (hs : site.Serves L)
    {e : Event} (he : e.ctx.exitHpfar.toNat < 2 ^ 40) {s : L.S} (h : IdentityMap img (L.s2 s))
    (hlt : ∀ base, L.fault e s = some base → base.toNat < 2 ^ 39) :
    IdentityMap img (L.s2 (L.loop.body e s).state) := by
  cases hf : L.fault e s with
  | none =>
    rw [body_s2_of_no_fault hf]
    exact h
  | some base =>
    obtain ⟨hb, happ⟩ := body_s2_of_fault hs he hf
    rw [happ]
    refine identityMap_apply h fun b hb' => ?_
    rw [← Option.some.inj (hb.symm.trans hb')]
    exact hlt base hf

theorem keepsIdentity_iff {img : Image} {site : MapSite} {L : FaultingLoop} (hs : site.Serves L)
    {s : L.S} {es : List Event} (h0 : IdentityMap img (L.s2 s))
    (hes : ∀ e ∈ es, e.ctx.exitHpfar.toNat < 2 ^ 40) :
    L.KeepsIdentity img s es ↔
    ∀ p ∈ L.loop.iters s es, ∀ base, L.fault p.2 p.1 = some base → base.toNat < 2 ^ 39 := by
  constructor
  · intro hkeep p hp base hf
    obtain ⟨hb, happ⟩ := body_s2_of_fault hs (hes p.2 (Loop.event_mem_of_iters hp)) hf
    have hid := (hkeep p hp).1
    rw [happ] at hid
    exact lt_of_identityMap_apply hid hb
  · intro hlt p hp
    have he := hes p.2 (Loop.event_mem_of_iters hp)
    have hid : IdentityMap img (L.s2 p.1) := by
      refine Loop.iters_of_invariant (P := fun t => IdentityMap img (L.s2 t))
        (C := fun e t => e.ctx.exitHpfar.toNat < 2 ^ 40 ∧
          ∀ base, L.fault e t = some base → base.toNat < 2 ^ 39) ?_ h0
        (fun q hq => ⟨hes q.2 (Loop.event_mem_of_iters hq), hlt q hq⟩) p hp
      rintro t e t' ht ⟨he, hbase⟩ hbody
      have hnext := identityMap_body hs he ht hbase
      rw [hbody] at hnext
      exact hnext
    refine ⟨identityMap_body hs he hid (hlt p hp), fun a ha => ?_⟩
    cases hf : L.fault p.2 p.1 with
    | none => rw [body_s2_of_no_fault hf]
    | some base =>
      obtain ⟨hb, happ⟩ := body_s2_of_fault hs he hf
      rw [happ]
      have hblock : ∀ b, (MapCall.abort site (p.2.report he)).block = some b → b = base :=
        fun b hb' => Option.some.inj (hb'.symm.trans hb)
      refine keepsOthers_of_lt (fun b hb' => ?_) a fun b hb' => ?_
      · rw [hblock b hb']
        exact hlt p hp base hf
      · rw [hblock b hb']
        exact ha base hf

/-! ## 6. The shared table from `stage2_init` on -/

/-- From `stage2_init` on, the shared table is an identity map after every call,
and no call changes the translation of another block, if and only if every block
that is mapped lies below `2 ^ 39`. A run of a loop that starts after such calls
is a sequence of them: it keeps the identity if and only if every block that it
faults in lies below `2 ^ 39`. -/
theorem identity_iff (img : Image) (st : Stage2) (calls : List MapCall) :
    ((IdentityMap img (stage2Init st) ∧
      ∀ pre c post, calls = pre ++ c :: post →
        IdentityMap img (runMaps (pre ++ [c]) (stage2Init st)) ∧
        c.KeepsOthers img (runMaps pre (stage2Init st))) ↔
    ∀ c ∈ calls, ∀ base, c.block = some base → base.toNat < 2 ^ 39) ∧
    ∀ n budget nticks, ∀ p ∈ faultSites n budget nticks, ∀ (s : p.2.S) (es : List Event),
      p.2.s2 s = runMaps calls (stage2Init st) →
      (∀ c ∈ calls, ∀ base, c.block = some base → base.toNat < 2 ^ 39) →
      (∀ e ∈ es, e.ctx.exitHpfar.toNat < 2 ^ 40) →
      (p.2.KeepsIdentity img s es ↔
        ∀ q ∈ p.2.loop.iters s es, ∀ base, p.2.fault q.2 q.1 = some base →
          base.toNat < 2 ^ 39) := by
  refine ⟨runMaps_iff img st calls, fun n budget nticks p hp s es hs hcalls hes => ?_⟩
  refine keepsIdentity_iff (serves_of_mem p hp) ?_ hes
  rw [hs]
  exact identityMap_runMaps (identityMap_stage2Init img st) hcalls

/-- A guest of `linux_boot` touches its RAM at `0x80000000`. -/
def highRam : Event := abortExit 0x90000000 0x80000000

/-- The pass maps the third block, and the map stays the identity. -/
theorem identity_iff_high_ram :
    linuxBootFaults.fault highRam startHv = some 0x80000000 ∧
    linuxBootFaults.KeepsIdentity exampleImage startHv [highRam] := by
  have hfault : linuxBootFaults.fault highRam startHv = some 0x80000000 := by decide
  have hiff := (identity_iff exampleImage
    { s2L1 := fun _ => 0, s2Vm := fun _ _ => 0, vtcr := 0 } []).2 1 1 1
    (.linuxBoot, linuxBootFaults) (by simp [faultSites]) startHv [highRam] rfl (by simp)
  refine ⟨hfault, (hiff ?_).mpr ?_⟩
  · rw [List.forall_mem_singleton]
    decide
  · intro q hq base hbase
    have hq' : q = (startHv, highRam) := List.mem_singleton.mp hq
    subst hq'
    rw [← Option.some.inj (hfault.symm.trans hbase)]
    decide

/-- A guest of `linux_boot` touches IPA `2^39 + 2^30`. -/
def highAbort : MapCall := .abort .linuxBoot
  { ec := ecDabtLow, hpfar := 0x80400000, far := 0, hpfar_lt := by decide }

/-- The fault-in lands in entry 1 with an output address above `2^39`: the guest's
RAM at `0x40000000` is no longer where it was. -/
theorem high_abort_moves_ram :
    let st := stage2Init { s2L1 := fun _ => 0, s2Vm := fun _ _ => 0, vtcr := 0 }
    ¬ IdentityMap exampleImage (runMaps [highAbort] st) ∧
    ¬ highAbort.KeepsOthers exampleImage st ∧
    stage2Walk exampleImage st (stage2Vttbr exampleImage) 0x40000000 = some 0x40000000 ∧
    stage2Walk exampleImage (runMaps [highAbort] st) (stage2Vttbr exampleImage) 0x40000000 =
      some 0x8040000000 := by
  intro st
  have hblock : highAbort.block = some 0x8040000000 := by decide
  have hbefore : stage2Walk exampleImage st (stage2Vttbr exampleImage) 0x40000000 =
      some 0x40000000 := by decide +kernel
  have hafter : stage2Walk exampleImage (runMaps [highAbort] st) (stage2Vttbr exampleImage)
      0x40000000 = some 0x8040000000 := by decide +kernel
  refine ⟨fun hid => ?_, fun hkeep => ?_, hbefore, hafter⟩
  · exact absurd (hid.walk _ _ hafter) (by decide)
  · have hsame := hkeep 0x40000000 fun base hb => by
      rw [hblock] at hb
      rw [← Option.some.inj hb]
      decide
    exact absurd ((hafter.symm.trans hsame).trans hbefore) (by decide)

end FermiHV
