import FermiHV.AccessSize
import FermiHV.TenantRam
import FermiHV.Virtio.TenantDemos
import FermiHV.Lib.A64

/-!
# The virtio guests (`guest.S`)

`mtenant_virtio_demo` and `mtenant_vblk_demo` copy a small driver into the RAM of each
tenant: it builds a queue in its RAM, programs the device through the trapped registers
and notifies it. The drivers are run here on the machine of `Lib.A64`, with the tenant's
RAM behind its stage-2 table for a memory; an access that the table does not map leaves
the guest with the syndrome that the architecture gives it.

`drive` is a demo with its guests: each pass runs the guest from where it was to its
next exit and hands that exit to the loop.
-/

namespace FermiHV

open A64 (Instr Core Platform Program Reg Stop Reaches Stops)
open ByteMem (Mem load store)
open RunLoop (Flow Loop)

/-! ## 1. Running a guest -/

/-- The RAM of a guest during a run: its bytes, and those stored since the guest was
entered, in order. -/
structure GuestMem where
  mem : Mem 64
  stores : List (U64 × U8)

/-- An access of at most 8 bytes, the first and the last of them in RAM. -/
def InRamN (a : U64) (n : Nat) : Prop :=
  n ≤ 8 ∧ InRam a ∧ InRam (a + BitVec.ofNat 64 (n - 1))

instance (a : U64) (n : Nat) : Decidable (InRamN a n) := inferInstanceAs (Decidable (_ ∧ _ ∧ _))

/-- The bytes of a store, lowest address first. -/
def storeBytes (a : U64) (n v : Nat) : List (U64 × U8) :=
  (List.range n).map fun i => (a + BitVec.ofNat 64 i, BitVec.ofNat 8 (v / 256 ^ i))

/-- A guest with nothing but its RAM: other accesses fault, and it takes no interrupt. -/
def ramPlatform : Platform Empty GuestMem where
  load := fun m a n => if InRamN a n then some (load m.mem a n) else none
  store := fun m a n v =>
    if InRamN a n then
      some { mem := store m.mem a n v, stores := m.stores ++ storeBytes a n v }
    else none
  mrs := fun r _ => r.elim
  msr := fun r _ _ => r.elim
  irq := fun _ => false

/-- The registers that a guest is entered with. -/
def GuestCtx.core (g : GuestCtx) : Core where
  x := g.x
  sp := g.spEl1
  pc := g.pc
  pstate := g.pstate
  vbar := g.vbarEl1
  elr := g.elrEl1
  spsr := g.spsrEl1

/-- SAS of an access. -/
def sasOf (size : Nat) : Fin 4 :=
  if size = 1 then 0 else if size = 2 then 1 else if size = 4 then 2 else 3

/-- SRT of an access; the zero register is 31. -/
def srtOf (t : Option Reg) : Fin 32 := t.elim 31 Fin.castSucc

/-- The exit syndrome and the address registers. HVC returns after the instruction, an
abort to it. -/
def GuestCtx.exit (g : GuestCtx) : Stop → GuestCtx
  | .hvc => { g with pc := g.pc + 4, exitEsr := 0x5A000000 }
  | .loadAbort t size a =>
    { g with
      exitEsr := AccessForm.esr ⟨sasOf size, srtOf (some t)⟩ false
      exitFar := a
      exitHpfar := (a >>> 12) <<< 4 }
  | .storeAbort t size a =>
    { g with
      exitEsr := AccessForm.esr ⟨sasOf size, srtOf t⟩ true
      exitFar := a
      exitHpfar := (a >>> 12) <<< 4 }
  | .undefined => { g with exitEsr := 0x02000000 }

/-- The context that a guest leaves when it stops. -/
def GuestCtx.left (g : GuestCtx) (s : Core) (k : Stop) : GuestCtx :=
  { g with
    x := s.x
    spEl1 := s.sp
    pc := s.pc
    pstate := s.pstate
    vbarEl1 := s.vbar
    elrEl1 := s.elr
    spsrEl1 := s.spsr
    exitReason := 8 }.exit k

namespace TenantDemo

/-- The RAM that tenant `c` sees. -/
def view (img : Image) (s : TenantDemo) (c : Fin 2) : Mem 64 := fun a =>
  ((s.tables img).host c a).elim 0 s.host.mem

/-- The pass of a tenant that runs the program. -/
def guestEvent (p : Program Empty) (img : Image) (fuel : Nat) (s : TenantDemo) :
    Option TenantEvent :=
  let g := (s.hv.vcpus s.vm).toGuestCtx
  (A64.run p ramPlatform fuel g.core { mem := s.view img s.vm, stores := [] }).map fun r =>
    { ctx := g.left r.1 r.2.2, stores := r.2.1.stores }

/-- The given number of passes of a demo, or fewer when it is over. -/
def drive (p : Program Empty) (img : Image) (k : VirtioKind) (fuel : Nat) :
    Nat → TenantDemo → Option TenantDemo
  | 0, s => some s
  | n + 1, s =>
    if (tenantDemo img k).cond s then
      (s.guestEvent p img fuel).bind fun e =>
        drive p img k fuel n ((tenantDemo img k).body e s).state
    else some s

end TenantDemo

/-! ## 2. The drivers -/

/-- What both drivers do when their queue of `n` entries stands at `0x40020000`: the
registers of the device at `x5`, one after the other, and a hypercall at the end. The
first instruction has the index `i`. -/
def handshake (n : U64) (i : Nat) : List (Instr Empty) :=
  [.mov 0 4096, .str 4 (some 0) 5 0x28,       -- GuestPageSize
    .str 4 none 5 0x30,                       -- QueueSel
    .mov 0 n, .str 4 (some 0) 5 0x38,         -- QueueNum
    .mov 0 4096, .str 4 (some 0) 5 0x3c,      -- QueueAlign
    .mov 0 0x40000, .movk 0 0x20 0, .str 4 (some 0) 5 0x40,  -- QueuePFN
    .mov 0 0xF, .str 4 (some 0) 5 0x70,       -- Status
    .str 4 none 5 0x50,                       -- QueueNotify
    .hvc, .nop, .b (i + 14)]

/-- The length of the text at `x11` into `x3`; the first instruction has the index 2. -/
def strlen : List (Instr Empty) :=
  [.mov 3 0, .ldrb 0 11 3, .cbz 0 7, .add 3 3 1, .b 3]

/-- The queue of `guest_virtio_entry`: one descriptor for the text. -/
def virtioQueue : List (Instr Empty) :=
  [.str 8 (some 11) 10 0, .str 4 (some 3) 10 8, .str 4 none 10 12,
    .add 4 10 16, .str 2 none 4 0, .mov 0 1, .str 2 (some 0) 4 2, .str 2 none 4 4, .nop,
    .mov 5 0x0A000000]

/-- The queue of `guest_vblk_simple_entry`: a write of the text to sector 0, as a chain
of a header, the text and a status byte. -/
def vblkChain : List (Instr Empty) :=
  [.mov 0 1, .str 4 (some 0) 6 0, .str 4 none 6 4, .str 8 none 6 8,
    .str 8 (some 6) 10 0, .mov 0 16, .str 4 (some 0) 10 8,
    .mov 0 1, .movk 0 1 16, .str 4 (some 0) 10 12,
    .str 8 (some 11) 10 16, .str 4 (some 3) 10 24,
    .mov 0 1, .movk 0 2 16, .str 4 (some 0) 10 28,
    .add 7 6 0x100, .str 8 (some 7) 10 32, .mov 0 1, .str 4 (some 0) 10 40,
    .mov 0 2, .str 4 (some 0) 10 44,
    .add 4 10 64, .str 2 none 4 0, .mov 0 1, .str 2 (some 0) 4 2, .str 2 none 4 4, .nop,
    .mov 5 0x0A000000, .add 5 5 0x200]

def vblkQueue : List (Instr Empty) := .mov 6 0x40020000 :: .add 6 6 0x1000 :: vblkChain

/-- The index at which the handshake of a driver starts. -/
def handshakeAt : VirtioKind → Nat
  | .con => 17
  | .blk => 38

def queueSetup : VirtioKind → List (Instr Empty)
  | .con => virtioQueue
  | .blk => vblkQueue

/-- The size of the queue of a driver. -/
def entriesOf : VirtioKind → U64
  | .con => 1
  | .blk => 4

/-- The index of the text, which is aligned to 8 bytes. -/
def textIndex : VirtioKind → Nat
  | .con => 34
  | .blk => 54

/-- `guest_virtio_entry` and `guest_vblk_simple_entry`. -/
def driverCode (k : VirtioKind) : List (Instr Empty) :=
  .mov 10 0x40020000 :: .adr 11 (textIndex k) ::
    (strlen ++ (queueSetup k ++ handshake (entriesOf k) (handshakeAt k)))

/-- The driver at `VM_IPA`; its text follows it. -/
def guestDriver (k : VirtioKind) : Program Empty where
  base := 0x40000000
  code := fun i => (driverCode k)[i]?

/-- Where the text is. -/
def textAt (k : VirtioKind) : U64 := (guestDriver k).label (textIndex k)

example : (driverCode .con).length = 33 ∧ (textAt .con).toNat % 8 = 0 ∧
    (driverCode .blk).length = 54 ∧ (textAt .blk).toNat % 8 = 0 := by
  decide

/-! ## 3. Memory during a run -/

section Ram

variable {a q off : U64} {n v : Nat} {m m' : GuestMem} {p : Program Empty} {s s' : Core}

theorem InRamN.byte (h : InRamN a n) {i : Nat} (hi : i < n) : InRam (a + BitVec.ofNat 64 i) := by
  obtain ⟨hn, hfirst, hlast⟩ := h
  rw [InRam] at hfirst hlast ⊢
  rw [BitVec.toNat_add, BitVec.toNat_ofNat] at hlast ⊢
  omega

theorem storeBytes_succ (a : U64) (n v : Nat) : storeBytes a (n + 1) v =
    storeBytes a n v ++ [(a + BitVec.ofNat 64 n, BitVec.ofNat 8 (v / 256 ^ n))] := by
  rw [storeBytes, List.range_succ, List.map_append]
  rfl

/-- A store is the bytes that it is recorded as. -/
theorem foldl_storeBytes (h : InRamN a n) {k : Nat} (hk : k ≤ n) (r : Mem 64) :
    (storeBytes a k v).foldl writeByte r = store r a k v := by
  induction k with
  | zero => exact (ByteMem.store_zero r a v).symm
  | succ k ih =>
    have hn := h.1
    rw [storeBytes_succ, List.foldl_append, ih (by omega), ByteMem.store_succ r a v (by omega)]
    exact if_pos (h.byte hk)

/-- The bytes recorded are what has changed in the memory. -/
def StoresTo (m m' : GuestMem) : Prop :=
  ∃ l, m'.stores = m.stores ++ l ∧ m'.mem = l.foldl writeByte m.mem

theorem StoresTo.refl (m : GuestMem) : StoresTo m m := ⟨[], (List.append_nil _).symm, rfl⟩

theorem StoresTo.trans {m1 m2 m3 : GuestMem} (h : StoresTo m1 m2) (h' : StoresTo m2 m3) :
    StoresTo m1 m3 := by
  obtain ⟨l, hl, hm⟩ := h
  obtain ⟨l', hl', hm'⟩ := h'
  refine ⟨l ++ l', ?_, ?_⟩
  · rw [hl', hl, List.append_assoc]
  · rw [hm', hm, List.foldl_append]

theorem storesTo_store (h : ramPlatform.store m a n v = some m') : StoresTo m m' := by
  simp only [ramPlatform] at h
  split_ifs at h with hin
  cases h
  exact ⟨storeBytes a n v, rfl, (foldl_storeBytes hin le_rfl m.mem).symm⟩

theorem storesTo_exec {c : Instr Empty} (h : A64.exec p ramPlatform s m c = .next s' m') :
    StoresTo m m' := by
  cases c with
  | mrs t r => exact r.elim
  | msr r t => exact r.elim
  | hvc => cases h
  | ldrb t n i =>
    simp only [A64.exec] at h
    split at h
    · cases h
      exact .refl _
    · cases h
  | str size t n off =>
    simp only [A64.exec] at h
    split at h
    · next hstore =>
      cases h
      exact storesTo_store hstore
    · cases h
  | stp t u off =>
    simp only [A64.exec] at h
    split at h
    · next hfirst =>
      split at h
      · next hsecond =>
        cases h
        exact (storesTo_store hfirst).trans (storesTo_store hsecond)
      · cases h
    · cases h
  | ldp t u off =>
    simp only [A64.exec] at h
    split at h
    · split at h
      · cases h
        exact .refl _
      · cases h
    · cases h
  | _ =>
    cases h
    exact .refl _

theorem storesTo_run {fuel : Nat} {k : Stop}
    (h : A64.run p ramPlatform fuel s m = some (s', m', k)) : StoresTo m m' := by
  induction fuel generalizing s m with
  | zero => cases h
  | succ fuel ih =>
    rw [A64.run] at h
    cases hstep : A64.step p ramPlatform s m with
    | stop j =>
      rw [hstep] at h
      cases h
      exact .refl _
    | next s1 m1 =>
      rw [hstep] at h
      refine StoresTo.trans ?_ (ih h)
      rw [A64.step] at hstep
      cases hfetch : p.fetch s.pc with
      | none =>
        rw [hfetch] at hstep
        cases hstep
      | some c =>
        rw [hfetch] at hstep
        exact storesTo_exec hstep

/-- The `n` bytes at `q` are in RAM. -/
def RamAt (q : U64) (n : Nat) : Prop := q.toNat / 2 ^ 30 = 1 ∧ q.toNat % 2 ^ 30 + n ≤ 2 ^ 30

instance (q : U64) (n : Nat) : Decidable (RamAt q n) := inferInstanceAs (Decidable (_ ∧ _))

theorem RamAt.byte (h : RamAt q n) {i : Nat} (hi : i < n) : InRam (q + BitVec.ofNat 64 i) := by
  obtain ⟨hblock, hend⟩ := h
  rw [InRam, BitVec.toNat_add, BitVec.toNat_ofNat]
  omega

theorem RamAt.inRamN {k : Nat} (h : RamAt q n) (hk : 0 < k) (hk8 : k ≤ 8)
    (hoff : off.toNat + k ≤ n) : InRamN (q + off) k := by
  obtain ⟨hblock, hend⟩ := h
  refine ⟨hk8, ?_, ?_⟩
  · rw [InRam, BitVec.toNat_add]
    omega
  · rw [InRam, BitVec.toNat_add, BitVec.toNat_add, BitVec.toNat_ofNat]
    omega

theorem ram_store (h : InRamN a n) : ramPlatform.store m a n v =
    some { mem := store m.mem a n v, stores := m.stores ++ storeBytes a n v } :=
  if_pos h

theorem ram_load (h : InRamN a n) : ramPlatform.load m a n = some (load m.mem a n) :=
  if_pos h

end Ram

/-! ## 4. The drivers up to the first register -/

/-- A text in memory, with the byte that ends it. -/
structure TextAt (m : Mem 64) (a : U64) (text : List U8) : Prop where
  bytes : ∀ i (hi : i < text.length), m (a + BitVec.ofNat 64 i) = text[i]
  ends : m (a + BitVec.ofNat 64 text.length) = 0
  nonzero : ∀ b ∈ text, b ≠ 0

section Setup

variable {k : VirtioKind} {s : Core} {m : GuestMem} {text : List U8}

theorem codeAt_driver (k : VirtioKind) : (guestDriver k).CodeAt 0 (driverCode k) := by
  intro j c hj
  rw [Nat.zero_add]
  exact hj

theorem codeAt_strlen (k : VirtioKind) : (guestDriver k).CodeAt 2 strlen :=
  (codeAt_driver k).tail.tail.left

/-- The registers at the head of the loop, `j` bytes into the text. -/
def strlenRegs (x : Reg → U64) (j : Nat) (v : U64) : Reg → U64 := fun r =>
  if r = 0 then v else if r = 3 then BitVec.ofNat 64 j else x r

theorem update_strlenRegs_value (x : Reg → U64) (j : Nat) (v w : U64) :
    Function.update (strlenRegs x j v) 0 w = strlenRegs x j w := by
  funext r
  by_cases hr : r = 0
  · rw [hr, Function.update_self]
    rfl
  · rw [Function.update_of_ne hr, strlenRegs, strlenRegs, if_neg hr, if_neg hr]

theorem update_strlenRegs_index (x : Reg → U64) (j i : Nat) (v : U64) :
    Function.update (strlenRegs x j v) 3 (BitVec.ofNat 64 i) = strlenRegs x i v := by
  funext r
  by_cases hr : r = 3
  · rw [hr, Function.update_self]
    rfl
  · rw [Function.update_of_ne hr, strlenRegs, strlenRegs, if_neg hr, if_neg hr]

/-- One pass of the loop. -/
theorem strlen_pass {j : Nat} {b : U8} (hin : InRam (s.x 11 + BitVec.ofNat 64 j))
    (hb : m.mem (s.x 11 + BitVec.ofNat 64 j) = b) (v : U64) :
    Reaches (guestDriver k) ramPlatform
      ({ s with x := strlenRegs s.x j v, pc := (guestDriver k).label 3 }, m)
      (if b = 0 then { s with x := strlenRegs s.x j 0, pc := (guestDriver k).label 7 }
        else { s with
          x := strlenRegs s.x (j + 1) (b.setWidth 64), pc := (guestDriver k).label 3 }, m) := by
  have hcode := (codeAt_strlen k).tail
  have hload : ramPlatform.load m (s.x 11 + BitVec.ofNat 64 j) 1 = some b.toNat := by
    rw [ram_load ⟨by decide, hin, by simpa using hin⟩, load, load, hb]
    rfl
  have hread : Reaches (guestDriver k) ramPlatform
      ({ s with x := strlenRegs s.x j v, pc := (guestDriver k).label 3 }, m)
      ({ s with x := strlenRegs s.x j (b.setWidth 64), pc := (guestDriver k).label 4 }, m) := by
    refine .of_exec rfl rfl (by decide) hcode.head ?_
    have haddr : ramPlatform.load m (strlenRegs s.x j v 11 + strlenRegs s.x j v 3) 1 =
        some b.toNat := hload
    simp only [A64.exec, haddr, Core.set, update_strlenRegs_value]
    rw [Program.label_add_four, BitVec.ofNat_toNat]
  refine hread.trans ?_
  by_cases hz : b = 0
  · subst hz
    rw [if_pos rfl]
    refine .of_exec rfl rfl (by decide) hcode.tail.head ?_
    simp [A64.exec, strlenRegs]
  · have hwide : b.setWidth 64 ≠ 0 := by
      intro h0
      have hval := congrArg BitVec.toNat h0
      have hb8 := b.isLt
      rw [BitVec.toNat_setWidth, Nat.mod_eq_of_lt (by omega)] at hval
      exact hz (BitVec.eq_of_toNat_eq hval)
    have htest : Reaches (guestDriver k) ramPlatform
        ({ s with x := strlenRegs s.x j (b.setWidth 64), pc := (guestDriver k).label 4 }, m)
        ({ s with x := strlenRegs s.x j (b.setWidth 64), pc := (guestDriver k).label 5 }, m) := by
      refine .of_exec rfl rfl (by decide) hcode.tail.head ?_
      have hne : strlenRegs s.x j (b.setWidth 64) 0 ≠ 0 := hwide
      simp only [A64.exec, if_neg hne, Core.advance]
      rw [Program.label_add_four]
    have hadd : Reaches (guestDriver k) ramPlatform
        ({ s with x := strlenRegs s.x j (b.setWidth 64), pc := (guestDriver k).label 5 }, m)
        ({ s with
          x := strlenRegs s.x (j + 1) (b.setWidth 64), pc := (guestDriver k).label 6 }, m) := by
      refine .of_exec rfl rfl (by decide) hcode.tail.tail.head ?_
      have hnext : strlenRegs s.x j (b.setWidth 64) 3 + 1 = BitVec.ofNat 64 (j + 1) :=
        (BitVec.ofNat_add ..).symm
      simp only [A64.exec, hnext, Core.set, update_strlenRegs_index]
      rw [Program.label_add_four]
    rw [if_neg hz]
    exact htest.trans (hadd.trans (.of_exec rfl rfl (by decide) hcode.tail.tail.tail.head rfl))

theorem strlen_loop (htext : TextAt m.mem (s.x 11) text) (hram : RamAt (s.x 11) (text.length + 1))
    {j : Nat} (hj : j ≤ text.length) (v : U64) :
    Reaches (guestDriver k) ramPlatform
      ({ s with x := strlenRegs s.x j v, pc := (guestDriver k).label 3 }, m)
      ({ s with x := strlenRegs s.x text.length 0, pc := (guestDriver k).label 7 }, m) := by
  -- on the bytes that are left
  induction hleft : text.length - j generalizing j v with
  | zero =>
    obtain rfl : j = text.length := by omega
    exact strlen_pass (hram.byte (Nat.lt_succ_self _)) htext.ends v
  | succ left ih =>
    have hlt : j < text.length := by omega
    have hpass := strlen_pass (k := k) (hram.byte (Nat.lt_succ_of_lt hlt)) (htext.bytes j hlt) v
    rw [if_neg (htext.nonzero _ (List.getElem_mem hlt))] at hpass
    exact hpass.trans (ih (by omega) _ (by omega))

/-- What a driver stores for a text of length `len` at `a`, with its queue at `q`: address,
size and value, in order. -/
def queueWords (q a : U64) (len : Nat) : VirtioKind → List (U64 × Nat × Nat)
  | .con =>
    [(q, 8, a.toNat), (q + 8, 4, len), (q + 12, 4, 0), (q + 16, 2, 0), (q + 18, 2, 1),
      (q + 20, 2, 0)]
  | .blk =>
    [(q + 4096, 4, 1), (q + 4100, 4, 0), (q + 4104, 8, 0),
      (q, 8, (q + 4096).toNat), (q + 8, 4, 16), (q + 12, 4, 0x10001),
      (q + 16, 8, a.toNat), (q + 24, 4, len), (q + 28, 4, 0x20001),
      (q + 32, 8, (q + 4352).toNat), (q + 40, 4, 1), (q + 44, 4, 2),
      (q + 64, 2, 0), (q + 66, 2, 1), (q + 68, 2, 0)]

def storeWords (m : Mem 64) (l : List (U64 × Nat × Nat)) : Mem 64 :=
  l.foldl (fun m w => store m w.1 w.2.1 w.2.2) m

section Blocks

variable {p : Program Empty} {q : U64}

theorem ram_store_at (hq : RamAt q 8192) {off : U64} {n v : Nat} (hn : 0 < n) (hn8 : n ≤ 8)
    (hoff : off.toNat + n ≤ 8192) : ramPlatform.store m (q + off) n v =
      some { mem := store m.mem (q + off) n v, stores := m.stores ++ storeBytes (q + off) n v } :=
  ram_store (hq.inRamN hn hn8 hoff)

theorem ram_store_first (hq : RamAt q 8192) {n v : Nat} (hn : 0 < n) (hn8 : n ≤ 8) :
    ramPlatform.store m q n v =
      some { mem := store m.mem q n v, stores := m.stores ++ storeBytes q n v } := by
  have hzero : (0 : U64).toNat + n ≤ 8192 := by
    rw [BitVec.ofNat_eq_ofNat, BitVec.toNat_zero]
    omega
  have hfirst := ram_store_at (m := m) (v := v) hq hn hn8 hzero
  rwa [BitVec.ofNat_eq_ofNat, BitVec.add_zero] at hfirst

theorem execBlock_virtioQueue (hq : RamAt q 8192) (h10 : s.x 10 = q) :
    ∃ s' m', A64.execBlock p ramPlatform virtioQueue s m = some (s', m') ∧
      s'.x 5 = VirtioKind.con.base ∧
      m'.mem = storeWords m.mem (queueWords q (s.x 11) (s.x 3).toNat .con) := by
  simp [virtioQueue, A64.execBlock, A64.exec, Core.advance, Core.set, Core.get, h10,
    ram_store_at hq, ram_store_first hq, BitVec.add_assoc, queueWords, storeWords, VirtioKind.base]

theorem execBlock_vblkChain (hq : RamAt q 8192) (h10 : s.x 10 = q) (h6 : s.x 6 = q + 4096) :
    ∃ s' m', A64.execBlock p ramPlatform vblkChain s m = some (s', m') ∧
      s'.x 5 = VirtioKind.blk.base ∧
      m'.mem = storeWords m.mem (queueWords q (s.x 11) (s.x 3).toNat .blk) := by
  simp [vblkChain, A64.execBlock, A64.exec, Core.advance, Core.set, Core.get, h10, h6,
    ram_store_at hq, ram_store_first hq, BitVec.add_assoc, queueWords, storeWords, VirtioKind.base]

end Blocks

theorem codeAt_queueSetup (k : VirtioKind) : (guestDriver k).CodeAt 7 (queueSetup k) :=
  (codeAt_driver k).tail.tail.right.left

theorem codeAt_handshake (k : VirtioKind) : (guestDriver k).CodeAt (handshakeAt k)
    (handshake (entriesOf k) (handshakeAt k)) := by
  have h := (codeAt_driver k).tail.tail.right.right
  cases k <;> exact h

/-- The queue block of either driver. -/
theorem reaches_queue {q : U64} (hq : q = 0x40020000) (hpc : s.pc = (guestDriver k).label 7)
    (h10 : s.x 10 = q) :
    ∃ s' m', Reaches (guestDriver k) ramPlatform (s, m) (s', m') ∧
      s'.pc = (guestDriver k).label (handshakeAt k) ∧ s'.x 5 = k.base ∧
      m'.mem = storeWords m.mem (queueWords q (s.x 11) (s.x 3).toNat k) := by
  have hram : RamAt q 8192 := by
    rw [hq]
    decide
  have hcode := codeAt_queueSetup k
  cases k with
  | con =>
    obtain ⟨s', m', hexec, h5, hmem⟩ := execBlock_virtioQueue (m := m) hram h10
    obtain ⟨hreach, hend⟩ := Reaches.block (fun _ => rfl) (by decide) (by decide) hcode hpc hexec
    exact ⟨s', m', hreach, hend, h5, hmem⟩
  | blk =>
    let s1 : Core := (s.set 6 0x40020000).set 6 (0x40020000 + 0x1000)
    have h6 : s1.x 6 = q + 4096 := by
      rw [hq]
      rfl
    obtain ⟨s', m', hexec, h5, hmem⟩ := execBlock_vblkChain (s := s1) (m := m) hram h10 h6
    have hall : A64.execBlock (guestDriver .blk) ramPlatform (queueSetup .blk) s m =
        some (s', m') := hexec
    obtain ⟨hreach, hend⟩ := Reaches.block (fun _ => rfl) (by decide) (by decide) hcode hpc hall
    exact ⟨s', m', hreach, hend, h5, hmem⟩

theorem toNat_textAt (k : VirtioKind) :
    0x40000000 ≤ (textAt k).toNat ∧ (textAt k).toNat ≤ 0x40000100 := by
  cases k <;> decide

/-- A text of `len` bytes behind the driver, with its NUL, ends before the page of the
queue. -/
def TextFits (k : VirtioKind) (len : Nat) : Prop := (textAt k).toNat + len < 0x40020000

instance (k : VirtioKind) (len : Nat) : Decidable (TextFits k len) :=
  inferInstanceAs (Decidable ((textAt k).toNat + len < 0x40020000))

theorem TextFits.length_lt {k : VirtioKind} {len : Nat} (h : TextFits k len) : len < 2 ^ 17 := by
  have hval := toNat_textAt k
  rw [TextFits] at h
  omega

theorem textAt_ram (k : VirtioKind) {len : Nat} (hlen : TextFits k len) :
    RamAt (textAt k) (len + 1) := by
  have hval := toNat_textAt k
  have hlt := hlen.length_lt
  rw [RamAt]
  omega

/-- From its entry a driver comes to its handshake, with the queue in its RAM. -/
theorem reaches_handshake (hpc : s.pc = (guestDriver k).label 0)
    (htext : TextAt m.mem (textAt k) text) (hlen : TextFits k text.length) :
    ∃ s' m', Reaches (guestDriver k) ramPlatform (s, m) (s', m') ∧
      s'.pc = (guestDriver k).label (handshakeAt k) ∧ s'.x 5 = k.base ∧
      m'.mem = storeWords m.mem (queueWords 0x40020000 (textAt k) text.length k) := by
  have hcode := codeAt_driver k
  let s1 : Core :=
    { s with
      x := Function.update (Function.update s.x 10 0x40020000) 11 (textAt k)
      pc := (guestDriver k).label 2 }
  have h11 : s1.x 11 = textAt k := rfl
  have hbase : Reaches (guestDriver k) ramPlatform (s, m)
      (s.set 10 0x40020000, m) := .of_exec rfl hpc (by decide) hcode.head rfl
  have htextAddr : Reaches (guestDriver k) ramPlatform (s.set 10 0x40020000, m) (s1, m) := by
    refine .of_exec (i := 1) rfl (Core.pc_set hpc _ _) (by decide) hcode.tail.head ?_
    simp only [A64.exec, Core.set, hpc, Program.label_add_four]
    rfl
  have hzero : Reaches (guestDriver k) ramPlatform (s1, m)
      ({ s1 with x := strlenRegs s1.x 0 (s1.x 0), pc := (guestDriver k).label 3 }, m) := by
    refine .of_exec (i := 2) rfl rfl (by decide) (codeAt_strlen k).head ?_
    have hregs : Function.update s1.x 3 0 = strlenRegs s1.x 0 (s1.x 0) := by
      funext r
      by_cases hr : r = 3
      · rw [hr]
        rfl
      · rw [Function.update_of_ne hr, strlenRegs, if_neg hr]
        split_ifs with h0
        · rw [h0]
        · rfl
    simp only [A64.exec, Core.set, hregs]
    rw [Program.label_add_four]
  have hloop := strlen_loop (k := k) (s := s1) (m := m) (h11 ▸ htext) (h11 ▸ textAt_ram k hlen)
    (Nat.zero_le _) (s1.x 0)
  obtain ⟨s', m', hqueue, hend, h5, hmem⟩ := reaches_queue (k := k) (m := m) rfl
    (s := { s1 with x := strlenRegs s1.x text.length 0, pc := (guestDriver k).label 7 }) rfl rfl
  refine ⟨s', m', hbase.trans (htextAddr.trans (hzero.trans (hloop.trans hqueue))), hend, h5, ?_⟩
  have hlenVal : (strlenRegs s1.x text.length 0 3).toNat = text.length := by
    change (BitVec.ofNat 64 text.length).toNat = text.length
    rw [BitVec.toNat_ofNat]
    have hlt := hlen.length_lt
    omega
  rw [hmem, hlenVal]
  rfl

end Setup

end FermiHV
