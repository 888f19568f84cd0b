import FermiHV.Virtio.Disk
import FermiHV.Virtio.GuestTurns
import FermiHV.Virtio.Layout

/-!
# The virtio guests and their devices together

The queue that a driver builds in the RAM of its tenant is what the device finds at the
host addresses that it computes from its registers. One notify is one request: the text
of the tenant goes to the console, or to its disk. With the two turns one after the
other the demos end, each tenant having been served from its own block.
-/

namespace FermiHV

open A64 (Program)
open ByteMem (Mem load store Covers Sep)
open TenantDemo (drive)

/-! ## 1. What the device finds -/

/-- A device at the start of a demo. -/
def startDev (c : Fin 2) : VirtioDev := { resetDev with hostOff := vmPa c - 0x40000000 }

/-- The queue as the device computes it after the handshake. -/
def driverQueue (k : VirtioKind) (c : Fin 2) : Queue := queueOf (configured k (startDev c))

section Reads

variable {k : VirtioKind} {c : Fin 2} {len : Nat} {H H' : VHost} {m : Mem 64}

theorem ramHost_add (c : Fin 2) (a b : U64) : ramHost c (a + b) = ramHost c a + b := by
  simp only [ramHost, BitVec.sub_eq_add_neg]
  ring

theorem load_ramHost (m : Mem 64) (c : Fin 2) (a : U64) (n : Nat) :
    load m (ramHost c a) n = load (guestRam c m) a n := by
  induction n generalizing a with
  | zero => rfl
  | succ n ih => rw [load, load, ← ramHost_add, ih, guestRam]

/-- The address and the size of each store. -/
def queueSpans (k : VirtioKind) : List (U64 × Nat) :=
  (queueWords 0x40020000 0 0 k).map fun w => (w.1, w.2.1)

theorem queueSpans_eq (k : VirtioKind) (a : U64) (len : Nat) :
    (queueWords 0x40020000 a len k).map (fun w => (w.1, w.2.1)) = queueSpans k := by
  cases k <;> rfl

/-- The stores do not overlap. -/
theorem queueSpans_apart (k : VirtioKind) : (queueSpans k).Pairwise fun w w' =>
    w.1.toNat + w.2 ≤ w'.1.toNat ∨ w'.1.toNat + w'.2 ≤ w.1.toNat := by
  cases k <;> decide

/-- They are in the two pages of the queue. -/
theorem queueSpans_bound (k : VirtioKind) : ∀ w ∈ queueSpans k,
    0x40020000 ≤ w.1.toNat ∧ w.1.toNat + w.2 ≤ 0x40022000 := by
  cases k <;> decide

theorem storeWords_of_not_covers {l : List (U64 × Nat × Nat)} {x : U64}
    (hl : ∀ w ∈ l, ¬ Covers w.1 w.2.1 x) : storeWords m l x = m x := by
  induction l generalizing m with
  | nil => rfl
  | cons w l ih =>
    have hrest := ih (m := store m w.1 w.2.1 w.2.2) fun w' hw' => hl w' (List.mem_cons_of_mem _ hw')
    exact hrest.trans (ByteMem.store_of_not_covers (hl w List.mem_cons_self))

/-- A part of one of the words, when they do not overlap. -/
theorem load_storeWords {l : List (U64 × Nat × Nat)} {a : U64} {n v o j : Nat}
    (hapart : l.Pairwise fun w w' => Sep w.1 w.2.1 w'.1 w'.2.1) (hw : (a, n, v) ∈ l)
    (hn : n ≤ 2 ^ 64) (ho : o + j ≤ n) :
    load (storeWords m l) (a + BitVec.ofNat 64 o) j = v / 256 ^ o % 256 ^ j := by
  induction l generalizing m with
  | nil => cases hw
  | cons w l ih =>
    obtain ⟨hhead, hrest⟩ := List.pairwise_cons.mp hapart
    rcases List.mem_cons.mp hw with rfl | hw
    · have hkept : ∀ w' ∈ l, Sep (a + BitVec.ofNat 64 o) j w'.1 w'.2.1 := fun w' hw' x hx =>
        hhead w' hw' x (ByteMem.covers_of_offset ho hn hx)
      have hsame : load (storeWords (store m a n v) l) (a + BitVec.ofNat 64 o) j =
          load (store m a n v) (a + BitVec.ofNat 64 o) j :=
        ByteMem.load_congr fun i hi => storeWords_of_not_covers fun w' hw' =>
          hkept w' hw' _ (ByteMem.covers_ofNat _ hi (by omega))
      exact hsame.trans (ByteMem.load_store_part m a v ho hn)
    · exact ih hrest hw

theorem queueWords_bound {a : U64} {w : U64 × Nat × Nat}
    (hw : w ∈ queueWords 0x40020000 a len k) :
    0x40020000 ≤ w.1.toNat ∧ w.1.toNat + w.2.1 ≤ 0x40022000 := by
  refine queueSpans_bound k (w.1, w.2.1) ?_
  rw [← queueSpans_eq k a len]
  exact List.mem_map_of_mem hw

theorem queueWords_apart (k : VirtioKind) (a : U64) (len : Nat) :
    (queueWords 0x40020000 a len k).Pairwise fun w w' => Sep w.1 w.2.1 w'.1 w'.2.1 := by
  have hspans := queueSpans_apart k
  rw [← queueSpans_eq k a len, List.pairwise_map] at hspans
  refine hspans.imp_of_mem ?_
  intro w w' hw hw' hor
  have hb := queueWords_bound hw
  have hb' := queueWords_bound hw'
  exact ByteMem.sep_of_le (by omega) (by omega) hor

/-- The device reads the words of the driver. -/
theorem QueueBuilt.read (hb : QueueBuilt k c len H H') {a : U64} {n v o j : Nat}
    (hw : (a, n, v) ∈ queueWords 0x40020000 (textAt k) len k) (ho : o + j ≤ n) :
    load H'.mem (ramHost c (a + BitVec.ofNat 64 o)) j = v / 256 ^ o % 256 ^ j := by
  have hbound : 0x40020000 ≤ a.toNat ∧ a.toNat + n ≤ 0x40022000 := queueWords_bound hw
  have hram : RamAt a n := by
    rw [RamAt]
    omega
  rw [load_ramHost, ← load_storeWords (m := guestRam c H.mem) (queueWords_apart k _ len) hw
    (by omega) ho]
  refine ByteMem.load_congr fun i hi => hb.ram _ ?_
  rw [BitVec.add_assoc, ← BitVec.ofNat_add]
  exact hram.byte (by omega)

/-- It finds the text where it was. -/
theorem QueueBuilt.text (hb : QueueBuilt k c len H H') {text : List U8}
    (htext : TextAt (guestRam c H.mem) (textAt k) text) (hlen : TextFits k text.length) {i : Nat}
    (hi : i < text.length) :
    H'.mem (ramHost c (textAt k) + BitVec.ofNat 64 i) = text[i] := by
  have hval := toNat_textAt k
  have hin : InRam (textAt k + BitVec.ofNat 64 i) := (textAt_ram k hlen).byte (by omega)
  have hpos : (textAt k + BitVec.ofNat 64 i).toNat < 0x40020000 := by
    rw [TextFits] at hlen
    rw [BitVec.toNat_add, BitVec.toNat_ofNat]
    omega
  rw [← ramHost_add]
  refine (hb.ram _ hin).trans (Eq.trans ?_ (htext.bytes i hi))
  refine storeWords_of_not_covers fun w hw hcov => ?_
  have hbound := queueWords_bound hw
  have hafter := (ByteMem.covers_iff (by omega)).mp hcov
  omega

/-- A word of the queue, at the address where the device looks for it. -/
theorem QueueBuilt.word (hb : QueueBuilt k c len H H') {x a : U64} {i n v : Nat} (o j : Nat)
    (hw : (queueWords 0x40020000 (textAt k) len k)[i]? = some (a, n, v)) (ho : o + j ≤ n)
    (hx : x = ramHost c (a + BitVec.ofNat 64 o)) :
    load H'.mem x j = v / 256 ^ o % 256 ^ j := by
  rw [hx]
  exact hb.read (List.mem_of_getElem? hw) ho

theorem QueueBuilt.availIdx (hb : QueueBuilt k c len H H') :
    availIdx (driverQueue k c) H'.mem = 1 := by
  cases k with
  | con =>
    have haddr : ∀ c, (driverQueue .con c).avail + 2 =
        ramHost c (0x40020000 + 18 + BitVec.ofNat 64 0) := by decide
    rw [FermiHV.availIdx, hb.word (i := 4) 0 2 rfl le_rfl (haddr c)]
    rfl
  | blk =>
    have haddr : ∀ c, (driverQueue .blk c).avail + 2 =
        ramHost c (0x40020000 + 66 + BitVec.ofNat 64 0) := by decide
    rw [FermiHV.availIdx, hb.word (i := 13) 0 2 rfl le_rfl (haddr c)]
    rfl

/-- A descriptor is read as it was written: its address as a host address, its length,
and the next index from the upper half of its last word. -/
theorem QueueBuilt.desc (hb : QueueBuilt k c len H H') {i : U16} {a : U64} {j l f : Nat}
    (ha : (queueWords 0x40020000 (textAt k) len k)[j]? =
      some (0x40020000 + BitVec.ofNat 64 (16 * i.toNat), 8, a.toNat))
    (hl : (queueWords 0x40020000 (textAt k) len k)[j + 1]? =
      some (0x40020000 + BitVec.ofNat 64 (16 * i.toNat + 8), 4, l))
    (hf : (queueWords 0x40020000 (textAt k) len k)[j + 2]? =
      some (0x40020000 + BitVec.ofNat 64 (16 * i.toNat + 12), 4, f)) :
    descAddr (driverQueue k c) H'.mem i + (driverQueue k c).o = ramHost c a ∧
      descLen (driverQueue k c) H'.mem i = BitVec.ofNat 32 l ∧
      descNext (driverQueue k c) H'.mem i = BitVec.ofNat 16 (f / 256 ^ 2) := by
  have hbase : (driverQueue k c).base = ramHost c 0x40020000 := by
    have hall : ∀ c, (driverQueue k c).base = ramHost c 0x40020000 := by cases k <;> decide
    exact hall c
  have hat : ∀ o, (driverQueue k c).desc i + BitVec.ofNat 64 o =
      ramHost c (0x40020000 + BitVec.ofNat 64 (16 * i.toNat + o)) := by
    intro o
    rw [desc_eq, hbase, ramHost_add]
  refine ⟨?_, ?_, ?_⟩
  · have haddr : (driverQueue k c).desc i = ramHost c
        (0x40020000 + BitVec.ofNat 64 (16 * i.toNat) + BitVec.ofNat 64 0) := by
      rw [BitVec.add_zero, ← Nat.add_zero (16 * i.toNat), ← hat 0, BitVec.add_zero]
    have hval : a.toNat / 256 ^ 0 % 256 ^ 8 = a.toNat := by
      have hlt := a.isLt
      omega
    have hoff : ∀ b : U64, b + (vmPa c - 0x40000000) = ramHost c b := by
      intro b
      simp only [ramHost, BitVec.sub_eq_add_neg]
      ring
    rw [descAddr, hb.word 0 8 ha le_rfl haddr, hval, BitVec.ofNat_toNat, BitVec.setWidth_eq]
    exact hoff a
  · have haddr : (driverQueue k c).desc i + 8 = ramHost c
        (0x40020000 + BitVec.ofNat 64 (16 * i.toNat + 8) + BitVec.ofNat 64 0) := by
      rw [BitVec.add_zero]
      exact hat 8
    rw [descLen, hb.word 0 4 hl le_rfl haddr]
    refine BitVec.eq_of_toNat_eq ?_
    rw [BitVec.toNat_ofNat, BitVec.toNat_ofNat]
    omega
  · have haddr : (driverQueue k c).desc i + 14 = ramHost c
        (0x40020000 + BitVec.ofNat 64 (16 * i.toNat + 12) + BitVec.ofNat 64 2) := by
      rw [BitVec.add_assoc, ← BitVec.ofNat_add]
      exact hat 14
    rw [descNext, hb.word 2 2 hf le_rfl haddr]
    refine BitVec.eq_of_toNat_eq ?_
    rw [BitVec.toNat_ofNat, BitVec.toNat_ofNat]
    omega

/-- The console finds one descriptor, that of the text. -/
theorem QueueBuilt.txReq (hb : QueueBuilt .con c len H H') {s : VHost} (hmem : s.mem = H'.mem)
    (hlast : (s.dev .con c).lastAvail = 0) :
    txReq c (driverQueue .con c) s =
      { didx := 0, addr := ramHost c (textAt .con), len := BitVec.ofNat 32 len } := by
  have hslot : ∀ c, (driverQueue .con c).availSlot 0 =
      ramHost c (0x40020000 + 20 + BitVec.ofNat 64 0) := by decide
  have hentry : availEntry (driverQueue .con c) H'.mem 0 = 0 := by
    rw [availEntry, hb.word (i := 5) 0 2 rfl le_rfl (hslot c)]
    rfl
  obtain ⟨haddr, hlenAt, -⟩ := hb.desc (i := 0) (a := textAt .con) (j := 0) rfl rfl rfl
  rw [txReq_eq, hmem, hlast]
  simp only [hentry, haddr, hlenAt]

/-- A write of the text to sector 0. -/
def driverReq (c : Fin 2) (len : Nat) : VblkReq where
  head := 0
  type := 1
  sector := 0
  daddr := ramHost c (textAt .blk)
  dlen := BitVec.ofNat 32 len
  saddr := ramHost c 0x40021100

/-- The disk finds a chain of three, with the header behind the first. -/
theorem QueueBuilt.vblkReq (hb : QueueBuilt .blk c len H H') {s : VHost} (hmem : s.mem = H'.mem)
    (hlast : (s.dev .blk c).lastAvail = 0) :
    vblkReq c (driverQueue .blk c) s = driverReq c len := by
  have hslot : ∀ c, (driverQueue .blk c).availSlot 0 =
      ramHost c (0x40020000 + 68 + BitVec.ofNat 64 0) := by decide
  have hentry : availEntry (driverQueue .blk c) H'.mem 0 = 0 := by
    rw [availEntry, hb.word (i := 14) 0 2 rfl le_rfl (hslot c)]
    rfl
  obtain ⟨hheader, -, hfirst⟩ := hb.desc (i := 0) (a := 0x40021000) (j := 3) rfl rfl rfl
  have hnext : descNext (driverQueue .blk c) H'.mem 0 = 1 := hfirst
  obtain ⟨hdata, hdlen, hsecond⟩ := hb.desc (i := 1) (a := textAt .blk) (j := 6) rfl rfl rfl
  have hlastDesc : descNext (driverQueue .blk c) H'.mem 1 = 2 := hsecond
  obtain ⟨hstatus, -, -⟩ := hb.desc (i := 2) (a := 0x40021100) (j := 9) rfl rfl rfl
  have htype : load H'.mem (ramHost c 0x40021000) 4 = 1 / 256 ^ 0 % 256 ^ 4 :=
    hb.word (i := 0) 0 4 rfl le_rfl rfl
  have hsector : load H'.mem (ramHost c 0x40021000 + 8) 8 = 0 / 256 ^ 0 % 256 ^ 8 :=
    hb.word (i := 2) 0 8 rfl le_rfl (ramHost_add c 0x40021000 8).symm
  rw [vblkReq_eq, hmem, hlast]
  simp only [hentry, hheader, hnext, htype, hsector, hdata, hdlen, hlastDesc, hstatus]
  rfl

end Reads

/-! ## 2. What the device does -/

section Served

variable {k : VirtioKind} {c : Fin 2} {len : Nat} {H H' : VHost}

/-- The host when the driver notifies its device. -/
def VHost.ready (H : VHost) (k : VirtioKind) (c : Fin 2) : VHost := H.setDev k c (configured k)

theorem ready_dev (hb : QueueBuilt k c len H H') (hdev : H.dev k c = startDev c) :
    (H'.ready k c).dev k c = configured k (startDev c) := by
  rw [VHost.ready, setDev_dev_self, hb.dev, hdev]

theorem queueStart_lastAvail (hb : QueueBuilt k c len H H') (hdev : H.dev k c = startDev c) :
    ((queueStart k c (H'.ready k c)).dev k c).lastAvail = 0 := by
  have hready : (queueStart k c (H'.ready k c)).dev k c = configured k (startDev c) :=
    ready_dev hb hdev
  rw [hready]
  rfl

/-- The notify makes one pass. -/
theorem QueueBuilt.afterPasses (hb : QueueBuilt k c len H H') (hdev : H.dev k c = startDev c) :
    ((H'.ready k c).dev k c).active = true ∧ passCount k c (H'.ready k c) = 1 ∧
      afterPasses k c (H'.ready k c) 1 =
        pass k c (driverQueue k c) (queueStart k c (H'.ready k c)) := by
  have hready := ready_dev hb hdev
  have hqueue : queueOf ((H'.ready k c).dev k c) = driverQueue k c := by rw [hready]; rfl
  have hactive : ((H'.ready k c).dev k c).active = true := by
    rw [hready]
    cases k <;> rfl
  refine ⟨hactive, ?_, ?_⟩
  · have hidx : FermiHV.availIdx (driverQueue k c) (H'.ready k c).mem = 1 := hb.availIdx
    have hzero : (configured k (startDev c)).lastAvail = 0 := rfl
    rw [passCount, if_pos hactive, hqueue, hidx, backlog, hready, hzero]
    rfl
  · rw [FermiHV.afterPasses, hqueue]
    rfl

/-- The device writes in the block of its tenant. -/
theorem covers_ramHost {a x : U64} {n : Nat} (ha : RamAt a n) (hx : Covers (ramHost c a) n x) :
    (demoTenant c).InBlock x := by
  obtain ⟨i, hi, rfl⟩ := ByteMem.eq_add_of_covers hx
  rw [← ramHost_add]
  exact inBlock_ramHost (ha.byte hi)

/-- Where the used ring is. -/
theorem driverQueue_used : ∀ k c, (driverQueue k c).used = ramHost c 0x40021000 ∧
    0 < (driverQueue k c).num.toNat ∧ 4 + 8 * (driverQueue k c).num.toNat ≤ 36 := by
  intro k
  cases k <;> decide

theorem inUsed_inBlock {x : U64} (hx : InUsed (driverQueue k c) x) : (demoTenant c).InBlock x := by
  have hram : RamAt 0x40021000 36 := by decide
  obtain ⟨hused, -, hnum⟩ := driverQueue_used k c
  refine covers_ramHost hram ?_
  rw [← hused]
  exact lt_of_lt_of_le hx hnum

/-- What a notify leaves to the other tenant. -/
structure Framed (k : VirtioKind) (c : Fin 2) (H S : VHost) : Prop where
  outside : ∀ y, ¬ (demoTenant c).InBlock y → S.mem y = H.mem y
  dev : ∀ d, d ≠ c → S.dev k d = H.dev k d

theorem Framed.of_pass {S : VHost} (hb : QueueBuilt k c len H H')
    (hmem : ∀ y, ¬ (demoTenant c).InBlock y → S.mem y = H'.mem y)
    (hdev : ∀ d, d ≠ c → S.dev k d = (queueStart k c (H'.ready k c)).dev k d) : Framed k c H S where
  outside := fun y hy => (hmem y hy).trans (hb.outside y hy)
  dev := by
    intro d hd
    have hready : (queueStart k c (H'.ready k c)).dev k d = H'.dev k d :=
      setDev_dev_of_ne _ fun h => hd h.2
    rw [hdev d hd, hready, hb.dev]

/-- The console prints the text. -/
theorem QueueBuilt.printed {text : List U8} (hb : QueueBuilt .con c text.length H H')
    (hdev : H.dev .con c = startDev c) (htext : TextAt (guestRam c H.mem) (textAt .con) text)
    (hlen : TextFits .con text.length) :
    (process .con c (H'.ready .con c)).console = H.console ++ text ∧
      Framed .con c H (process .con c (H'.ready .con c)) := by
  obtain ⟨hactive, hcount, hafter⟩ := hb.afterPasses hdev
  let S := queueStart .con c (H'.ready .con c)
  have hreq := hb.txReq (s := S) rfl (queueStart_lastAvail hb hdev)
  have hprocess : process .con c (H'.ready .con c) =
      (raiseIrq .con c (pass .con c (driverQueue .con c) S)).2 := by
    rw [process, virtioProcessTx_eq hactive, hcount, if_pos one_ne_zero, hafter]
  have hpass : pass .con c (driverQueue .con c) S = _ := virtioTxPass_run
  constructor
  · have hbytes : (FermiHV.txReq c (driverQueue .con c) S).bytes S.mem = text := by
      have hn : (BitVec.ofNat 32 text.length).toNat = text.length := by
        rw [BitVec.toNat_ofNat]
        have hlt := hlen.length_lt
        omega
      rw [hreq, TxReq.bytes, hn]
      refine List.ext_getElem (by simp) fun i hi hi' => ?_
      rw [List.getElem_map, List.getElem_range]
      exact hb.text htext hlen hi'
    have hconsole : (process .con c (H'.ready .con c)).console =
        S.console ++ (FermiHV.txReq c (driverQueue .con c) S).bytes S.mem := by
      rw [hprocess, hpass]
      rfl
    rw [hconsole, hbytes]
    exact congrArg (· ++ text) hb.console
  · refine .of_pass hb (fun y hy => ?_) fun d hd => ?_
    · have hmem : (process .con c (H'.ready .con c)).mem =
          pushed (driverQueue .con c)
            ((FermiHV.txReq c (driverQueue .con c) S).didx.setWidth 32) 0 S.mem := by
        rw [hprocess, hpass]
        rfl
      rw [hmem]
      exact pushed_of_not_used (driverQueue_used .con c).2.1 _ _ _ fun hu =>
        hy (inUsed_inBlock hu)
    · have hother : ¬ (VirtioKind.con = .con ∧ d = c) := fun h => hd h.2
      have hraise : ∀ T : VHost, (raiseIrq .con c T).2.dev .con d = T.dev .con d := by
        intro T
        rw [raiseIrq, setDev_dev_of_ne _ hother]
      rw [hprocess, hraise]
      exact pass_dev_of_ne hother

theorem driverReq_dlen (hlen : TextFits .blk len) : (driverReq c len).dlen.toNat = len := by
  rw [driverReq, BitVec.toNat_ofNat]
  have hlt := hlen.length_lt
  omega

theorem driverReq_doff : (driverReq c len).doff = 0#64 := BitVec.zero_mul

theorem driverReq_inRange (hlen : TextFits .blk len) :
    (driverReq c len).inRange = decide (len ≤ diskSize) := by
  have hsum : ((driverReq c len).doff + (driverReq c len).dlen.setWidth 64).toNat = len := by
    rw [driverReq_doff, BitVec.zero_add, BitVec.toNat_setWidth, driverReq_dlen hlen]
    have hlt := hlen.length_lt
    omega
  rw [VblkReq.inRange, hsum]

/-- The disks after the request. -/
theorem driverReq_disks {text : List U8} (hb : QueueBuilt .blk c text.length H H')
    (htext : TextAt (guestRam c H.mem) (textAt .blk) text) (hlen : TextFits .blk text.length)
    {S : VHost} (hmem : S.mem = H'.mem) (hdisk : S.vbBytes = H.vbBytes) (d : Fin 2)
    (i : Fin diskSize) :
    movedDisks c (driverReq c text.length) S (diskAddr d (BitVec.ofNat 64 i)) =
      if text.length ≤ diskSize ∧ d = c then
        text.getD i (H.vbBytes (diskAddr d (BitVec.ofNat 64 i)))
      else H.vbBytes (diskAddr d (BitVec.ofNat 64 i)) := by
  have htype : (driverReq c text.length).type = 1 := rfl
  have hdlen := driverReq_dlen (c := c) hlen
  have hrange := driverReq_inRange (c := c) hlen
  rw [movedDisks, hdlen, hdisk, hmem]
  by_cases hfit : text.length ≤ diskSize
  · have hfits : (driverReq c text.length).Fits := by
      rw [VblkReq.Fits, hdlen]
      simpa [VblkReq.start, driverReq] using hfit
    have hcov : Covers (diskAddr c (driverReq c text.length).doff)
        (driverReq c text.length).dlen.toNat (diskAddr d (BitVec.ofNat 64 i)) ↔ _ :=
      covers_diskAddr_iff hfits i
    have hstart : (driverReq c text.length).start = 0 := Nat.zero_mul _
    rw [hdlen, hstart] at hcov
    rw [if_pos ⟨hrange.trans (decide_eq_true hfit), htype⟩, ByteMem.copy]
    by_cases hd : d = c
    · subst hd
      have hboth : text.length ≤ diskSize ∧ d = d := ⟨hfit, rfl⟩
      rw [if_pos hboth]
      by_cases hi : i.val < text.length
      · rw [if_pos (hcov.mpr ⟨rfl, by omega, by omega⟩), List.getD_eq_getElem _ _ hi,
          driverReq_doff]
        have hdist : diskAddr d (BitVec.ofNat 64 i) - diskAddr d 0#64 = BitVec.ofNat 64 i := by
          rw [diskAddr, diskAddr, BitVec.add_zero, BitVec.add_comm, BitVec.add_sub_cancel]
        rw [hdist]
        exact hb.text htext hlen hi
      · rw [if_neg fun h => hi (by have := (hcov.mp h).2.2; omega),
          List.getD_eq_default _ _ (by omega)]
    · rw [if_neg fun h => hd (hcov.mp h).1, if_neg fun h => hd h.2]
  · have hout : (driverReq c text.length).inRange = false := hrange.trans (decide_eq_false hfit)
    rw [if_neg fun h => Bool.false_ne_true (hout.symm.trans h.1), if_neg fun h => hfit h.1]

/-- A blank disk after a write of the text. -/
def diskWith (text : List U8) : List U8 :=
  if text.length ≤ diskSize then text ++ List.replicate (diskSize - text.length) 0
  else List.replicate diskSize 0

/-- The disk takes the text, or reports that it does not fit. -/
theorem QueueBuilt.written {text : List U8} (hb : QueueBuilt .blk c text.length H H')
    (hdev : H.dev .blk c = startDev c) (htext : TextAt (guestRam c H.mem) (textAt .blk) text)
    (hlen : TextFits .blk text.length) :
    let S := process .blk c (H'.ready .blk c)
    (∀ d, ∀ i : Fin diskSize, S.vbBytes (diskAddr d (BitVec.ofNat 64 i)) =
      if text.length ≤ diskSize ∧ d = c then
        text.getD i (H.vbBytes (diskAddr d (BitVec.ofNat 64 i)))
      else H.vbBytes (diskAddr d (BitVec.ofNat 64 i))) ∧
    guestRam c S.mem 0x40021100 = (if text.length ≤ diskSize then 0 else 1) ∧
    Framed .blk c H S := by
  intro S
  obtain ⟨hactive, hcount, hafter⟩ := hb.afterPasses hdev
  let S0 := queueStart .blk c (H'.ready .blk c)
  have hreq := hb.vblkReq (s := S0) rfl (queueStart_lastAvail hb hdev)
  have hprocess : S = pass .blk c (driverQueue .blk c) S0 := by
    change process .blk c (H'.ready .blk c) = _
    rw [process, vblkProcess_eq hactive, hcount, hafter]
  have hpass : pass .blk c (driverQueue .blk c) S0 = _ := vblkPass_run
  rw [hreq] at hpass
  have hdisks : S.vbBytes = movedDisks c (driverReq c text.length) S0 := by
    rw [hprocess, hpass]
  have hmem : S.mem = pushed (driverQueue .blk c) 0 (driverReq c text.length).dlen
      (statusMem c (driverReq c text.length) S0) := by
    rw [hprocess, hpass]
    rfl
  have hstatus : statusMem c (driverReq c text.length) S0 =
      store H'.mem (ramHost c 0x40021100) 1 (driverReq c text.length).status.toNat := by
    rw [statusMem, movedMem, if_neg fun h => h.2 rfl]
    rfl
  refine ⟨fun d i => ?_, ?_, .of_pass hb (fun y hy => ?_) fun d hd => ?_⟩
  · rw [hdisks]
    exact driverReq_disks hb htext hlen rfl hb.vbBytes d i
  · have hunused : ∀ c, ¬ Covers (driverQueue .blk c).used
        (4 + 8 * (driverQueue .blk c).num.toNat) (ramHost c 0x40021100) := by decide
    rw [guestRam, hmem, pushed_of_not_used (driverQueue_used .blk c).2.1 _ _ _ (hunused c), hstatus,
      ByteMem.store_one, Function.update_self, VblkReq.status, driverReq_inRange hlen]
    simp only [decide_eq_true_eq]
  · rw [hmem, pushed_of_not_used (driverQueue_used .blk c).2.1 _ _ _ fun hu =>
      hy (inUsed_inBlock hu), hstatus]
    exact ByteMem.store_of_not_covers fun hc => hy (covers_ramHost (by decide) hc)
  · have hother : ¬ (VirtioKind.blk = .blk ∧ d = c) := fun h => hd h.2
    rw [hprocess]
    exact pass_dev_of_ne hother

end Served

/-! ## 3. The demos -/

section Demos

variable {img : Image} {k : VirtioKind} {c : Fin 2} {H H' : VHost} {text : List U8}

theorem QueueBuilt.framed (hb : QueueBuilt k c text.length H H') (hdev : H.dev k c = startDev c)
    (htext : TextAt (guestRam c H.mem) (textAt k) text) (hlen : TextFits k text.length) :
    Framed k c H (process k c (H'.ready k c)) := by
  cases k with
  | con => exact (hb.printed hdev htext hlen).2
  | blk => exact (hb.written hdev htext hlen).2.2

theorem outside_other {d : Fin 2} (hd : d ≠ c) {a : U64} (ha : InRam a) :
    ¬ (demoTenant c).InBlock (ramHost d a) := by
  intro hin
  have hpa : ∀ d : Fin 2, (demoTenant d).pa.toNat = 0x80000000 + d.val * 0x40000000 := by decide
  rw [Tenant.InBlock, toNat_ramHost ha, hpa] at hin
  exact hd (Fin.ext (by omega))

theorem start_stands (img : Image) (k : VirtioKind) (mem : Mem 64) (h : Hv) (host : VHost) :
    Stands img k 0 0 (tenantDemoStart img k mem h host).host (tenantDemoStart img k mem h host)
      (tenantDemoStart img k mem h host) where
  cur := rfl
  guard := le_rfl
  tables := rfl
  pc := rfl
  host := rfl
  others := fun _ _ => rfl

theorem start_dev (img : Image) (k : VirtioKind) (mem : Mem 64) (h : Hv) (host : VHost)
    (c : Fin 2) : (tenantDemoStart img k mem h host).host.dev k c = startDev c := by
  fin_cases c <;> simp [tenantDemoStart, setOffset, VHost.setDev, virtioReset, startDev]

/-- Both turns of a demo, one after the other. -/
theorem both_turns (img : Image) (mem : Mem 64) (h : Hv) (host : VHost) {msg : Fin 2 → List U8}
    (htext : ∀ c, TextAt (guestRam c mem) (textAt k) (msg c))
    (hlen : ∀ c, TextFits k (msg c).length) :
    let s0 := tenantDemoStart img k mem h host
    ∃ s H0 H1, Drives (guestDriver k) img k 16 s0 s ∧ s.cur = 2 ∧
      QueueBuilt k 0 (msg 0).length s0.host H0 ∧
      TextAt (guestRam 1 (process k 0 (H0.ready k 0)).mem) (textAt k) (msg 1) ∧
      (process k 0 (H0.ready k 0)).dev k 1 = startDev 1 ∧
      QueueBuilt k 1 (msg 1).length (process k 0 (H0.ready k 0)) H1 ∧
      s.host = process k 1 (H1.ready k 1) := by
  intro s0
  have hZ := start_tables img k mem h host
  have hdev := start_dev img k mem h host
  obtain ⟨s1, H0, hd0, hb0, hover⟩ := (start_stands img k mem h host).turn hZ (htext 0) (hlen 0)
  have hframe := hb0.framed (hdev 0) (htext 0) (hlen 0)
  have hstands : Stands img k 1 0 (process k 0 (H0.ready k 0)) s1 s1 := {
    cur := hover.cur
    guard := hover.guard.le
    tables := rfl
    pc := by
      rw [hover.others 1 (by decide)]
      rfl
    host := hover.host
    others := fun _ _ => rfl }
  have htext1 : TextAt (guestRam 1 (process k 0 (H0.ready k 0)).mem) (textAt k) (msg 1) :=
    (htext 1).congr (textAt_ram k (hlen 1)) fun a ha =>
      hframe.outside _ (outside_other (by decide) ha)
  obtain ⟨s2, H1, hd1, hb1, hover1⟩ := hstands.turn (hover.tables.trans hZ) htext1 (hlen 1)
  exact ⟨s2, H0, H1, hd0.trans hd1, hover1.cur, hb0, htext1,
    (hframe.dev 1 (by decide)).trans (hdev 1), hb1, hover1.host⟩

/-- When both turns are over the demo does not go on. -/
theorem Drives.ends {l : Nat} {p : Program Empty} {s0 s : TenantDemo}
    (h : Drives p img k l s0 s) (hcur : s.cur = 2) :
    ∀ᶠ fuel in Filter.atTop, ∀ n, drive p img k fuel (l + n) s0 = some s := by
  have hcond : ¬ (tenantDemo img k).cond s = true := by
    simp [tenantDemo, hcur]
  filter_upwards [h] with fuel hfuel n
  rw [hfuel]
  cases n with
  | zero => rfl
  | succ n => rw [drive, if_neg hcond]

end Demos

/-- `mtenant_virtio_demo` with its guests: both come to their end, and the console has
been given the text of the first and then that of the second, whatever their RAM holds
otherwise. Each text stands between its driver and the page of the queue. -/
theorem virtio_guests_print (img : Image) (mem : Mem 64) (h : Hv) (host : VHost)
    (msg : Fin 2 → List U8) (htext : ∀ c, TextAt (guestRam c mem) (textAt .con) (msg c))
    (hlen : ∀ c, TextFits .con (msg c).length) :
    ∃ s, (∀ᶠ fuel in Filter.atTop, ∀ n, drive (guestDriver .con) img .con fuel (16 + n)
        (tenantDemoStart img .con mem h host) = some s) ∧
      s.cur = 2 ∧ s.host.console = host.console ++ msg 0 ++ msg 1 := by
  obtain ⟨s, H0, H1, hdrives, hcur, hb0, htext1, hdev1, hb1, hhost⟩ :=
    both_turns img mem h host htext hlen
  refine ⟨s, hdrives.ends hcur, hcur, ?_⟩
  have hfirst := (hb0.printed (start_dev img .con mem h host 0) (htext 0) (hlen 0)).1
  rw [hhost, (hb1.printed hdev1 htext1 (hlen 1)).1, hfirst]
  rfl

/-- Memory with a text of one byte behind the driver of each tenant. -/
def oneByteTexts (k : VirtioKind) (b0 b1 : U8) : Mem 64 := fun a =>
  if a = ramHost 0 (textAt k) then b0 else if a = ramHost 1 (textAt k) then b1 else 0

theorem oneByteTexts_textAt (k : VirtioKind) {b0 b1 : U8} (h0 : b0 ≠ 0) (h1 : b1 ≠ 0) (c : Fin 2) :
    TextAt (guestRam c (oneByteTexts k b0 b1)) (textAt k) [![b0, b1] c] := by
  have haddrs : ∀ k : VirtioKind, ramHost 1 (textAt k) ≠ ramHost 0 (textAt k) ∧
      ∀ c d : Fin 2, ramHost c (textAt k + BitVec.ofNat 64 1) ≠ ramHost d (textAt k) := by
    intro k
    cases k <;> decide
  obtain ⟨hne, hend⟩ := haddrs k
  refine ⟨fun i hi => ?_, ?_, ?_⟩
  · obtain rfl : i = 0 := Nat.lt_one_iff.mp hi
    rw [BitVec.add_zero]
    fin_cases c
    · exact if_pos rfl
    · exact (if_neg hne).trans (if_pos rfl)
  · exact (if_neg (hend c 0)).trans (if_neg (hend c 1))
  · fin_cases c <;> simpa

/-- A guest that prints `H` and one that prints `V`. -/
theorem virtio_guests_print_bytes :
    let s0 := tenantDemoStart exampleImage .con (oneByteTexts .con 0x48 0x56)
      (resetHv exampleImage 0) demoHost
    ∃ s, (∀ᶠ fuel in Filter.atTop, ∀ n,
        drive (guestDriver .con) exampleImage .con fuel (16 + n) s0 = some s) ∧
      s.cur = 2 ∧ s.host.console = demoHost.console ++ [0x48] ++ [0x56] :=
  virtio_guests_print exampleImage _ (resetHv exampleImage 0) demoHost (fun c => [![0x48, 0x56] c])
    (oneByteTexts_textAt .con (by decide) (by decide)) (by decide)

theorem vblkPeek_diskWith {c : Fin 2} {text : List U8} {S : VHost}
    (h : ∀ i : Fin diskSize, S.vbBytes (diskAddr c (BitVec.ofNat 64 i)) =
      if text.length ≤ diskSize then text.getD i 0 else 0) :
    vblkPeek c diskSize S = diskWith text := by
  have hlength : (diskWith text).length = diskSize := by
    rw [diskWith]
    split_ifs with hfit
    · rw [List.length_append, List.length_replicate]
      omega
    · exact List.length_replicate
  refine List.ext_getElem (by simp [vblkPeek, hlength]) fun i hi hi' => ?_
  rw [hlength] at hi'
  simp only [vblkPeek, List.getElem_map, List.getElem_range]
  rw [h ⟨i, hi'⟩]
  simp only [diskWith]
  split_ifs with hfit
  · rw [List.getElem_append]
    split_ifs with htext
    · exact List.getD_eq_getElem _ _ htext
    · rw [List.getElem_replicate]
      exact List.getD_eq_default _ _ (by omega)
  · rw [List.getElem_replicate]

/-- The disks are blank at the start. -/
theorem start_disks (img : Image) (mem : Mem 64) (h : Hv) (host : VHost) (c : Fin 2)
    (i : Fin diskSize) :
    (tenantDemoStart img .blk mem h host).host.vbBytes (diskAddr c (BitVec.ofNat 64 i)) = 0 := by
  refine if_pos ⟨rfl, c, ?_⟩
  have haddr : diskAddr c (BitVec.ofNat 64 i) = diskAddr c 0 + BitVec.ofNat 64 i := by
    rw [diskAddr_add, BitVec.ofNat_eq_ofNat, BitVec.zero_add]
  rw [haddr]
  exact ByteMem.covers_ofNat _ i.isLt (by decide)

/-- `mtenant_vblk_demo` with its guests: both come to their end, and each disk holds the
text of its tenant from sector 0 on, with status 0, or is blank, with status 1, when the
text is longer than the disk. Each text stands between its driver and the page of the
queue. -/
theorem vblk_guests_write (img : Image) (mem : Mem 64) (h : Hv) (host : VHost)
    (msg : Fin 2 → List U8) (htext : ∀ c, TextAt (guestRam c mem) (textAt .blk) (msg c))
    (hlen : ∀ c, TextFits .blk (msg c).length) :
    ∃ s, (∀ᶠ fuel in Filter.atTop, ∀ n, drive (guestDriver .blk) img .blk fuel (16 + n)
        (tenantDemoStart img .blk mem h host) = some s) ∧
      s.cur = 2 ∧ ∀ c, vblkPeek c diskSize s.host = diskWith (msg c) ∧
        guestRam c s.host.mem 0x40021100 = if (msg c).length ≤ diskSize then 0 else 1 := by
  obtain ⟨s, H0, H1, hdrives, hcur, hb0, htext1, hdev1, hb1, hhost⟩ :=
    both_turns img mem h host htext hlen
  refine ⟨s, hdrives.ends hcur, hcur, ?_⟩
  obtain ⟨hdisk0, hstatus0, -⟩ := hb0.written (start_dev img .blk mem h host 0) (htext 0) (hlen 0)
  obtain ⟨hdisk1, hstatus1, hframe⟩ := hb1.written hdev1 htext1 (hlen 1)
  have hblank := start_disks img mem h host
  rw [hhost]
  intro c
  fin_cases c
  · -- the second turn leaves the disk and the status byte of the first tenant alone
    refine ⟨vblkPeek_diskWith fun i => ?_, ?_⟩
    · have hother : ¬ ((msg 1).length ≤ diskSize ∧ (0 : Fin 2) = 1) := by simp
      have hfirst := hdisk0 0 i
      rw [hblank] at hfirst
      simp only [and_true] at hfirst
      exact ((hdisk1 0 i).trans (if_neg hother)).trans hfirst
    · exact (hframe.outside _ (outside_other (by decide) (by decide))).trans hstatus0
  · refine ⟨vblkPeek_diskWith fun i => ?_, hstatus1⟩
    have hother : ¬ ((msg 0).length ≤ diskSize ∧ (1 : Fin 2) = 0) := by simp
    have hbefore := (hdisk0 1 i).trans ((if_neg hother).trans (hblank 1 i))
    have hsecond := hdisk1 1 i
    rw [hbefore] at hsecond
    simp only [and_true] at hsecond
    exact hsecond

/-- A guest that writes `H` to its disk and one that writes `V`. -/
theorem vblk_guests_write_bytes :
    let s0 := tenantDemoStart exampleImage .blk (oneByteTexts .blk 0x48 0x56)
      (resetHv exampleImage 0) demoHost
    ∃ s, (∀ᶠ fuel in Filter.atTop, ∀ n,
        drive (guestDriver .blk) exampleImage .blk fuel (16 + n) s0 = some s) ∧
      s.cur = 2 ∧ ∀ c, vblkPeek c diskSize s.host = diskWith [![0x48, 0x56] c] ∧
        guestRam c s.host.mem 0x40021100 = if [![(0x48 : U8), 0x56] c].length ≤ diskSize then 0
          else 1 :=
  vblk_guests_write exampleImage _ (resetHv exampleImage 0) demoHost (fun c => [![0x48, 0x56] c])
    (oneByteTexts_textAt .blk (by decide) (by decide)) (by decide)

end FermiHV
