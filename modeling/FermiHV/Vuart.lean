import FermiHV.Vcpu

/-!
# The emulated PL011 (`vdev.c`)

One UART for all guests: the interrupt mask, a receive FIFO of one byte, and
the bytes that guests have written to the data register, which go to the real
console.
-/

namespace FermiHV

def vuartBase : U64 := 0x09000000
def vuartSize : U64 := 0x1000

/-- `PL011_RXIM`: the receive interrupt in the mask and status registers. -/
def pl011Rxim : U32 := 0x10

/-- `v_imsc`, `v_rx` (`none` for `-1`) and the console output. -/
structure Vuart where
  imsc : U32
  rx : Option U8
  console : List U8

/-- `vuart_contains`. -/
def vuartContains (ipa : U64) : Bool := vuartBase ≤ ipa && ipa < vuartBase + vuartSize

/-- `vuart_push_rx`. -/
def vuartPushRx (c : U8) (u : Vuart) : Vuart := { u with rx := some c }

/-- `vuart_rx_irq_pending`. -/
def vuartRxIrqPending (u : Vuart) : Bool := u.rx.isSome && (u.imsc &&& pl011Rxim ≠ 0)

/-- `vuart_write`. -/
def vuartWrite (off val : U64) (u : Vuart) : Vuart :=
  if off = 0x00 then { u with console := u.console ++ [val.setWidth 8] }
  else if off = 0x38 then { u with imsc := val.setWidth 32 }
  else u

/-- The raw receive interrupt status. -/
def Vuart.ris (u : Vuart) : U32 := if u.rx.isSome then pl011Rxim else 0

/-- PL011 identification registers. -/
def vuartIdReg (off : U64) : U64 :=
  if off = 0xFE0 then 0x11
  else if off = 0xFE4 then 0x10
  else if off = 0xFE8 then 0x14
  else if off = 0xFEC then 0x00
  else if off = 0xFF0 then 0x0d
  else if off = 0xFF4 then 0xf0
  else if off = 0xFF8 then 0x05
  else if off = 0xFFC then 0xb1
  else 0

/-- `vuart_read`: reading the data register takes the received byte. -/
def vuartRead (off : U64) (u : Vuart) : U64 × Vuart :=
  if off = 0x00 then
    ((match u.rx with
      | some c => c.setWidth 64
      | none => 0), { u with rx := none })
  else if off = 0x18 then (0x80 ||| (if u.rx.isNone then 0x10 else 0), u)
  else if off = 0x38 then (u.imsc.setWidth 64, u)
  else if off = 0x3C then (u.ris.setWidth 64, u)
  else if off = 0x40 then ((u.ris &&& u.imsc).setWidth 64, u)
  else (vuartIdReg off, u)

theorem vuartRead_rx (off : U64) (u : Vuart) :
    (vuartRead off u).2 = if off = 0x00 then { u with rx := none } else u := by
  simp only [vuartRead]
  split_ifs <;> rfl

theorem vuartWrite_rx (off val : U64) (u : Vuart) : (vuartWrite off val u).rx = u.rx := by
  simp only [vuartWrite]
  split_ifs <;> rfl

/-- `mmio_emulate`. -/
def mmioEmulate (v : Vcpu) (ipa : U64) (u : Vuart) : Vcpu × Vuart :=
  let iss := esrIss v.exitEsr
  if !issIsv iss then (v.skip, u)
  else
    let srt := issSrt iss
    let off := ipa - vuartBase
    if issWnr iss then (v.skip, vuartWrite off (v.getX srt) u)
    else
      let (val, u') := vuartRead off u
      ((v.setX srt val).skip, u')

/-- `mmio_zero`: reads return zero, writes are ignored. -/
def mmioZero (v : Vcpu) : Vcpu :=
  let iss := esrIss v.exitEsr
  if issIsv iss && !issWnr iss then (v.setX (issSrt iss) 0).skip else v.skip

end FermiHV
