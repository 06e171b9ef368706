import PacketForge.Core.Pkt
import PacketForge.Ipv4.Checksum
import PacketForge.Route.Fib

/-!
Interfaces and the frames they transmit (`netdev.h`, `eth.c`). A frame is kept
as the arguments of `eth_output` with the source address it fills in; its bytes
on the wire are `EthFrame.bytes`.
-/

namespace PacketForge

open Checked

abbrev ethHdrLen : Nat := 14
abbrev ethTypeIp4 : UInt16 := 0x0800
abbrev ethTypeArp : UInt16 := 0x0806

structure Mac where
  b0 : UInt8
  b1 : UInt8
  b2 : UInt8
  b3 : UInt8
  b4 : UInt8
  b5 : UInt8
deriving DecidableEq, Repr

namespace Mac

def zero : Mac := ⟨0, 0, 0, 0, 0, 0⟩

def read (l : List UInt8) (i : Nat) : Mac :=
  ⟨l.getD i 0, l.getD (i + 1) 0, l.getD (i + 2) 0, l.getD (i + 3) 0, l.getD (i + 4) 0,
    l.getD (i + 5) 0⟩

def bytes (m : Mac) : List UInt8 := [m.b0, m.b1, m.b2, m.b3, m.b4, m.b5]

/-- The bit of broadcast and multicast addresses. -/
def group (m : Mac) : Bool := m.b0 &&& 1 ≠ 0

end Mac

def ethBcast : Mac := ⟨0xff, 0xff, 0xff, 0xff, 0xff, 0xff⟩

structure NetDev where
  mac : Mac
  ip : UInt32
  mask : UInt32
  mtu : UInt16

abbrev Devs := DevIdx → NetDev

/-- The directed broadcast address of the interface. -/
def NetDev.subnetBcast (d : NetDev) : UInt32 := d.ip ||| ~~~d.mask

def toBe16 (x : UInt16) : List UInt8 := [(x >>> 8).toUInt8, x.toUInt8]

def toBe32 (x : UInt32) : List UInt8 :=
  [(x >>> 24).toUInt8, (x >>> 16).toUInt8, (x >>> 8).toUInt8, x.toUInt8]

structure EthFrame where
  dev : DevIdx
  dst : Mac
  src : Mac
  type : UInt16
  payload : List UInt8

def EthFrame.bytes (f : EthFrame) : List UInt8 :=
  f.dst.bytes ++ f.src.bytes ++ toBe16 f.type ++ f.payload

/-- The frame `eth_output` transmits; the header is pushed in front of the
packet. -/
def ethFrame (devs : Devs) (dev : DevIdx) (dst : Mac) (type : UInt16) (p : Pkt) :
    Except Fault EthFrame := do
  let _ ← pktPush p (dst.bytes ++ (devs dev).mac.bytes ++ toBe16 type)
  return { dev := dev, dst := dst, src := (devs dev).mac, type := type, payload := p.data }

/-- A frame is built when there is room for its header. -/
theorem ethFrame_eq (devs : Devs) (dev : DevIdx) (dst : Mac) (type : UInt16) (p : Pkt) :
    ethFrame devs dev dst type p =
      if ethHdrLen ≤ p.head then
        .ok { dev := dev, dst := dst, src := (devs dev).mac, type := type, payload := p.data }
      else .error (.assert .push) := by
  have hlen : (dst.bytes ++ (devs dev).mac.bytes ++ toBe16 type).length = ethHdrLen := rfl
  unfold ethFrame pktPush
  by_cases h : ethHdrLen ≤ p.head
  · rw [if_pos h, dif_pos (hlen.trans_le h)]
    rfl
  · rw [if_neg h, dif_neg (fun hle => h (hlen.symm.trans_le hle))]
    rfl

end PacketForge
