import PacketForge.Lib.Checked
import Mathlib.Tactic

/-!
Packet buffers (`pkt.c`). A packet is the valid bytes at `data` and the room in
front of them; the rest of the fixed buffer is behind. Where the source asserts
something of a buffer, the operation here stops at a fault, and so does an
access to a received packet outside its valid bytes.
-/

namespace PacketForge

open Checked

abbrev pktBufSize : Nat := 4096
abbrev pktRxOffset : Nat := 2
abbrev pktTxHeadroom : Nat := 128

/-- The operations that assert something of a buffer. -/
inductive PktOp where
  | reserve | push | pull | put | trim
deriving DecidableEq, Repr

/-- Where the code would leave defined behaviour: a failed `PF_ASSERT`, a read
outside the valid bytes of a packet, a negative length, a write outside a
reassembly buffer, or a null device; and a loop that makes no progress. -/
inductive Fault where
  | assert (op : PktOp)
  | read
  | negative
  | write
  | null
  | stuck
deriving DecidableEq, Repr

/-- The `n` bytes from an offset of some valid bytes, read through a pointer. -/
def readAt (l : List UInt8) (off n : Nat) : Except Fault (List UInt8) :=
  if off + n ≤ l.length then .ok ((l.drop off).take n) else .error .read

theorem readAt_ok {l : List UInt8} {off n : Nat} (h : off + n ≤ l.length) :
    readAt l off n = .ok ((l.drop off).take n) := if_pos h

/-- A `memcpy` of `n` bytes to an offset of a buffer. -/
def writeAt (off n cap : Nat) : Except Fault Unit := if off + n ≤ cap then .ok () else .error .write

theorem writeAt_ok {off n cap : Nat} (h : off + n ≤ cap) : writeAt off n cap = .ok () := if_pos h

/-- `struct pkt`: `head` is the room in front of `data`, whose length is `len`. -/
structure Pkt where
  head : Nat
  data : List UInt8
  fits : head + data.length ≤ pktBufSize

namespace Pkt

def len (p : Pkt) : Nat := p.data.length

def tailroom (p : Pkt) : Nat := pktBufSize - p.head - p.len

/-- The `n` bytes from an offset, read through a pointer into the packet. -/
def view (p : Pkt) (off n : Nat) : Except Fault (List UInt8) := readAt p.data off n

theorem view_ok {p : Pkt} {off n : Nat} (h : off + n ≤ p.len) :
    p.view off n = .ok ((p.data.drop off).take n) := readAt_ok h

theorem keep_fits (p : Pkt) (n : Nat) : p.head + (p.data.take n).length ≤ pktBufSize := by
  have hfits := p.fits
  rw [List.length_take]
  omega

def keep (p : Pkt) (n : Nat) : Pkt := ⟨p.head, p.data.take n, p.keep_fits n⟩

theorem skip_fits {p : Pkt} {n : Nat} (h : n ≤ p.len) :
    p.head + n + (p.data.drop n).length ≤ pktBufSize := by
  have hfits := p.fits
  unfold Pkt.len at h
  rw [List.length_drop]
  omega

def skip (p : Pkt) (n : Nat) (h : n ≤ p.len) : Pkt := ⟨p.head + n, p.data.drop n, skip_fits h⟩

theorem skip_len (p : Pkt) (n : Nat) (h : n ≤ p.len) : (p.skip n h).len = p.len - n :=
  List.length_drop

theorem len_le (p : Pkt) : p.len ≤ pktBufSize := by
  have h := p.fits
  unfold len
  omega

end Pkt

def Pkt.edit (p : Pkt) (data : List UInt8) (h : data.length = p.data.length) : Pkt :=
  ⟨p.head, data, h ▸ p.fits⟩

/-- `a - b` where the code relies on `b` being at most `a`. -/
def subLen (a b : Nat) : Except Fault Nat := if b ≤ a then .ok (a - b) else .error .negative

theorem subLen_ok {a b : Nat} (h : b ≤ a) : subLen a b = .ok (a - b) := if_pos h

/-- A received frame: what is read into a buffer at `PKT_RX_OFFSET`. -/
structure RxFrame where
  bytes : List UInt8
  fits : bytes.length ≤ pktBufSize - pktRxOffset

theorem RxFrame.pkt_fits (f : RxFrame) : pktRxOffset + f.bytes.length ≤ pktBufSize := by
  have h : f.bytes.length ≤ 4094 := f.fits
  change 2 + f.bytes.length ≤ 4096
  omega

def RxFrame.pkt (f : RxFrame) : Pkt := ⟨pktRxOffset, f.bytes, f.pkt_fits⟩

/-! ### The operations -/

theorem pktAlloc_fits : pktRxOffset + ([] : List UInt8).length ≤ pktBufSize := by decide

def pktAlloc : Pkt := ⟨pktRxOffset, [], pktAlloc_fits⟩

/-- Set the headroom of an empty packet. -/
def pktReserve (p : Pkt) (headroom : Nat) : Except Fault Pkt :=
  if h : p.data = [] ∧ headroom ≤ pktBufSize then
    .ok ⟨headroom, [], by simpa using h.2⟩
  else .error (.assert .reserve)

def pktPush (p : Pkt) (hdr : List UInt8) : Except Fault Pkt :=
  if h : hdr.length ≤ p.head then
    .ok ⟨p.head - hdr.length, hdr ++ p.data, by
      have hfits := p.fits
      rw [List.length_append]
      omega⟩
  else .error (.assert .push)

def pktPull (p : Pkt) (n : Nat) : Except Fault Pkt :=
  if h : n ≤ p.len then .ok (p.skip n h) else .error (.assert .pull)

def pktPut (p : Pkt) (bytes : List UInt8) : Except Fault Pkt :=
  if h : bytes.length ≤ p.tailroom then
    .ok ⟨p.head, p.data ++ bytes, by
      have hfits := p.fits
      unfold Pkt.tailroom Pkt.len at h
      rw [List.length_append]
      omega⟩
  else .error (.assert .put)

def pktTrim (p : Pkt) (newlen : Nat) : Except Fault Pkt :=
  if newlen ≤ p.len then .ok (p.keep newlen) else .error (.assert .trim)

def pktTx (bytes : List UInt8) : Except Fault Pkt := do
  let p ← pktReserve pktAlloc pktTxHeadroom
  pktPut p bytes

/-! ### When they succeed -/

theorem pktPush_post {p : Pkt} {hdr : List UInt8} (h : hdr.length ≤ p.head) (F : Fault → Prop) :
    Post F (fun q => q.head = p.head - hdr.length ∧ q.data = hdr ++ p.data) (pktPush p hdr) := by
  rw [pktPush, dif_pos h]
  exact ⟨rfl, rfl⟩

theorem pktPull_ok {p : Pkt} {n : Nat} (h : n ≤ p.len) : pktPull p n = .ok (p.skip n h) := dif_pos h

theorem pktTrim_ok {p : Pkt} {n : Nat} (h : n ≤ p.len) : pktTrim p n = .ok (p.keep n) := if_pos h

theorem pktPut_post {p : Pkt} {bytes : List UInt8} (h : bytes.length ≤ p.tailroom)
    (F : Fault → Prop) :
    Post F (fun q => q.head = p.head ∧ q.data = p.data ++ bytes) (pktPut p bytes) := by
  rw [pktPut, dif_pos h]
  exact ⟨rfl, rfl⟩

theorem pktReserve_alloc (F : Fault → Prop) :
    Post F (fun q => q.head = pktTxHeadroom ∧ q.data = []) (pktReserve pktAlloc pktTxHeadroom) := by
  have h : pktAlloc.data = [] ∧ pktTxHeadroom ≤ pktBufSize := ⟨rfl, by decide⟩
  rw [pktReserve, dif_pos h]
  exact ⟨rfl, rfl⟩

/-- What is built behind the transmit headroom fits up to 3968 bytes. -/
theorem pktTx_post {bytes : List UInt8} (h : bytes.length ≤ pktBufSize - pktTxHeadroom)
    (F : Fault → Prop) :
    Post F (fun q => q.head = pktTxHeadroom ∧ q.data = bytes) (pktTx bytes) := by
  unfold pktTx
  refine Post.bind (pktReserve_alloc F) fun p hp => ?_
  obtain ⟨hhead, hdata⟩ := hp
  have hroom : bytes.length ≤ p.tailroom := by
    rw [Pkt.tailroom, Pkt.len, hhead, hdata]
    exact h
  refine Post.imp (pktPut_post hroom F) fun q hq => ?_
  rw [hhead, hdata] at hq
  exact hq

theorem pktTx_error {bytes : List UInt8} (h : pktBufSize - pktTxHeadroom < bytes.length) :
    pktTx bytes = .error (.assert .put) := by
  obtain ⟨p, hp, hhead, hdata⟩ := (pktReserve_alloc fun _ => False).exists_ok
  have hroom : ¬ bytes.length ≤ p.tailroom := by
    rw [Pkt.tailroom, Pkt.len, hhead, hdata]
    exact Nat.not_le_of_lt h
  have hput : pktPut p bytes = .error (.assert .put) := dif_neg hroom
  rw [pktTx, hp]
  exact hput

end PacketForge
