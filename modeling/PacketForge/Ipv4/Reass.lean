import PacketForge.Core.Stats
import PacketForge.Ipv4.Checksum
import PacketForge.Lib.Intervals
import PacketForge.Lib.Run
import PacketForge.Route.Fib

/-!
Reassembly of fragments (`ip_reass.c`). A table of eight contexts collects the
fragments of datagrams with the same source, destination, identification and
protocol. What the code hands to other layers is kept in order: the datagrams
given to `ip_local_deliver`, and the headers for which a time-exceeded message
is asked of ICMP.
-/

namespace PacketForge

open Intervals

abbrev ipReassCtxs : Nat := 8
abbrev ipReassTimeoutMs : Nat := 15000
abbrev ipReassMaxRanges : Nat := 32
abbrev ipReassMaxPayload : Nat := 4000

theorem ipReassCtxs_pos : 0 < ipReassCtxs := Nat.succ_pos _

/-! ### Datagrams -/

/-- The reassembly key: source, destination, identification, protocol. -/
structure ReassKey where
  src : UInt32
  dst : UInt32
  id : UInt16
  proto : UInt8
deriving DecidableEq, Repr

def ipHdrLen (l : List UInt8) : Nat := ((l.getD 0 0 &&& 0x0f) * 4 : UInt8).toNat

def ipKey (l : List UInt8) : ReassKey where
  src := be32 l 12
  dst := be32 l 16
  id := be16 l 4
  proto := l.getD 9 0

/-- A datagram that passed the length checks of `ip_input`. -/
structure Datagram where
  bytes : List UInt8
  hdr_min : 20 ≤ ipHdrLen bytes
  hdr_le : ipHdrLen bytes ≤ bytes.length
  len_lt : bytes.length < 65536

namespace Datagram

variable (d : Datagram)

def hdrLen : Nat := ipHdrLen d.bytes

def key : ReassKey := ipKey d.bytes

/-- `frag_off`: two flags and the offset in units of 8 bytes. -/
def frag : UInt16 := be16 d.bytes 6

def off : Nat := ((d.frag &&& 0x1fff) * 8).toNat

def mf : Bool := d.frag &&& 0x2000 ≠ 0

def hdr : List UInt8 := d.bytes.take d.hdrLen

def payload : List UInt8 := d.bytes.drop d.hdrLen

def paylen : Nat := d.payload.length

def stop : Nat := d.off + d.paylen

/-- The bytes of the datagram that the fragment carries. -/
def range : Nat × Nat := (d.off, d.stop)

def wellFormed : Bool := d.paylen ≠ 0 ∧ (d.mf → d.paylen % 8 = 0)

end Datagram

/-! ### Contexts -/

/-- `struct ip_reass_ctx`. `expectedTotal` is `none` for -1, `ranges` is the
array up to `nranges`, and `hdr` the first `hdr_len` bytes of the header. -/
structure ReassCtx where
  inUse : Bool
  key : ReassKey
  dev : Option DevIdx
  deadline : Nat
  haveFirst : Bool
  expectedTotal : Option Nat
  ranges : List (Nat × Nat)
  hdr : List UInt8
  payload : Nat → UInt8

def ReassCtx.zero : ReassCtx where
  inUse := false
  key := ⟨0, 0, 0, 0⟩
  dev := none
  deadline := 0
  haveFirst := false
  expectedTotal := some 0
  ranges := []
  hdr := []
  payload := fun _ => 0

/-- `struct ip_reass` with the effects of its functions. -/
structure Reass where
  ctxs : Fin ipReassCtxs → ReassCtx
  stats : Stats
  delivered : List (Option DevIdx × List UInt8)
  timeExceeded : List (List UInt8)

def Reass.init (stats : Stats) : Reass where
  ctxs := fun _ => ReassCtx.zero
  stats := stats
  delivered := []
  timeExceeded := []

def Reass.count (r : Reass) (s : Stat) : Reass := { r with stats := r.stats.inc s }

def Reass.setCtx (r : Reass) (i : Fin ipReassCtxs) (c : ReassCtx) : Reass :=
  { r with ctxs := Function.update r.ctxs i c }

def ctxRelease (r : Reass) (i : Fin ipReassCtxs) : Reass := r.setCtx i ReassCtx.zero

def ctxFind (r : Reass) (k : ReassKey) : Option (Fin ipReassCtxs) :=
  Slots.first fun i => (r.ctxs i).inUse ∧ (r.ctxs i).key = k

def ctxVictim (r : Reass) : Fin ipReassCtxs :=
  (List.finRange ipReassCtxs).foldl
    (fun victim i => if (r.ctxs i).deadline < (r.ctxs victim).deadline then i else victim)
    ⟨0, ipReassCtxs_pos⟩

/-- Take a context; `heap` is what `malloc` leaves in the payload buffer. -/
def ctxTake (r : Reass) (heap : Nat → UInt8) (i : Fin ipReassCtxs) : Reass :=
  r.setCtx i { r.ctxs i with inUse := true, expectedTotal := none, payload := heap }

/-- The first free context, or that of a datagram that is given up. -/
def ctxAlloc (r : Reass) (heap : Nat → UInt8) : Fin ipReassCtxs × Reass :=
  match Slots.first fun i => !(r.ctxs i).inUse with
  | some i => (i, ctxTake r heap i)
  | none =>
    (ctxVictim r, ctxTake (ctxRelease (r.count .ipReassEvicted) (ctxVictim r)) heap (ctxVictim r))

/-- The context of the fragment's key, made where there is none. -/
def ctxFor (r : Reass) (now : Nat) (dev : Option DevIdx) (heap : Nat → UInt8) (d : Datagram) :
    Fin ipReassCtxs × Reass :=
  match ctxFind r d.key with
  | some i => (i, r)
  | none =>
    let (i, r) := ctxAlloc r heap
    (i, r.setCtx i { r.ctxs i with key := d.key, dev := dev, deadline := now + ipReassTimeoutMs })

/-- `ranges_insert`, `none` where the context must die. -/
def rangesInsert (ranges : List (Nat × Nat)) (x : Nat × Nat) : Option (List (Nat × Nat)) :=
  match insertApart x ranges with
  | none => none
  | some l => if ranges.length ≥ ipReassMaxRanges then none else some (coalesce l)

/-- `memcpy` of a fragment's payload to its place. -/
def copyPayload (payload : Nat → UInt8) (d : Datagram) : Nat → UInt8 := fun x =>
  if d.off ≤ x ∧ x < d.stop then d.payload.getD (x - d.off) 0 else payload x

def ReassCtx.pin (c : ReassCtx) (d : Datagram) : ReassCtx :=
  if d.mf then c else { c with expectedTotal := some d.stop }

def ReassCtx.store (c : ReassCtx) (d : Datagram) (ranges : List (Nat × Nat)) : ReassCtx :=
  { c with
    ranges := ranges
    payload := copyPayload c.payload d
    haveFirst := c.haveFirst || d.off = 0
    hdr := if d.off = 0 then d.hdr else c.hdr }

/-- Put a fragment into its context. An error is counted, and the context is
released. -/
def ctxAdd (c : ReassCtx) (d : Datagram) : Except Stat ReassCtx :=
  if d.stop > ipReassMaxPayload then .error .ipReassTooBig
  else if !d.mf ∧ c.expectedTotal.any (· ≠ d.stop) then .error .ipReassOverlapDrops
  else if (c.pin d).expectedTotal.any (· < d.stop) then .error .ipReassOverlapDrops
  else
    match rangesInsert c.ranges d.range with
    | none => .error .ipReassOverlapDrops
    | some ranges => .ok ((c.pin d).store d ranges)

/-- Every byte up to the total is there. -/
def ReassCtx.complete (c : ReassCtx) : Bool :=
  c.haveFirst ∧ c.expectedTotal.any fun total => c.ranges = [(0, total)]

/-- The header of the rebuilt datagram: fragmentation cleared, length and
checksum corrected. -/
def rebuiltHdr (hdr : List UInt8) (total : Nat) : List UInt8 :=
  let ih := putBe16 (putBe16 (putBe16 hdr 2 (UInt16.ofNat (hdr.length + total))) 6 0) 10 0
  putBe16 ih 10 (inetCsum ih)

/-- The datagram that `deliver_complete` hands up. -/
def ReassCtx.datagram (c : ReassCtx) : List UInt8 :=
  let total := c.expectedTotal.getD 0
  rebuiltHdr c.hdr total ++ (List.range total).map c.payload

def deliverComplete (r : Reass) (i : Fin ipReassCtxs) : Reass :=
  let c := r.ctxs i
  let r := ctxRelease (r.count .ipReassCompleted) i
  { r with delivered := r.delivered ++ [(c.dev, c.datagram)] }

def ipReassInput (r : Reass) (now : Nat) (dev : Option DevIdx) (heap : Nat → UInt8) (d : Datagram) :
    Reass :=
  if !d.wellFormed then r.count .ipReassBadFrag
  else
    let (i, r) := ctxFor r now dev heap d
    match ctxAdd (r.ctxs i) d with
    | .error s => ctxRelease (r.count s) i
    | .ok c =>
      let r := r.setCtx i c
      if c.complete then deliverComplete r i else r

/-- What a time-exceeded message quotes: the header and at most 8 bytes. -/
def ReassCtx.quote (c : ReassCtx) : List UInt8 :=
  let data8 := match c.ranges with
    | (0, stop) :: _ => min 8 stop
    | _ => 0
  c.hdr ++ (List.range data8).map c.payload

/-- The visit of one context by the tick. -/
def ipReassExpire (now : Nat) (r : Reass) (i : Fin ipReassCtxs) : Reass :=
  let c := r.ctxs i
  if !c.inUse ∨ now < c.deadline then r
  else
    let r := r.count .ipReassTimeouts
    let r := if c.haveFirst then { r with timeExceeded := r.timeExceeded ++ [c.quote] } else r
    ctxRelease r i

def ipReassTick (r : Reass) (now : Nat) : Reass := Slots.each (ipReassExpire now) r

/-! ### Runs -/

inductive ReassEvent where
  | frag (now : Nat) (dev : Option DevIdx) (heap : Nat → UInt8) (d : Datagram)
  | tick (now : Nat)

def reassStep (r : Reass) : ReassEvent → Reass
  | .frag now dev heap d => ipReassInput r now dev heap d
  | .tick now => ipReassTick r now

end PacketForge
