import PacketForge.Core.Stats
import PacketForge.Eth.Frame

/-!
Address resolution (`arp.c`): a cache of 64 entries keyed by IP address, with
the packets parked behind the entries that are still to be resolved. The state
is the cache, the counters and the frames transmitted. Beside them `acts`
records what the module did, newest first; no function reads it.
-/

namespace PacketForge

open Checked

abbrev arpHdrLen : Nat := 28
abbrev arpOpRequest : UInt16 := 1
abbrev arpOpReply : UInt16 := 2
abbrev arpCacheSize : Nat := 64
abbrev arpCacheTtlMs : Nat := 60000
abbrev arpPendingRetryMs : Nat := 1000
abbrev arpPendingMaxTries : UInt8 := 3
abbrev arpWaitqMax : Nat := 8

theorem arpCacheSize_pos : 0 < arpCacheSize := Nat.succ_pos _

inductive ArpState where
  | free | pending | resolved
deriving DecidableEq, Repr

/-- A packet in a wait queue, with the interface `arp_resolve` was asked for. -/
structure WaitPkt where
  dev : DevIdx
  pkt : Pkt

structure ArpEntry where
  state : ArpState
  ip : UInt32
  mac : Mac
  tries : UInt8
  dev : Option DevIdx
  deadlineMs : Nat
  waitq : List WaitPkt

/-- An entry after `memset` and `pktq_init`. -/
def ArpEntry.zero : ArpEntry where
  state := .free
  ip := 0
  mac := .zero
  tries := 0
  dev := none
  deadlineMs := 0
  waitq := []

abbrev ArpIdx := Fin arpCacheSize

abbrev ArpCache := ArpIdx → ArpEntry

inductive ArpAct where
  /-- An entry for the address became PENDING. -/
  | opened (ip : UInt32)
  /-- A request for the address went out. -/
  | asked (dev : DevIdx) (ip : UInt32)
  /-- A packet was put behind the resolution of the address. -/
  | parked (ip : UInt32) (q : WaitPkt)
  /-- A parked packet was transmitted on an interface. -/
  | flushed (ip : UInt32) (dev : DevIdx) (q : WaitPkt)
  /-- An ARP packet on an interface advertised the address. -/
  | heard (dev : DevIdx) (ip : UInt32) (mac : Mac)
  /-- The address was resolved on an interface for a caller. -/
  | answered (dev : DevIdx) (ip : UInt32) (mac : Mac)

structure Arp where
  entries : ArpCache
  stats : Stats
  tx : List EthFrame
  acts : List ArpAct

def Arp.init (stats : Stats) : Arp where
  entries := fun _ => ArpEntry.zero
  stats := stats
  tx := []
  acts := []

namespace Arp

def count (a : Arp) (s : Stat) : Arp := { a with stats := a.stats.inc s }

def countBy (a : Arp) (s : Stat) (n : UInt64) : Arp := { a with stats := a.stats.add s n }

def setEntry (a : Arp) (i : ArpIdx) (e : ArpEntry) : Arp :=
  { a with entries := Function.update a.entries i e }

def note (a : Arp) (x : ArpAct) : Arp := { a with acts := x :: a.acts }

def ethOutput (a : Arp) (devs : Devs) (dev : DevIdx) (dst : Mac) (type : UInt16) (p : Pkt) :
    Except Fault Arp := do
  let f ← ethFrame devs dev dst type p
  return { a.count .ethTxFrames with tx := a.tx ++ [f] }

end Arp

/-! ### The cache -/

def arpLookup (c : ArpCache) (ip : UInt32) : Option ArpIdx :=
  Slots.first fun i => (c i).state ≠ .free ∧ (c i).ip = ip

def arpFreeSlot (c : ArpCache) : Option ArpIdx := Slots.first fun i => (c i).state = .free

/-- The first entry with the earliest deadline. -/
def arpVictim (c : ArpCache) : ArpIdx :=
  (List.finRange arpCacheSize).foldl
    (fun victim i => if (c i).deadlineMs < (c victim).deadlineMs then i else victim)
    ⟨0, arpCacheSize_pos⟩

/-- The first free slot, else that of the entry closest to expiry, whose parked
packets are freed. -/
def arpAllocEntry (a : Arp) : ArpIdx × Arp :=
  match arpFreeSlot a.entries with
  | some i => (i, a)
  | none =>
    (arpVictim a.entries,
      (a.count .arpCacheEvictions).setEntry (arpVictim a.entries) ArpEntry.zero)

/-- The loop that transmits what was parked behind an entry. -/
def arpFlush (devs : Devs) (i : ArpIdx) (dev : DevIdx) : List WaitPkt → Arp → Except Fault Arp
  | [], a => .ok a
  | q :: rest, a => do
    let e := a.entries i
    let a ← (a.setEntry i { e with waitq := rest }).ethOutput devs dev e.mac ethTypeIp4 q.pkt
    arpFlush devs i dev rest (a.note (.flushed e.ip dev q))

def arpEntryResolve (devs : Devs) (i : ArpIdx) (dev : DevIdx) (mac : Mac) (now : Nat) (a : Arp) :
    Except Fault Arp :=
  let e := a.entries i
  let a := a.setEntry i
    { e with
      state := .resolved
      mac := mac
      dev := some dev
      deadlineMs := now + arpCacheTtlMs
      tries := 0 }
  if e.state = .pending then arpFlush devs i dev e.waitq a else .ok a

/-! ### Sending -/

/-- The wire image of `struct arp_hdr`. -/
def arpBytes (op : UInt16) (sha : Mac) (spa : UInt32) (tha : Mac) (tpa : UInt32) : List UInt8 :=
  toBe16 1 ++ toBe16 ethTypeIp4 ++ [6, 4] ++ toBe16 op ++ sha.bytes ++ toBe32 spa ++ tha.bytes ++
    toBe32 tpa

def arpSendRequest (devs : Devs) (dev : DevIdx) (targetIp : UInt32) (a : Arp) :
    Except Fault Arp := do
  let p ← pktTx (arpBytes arpOpRequest (devs dev).mac (devs dev).ip .zero targetIp)
  let a ← (a.count .arpRequestsTx).ethOutput devs dev ethBcast ethTypeArp p
  return a.note (.asked dev targetIp)

def arpSendReply (devs : Devs) (dev : DevIdx) (sha : Mac) (spa : UInt32) (a : Arp) :
    Except Fault Arp := do
  let p ← pktTx (arpBytes arpOpReply (devs dev).mac (devs dev).ip sha spa)
  (a.count .arpRepliesTx).ethOutput devs dev sha ethTypeArp p

/-! ### Receiving -/

/-- What `arp_input` uses of a packet. -/
structure ArpPkt where
  op : UInt16
  sha : Mac
  spa : UInt32
  tpa : UInt32

/-- The header checks of `arp_input`, `none` for a malformed packet. -/
def arpParse (ah : List UInt8) : Option ArpPkt :=
  if be16 ah 0 ≠ 1 ∨ be16 ah 2 ≠ ethTypeIp4 ∨ ah.getD 4 0 ≠ 6 ∨ ah.getD 5 0 ≠ 4 then none
  else if be16 ah 6 ≠ arpOpRequest ∧ be16 ah 6 ≠ arpOpReply then none
  else some { op := be16 ah 6, sha := Mac.read ah 8, spa := be32 ah 14, tpa := be32 ah 24 }

/-- Whether we are the target. -/
def ArpPkt.forUs (q : ArpPkt) (d : NetDev) : Bool := d.ip ≠ 0 && q.tpa = d.ip

/-- The merge of RFC 826: any packet updates a mapping, only one for us creates
it, and the address 0 is never learnt. -/
def arpMerge (devs : Devs) (now : Nat) (dev : DevIdx) (q : ArpPkt) (a : Arp) : Except Fault Arp :=
  if q.spa = 0 then .ok a
  else
    match arpLookup a.entries q.spa with
    | some i => arpEntryResolve devs i dev q.sha now a
    | none =>
      if q.forUs (devs dev) then
        let (i, a) := arpAllocEntry a
        arpEntryResolve devs i dev q.sha now (a.setEntry i { a.entries i with ip := q.spa })
      else .ok a

def arpAnswer (devs : Devs) (dev : DevIdx) (q : ArpPkt) (a : Arp) : Except Fault Arp :=
  if q.forUs (devs dev) ∧ q.op = arpOpRequest then
    arpSendReply devs dev q.sha q.spa (a.count .arpReqForUs)
  else if q.op = arpOpReply then .ok (a.count .arpRepliesRx)
  else .ok a

def arpInput (devs : Devs) (now : Nat) (dev : DevIdx) (p : Pkt) (a : Arp) : Except Fault Arp :=
  let a := a.count .arpRx
  if p.len < arpHdrLen then .ok (a.count .arpRxMalformed)
  else do
    let ah ← p.view 0 arpHdrLen
    match arpParse ah with
    | none => .ok (a.count .arpRxMalformed)
    | some q =>
      let a ← arpMerge devs now dev q (a.note (.heard dev q.spa q.sha))
      arpAnswer devs dev q a

/-! ### Resolving -/

/-- Put a packet behind entry `i`; a full queue drops its oldest packet. -/
def arpPark (i : ArpIdx) (q : WaitPkt) (a : Arp) : Arp :=
  let e := a.entries i
  let (a, waitq) :=
    if e.waitq.length ≥ arpWaitqMax then (a.count .arpWaitqDrops, e.waitq.tail) else (a, e.waitq)
  ((a.setEntry i { e with waitq := waitq ++ [q] }).count .arpPktsQueued).note (.parked e.ip q)

/-- A new PENDING entry, with the first request for it. -/
def arpOpen (devs : Devs) (now : Nat) (dev : DevIdx) (nextHop : UInt32) (a : Arp) :
    Except Fault (ArpIdx × Arp) := do
  let (i, a) := arpAllocEntry a
  let a := (a.setEntry i
    { a.entries i with
      state := .pending
      ip := nextHop
      dev := some dev
      tries := 1
      deadlineMs := now + arpPendingRetryMs }).note (.opened nextHop)
  return (i, ← arpSendRequest devs dev nextHop a)

/-- `arp_resolve`: the address, or `none` when the packet was consumed. -/
def arpResolve (devs : Devs) (now : Nat) (dev : DevIdx) (nextHop : UInt32) (p : Option Pkt)
    (a : Arp) : Except Fault (Arp × Option Mac) := do
  match arpLookup a.entries nextHop with
  | some i =>
    let e := a.entries i
    if e.state = .resolved then .ok (a.note (.answered dev nextHop e.mac), some e.mac)
    else .ok (p.elim a fun p => arpPark i ⟨dev, p⟩ a, none)
  | none =>
    let (i, a) ← arpOpen devs now dev nextHop a
    return (p.elim a fun p => arpPark i ⟨dev, p⟩ a, none)

/-! ### The timer -/

/-- The visit of one entry by the tick. -/
def arpVisit (devs : Devs) (now : Nat) (a : Arp) (i : ArpIdx) : Except Fault Arp :=
  let e := a.entries i
  if e.state = .free ∨ now < e.deadlineMs then .ok a
  else if e.state = .resolved then
    .ok ((a.setEntry i { e with state := .free }).count .arpCacheExpired)
  else if e.tries ≥ arpPendingMaxTries then
    .ok
      (((a.count .arpResolveFails).countBy .arpWaitqDrops (UInt64.ofNat e.waitq.length)).setEntry i
        { e with waitq := [], state := .free })
  else
    let a := a.setEntry i { e with tries := e.tries + 1, deadlineMs := now + arpPendingRetryMs }
    match e.dev with
    | none => .error .null
    | some dev => arpSendRequest devs dev e.ip a

def arpTick (devs : Devs) (now : Nat) (a : Arp) : Except Fault Arp :=
  (List.finRange arpCacheSize).foldlM (arpVisit devs now) a

/-! ### Runs -/

/-- A call of the module, with the interfaces as configured at that time. -/
inductive ArpEvent where
  | input (devs : Devs) (now : Nat) (dev : DevIdx) (p : Pkt)
  | resolve (devs : Devs) (now : Nat) (dev : DevIdx) (nextHop : UInt32) (p : Option Pkt)
  | tick (devs : Devs) (now : Nat)

def arpStep (a : Arp) : ArpEvent → Except Fault Arp
  | .input devs now dev p => arpInput devs now dev p a
  | .resolve devs now dev nextHop p => (·.1) <$> arpResolve devs now dev nextHop p a
  | .tick devs now => arpTick devs now a

end PacketForge
