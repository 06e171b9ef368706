import PacketForge.Core.Stats
import PacketForge.Lib.RingBuf
import PacketForge.Lib.SeqSpace

/-!
The data model of the TCP module: header flags, connection states, segments
and transmission control blocks, with the constants of `tcp.h`. Sequence
numbers, windows and ring indices are the 32-bit unsigned integers of the
source, so that every subtraction wraps where it does there. Clock readings
are milliseconds as natural numbers. A pointer to another control block is its
slot in the table, and a null pointer is `none`.
-/

namespace PacketForge

/-! ### Constants of `tcp.h` and `sock.h` -/

abbrev tcpHdrMin : Nat := 20
abbrev tcpMaxConns : Nat := 16
abbrev tcpDefaultMss : UInt16 := 536
abbrev tcpOurMss : UInt16 := 1460
abbrev tcpSndbuf : Nat := 65535
abbrev tcpRcvbuf : Nat := 65535
abbrev tcpOooMax : Nat := 16
abbrev tcpAcceptQlen : Nat := 8
abbrev tcpRtoMinMs : Int := 200
abbrev tcpRtoMaxMs : Nat := 60000
abbrev tcpRtoInitialMs : UInt32 := 1000
abbrev tcpClockGMs : Int := 10
abbrev tcpMaxRtx : UInt32 := 10
abbrev tcpMslMs : Nat := 5000
abbrev tcpDelackMs : Nat := 40
abbrev pfSockMax : Nat := 32

abbrev tcpFin : UInt8 := 0x01
abbrev tcpSyn : UInt8 := 0x02
abbrev tcpRst : UInt8 := 0x04
abbrev tcpPsh : UInt8 := 0x08
abbrev tcpAck : UInt8 := 0x10

abbrev tcpOptEnd : UInt8 := 0
abbrev tcpOptNop : UInt8 := 1
abbrev tcpOptMss : UInt8 := 2

def pfMin (a b : UInt32) : UInt32 := if a < b then a else b

def pfMax (a b : UInt32) : UInt32 := if a > b then a else b

/-! ### Modular comparisons -/

def seqLt (a b : UInt32) : Bool := (a - b).toInt32 < 0

def seqLe (a b : UInt32) : Bool := (a - b).toInt32 ≤ 0

def seqGt (a b : UInt32) : Bool := (a - b).toInt32 > 0

def seqGe (a b : UInt32) : Bool := (a - b).toInt32 ≥ 0

/-! ### Types -/

inductive TcpState where
  | closed | listen | synSent | synRcvd | established | finWait1 | finWait2
  | closeWait | closing | lastAck | timeWait
deriving DecidableEq, Repr

/-- The states in which `tcp_output` transmits. -/
def TcpState.sends : TcpState → Bool
  | .established | .closeWait | .finWait1 | .lastAck => true
  | _ => false

/-- The states in which `tcp_input` takes segment text. -/
def TcpState.takesData : TcpState → Bool
  | .established | .finWait1 | .finWait2 => true
  | _ => false

/-- The `PF_E*` codes a socket keeps after its connection went away. -/
inductive PfErr where
  | none | connReset | connRefused | timedOut
deriving DecidableEq, Repr

/-- One TCP segment with the addresses of the datagram that carries it. The
length of a received payload is computed in 16 bits, and so is the length of a
sent one. -/
structure Seg where
  src : UInt32
  dst : UInt32
  sport : UInt16
  dport : UInt16
  seq : UInt32
  ack : UInt32
  flags : UInt8
  wnd : UInt16
  opts : List UInt8
  payload : List UInt8
  payload_lt : payload.length < 2 ^ 16

namespace Seg

theorem empty_payload_lt : ([] : List UInt8).length < 2 ^ 16 := by decide

def has (g : Seg) (f : UInt8) : Bool := g.flags &&& f != 0

def paylen (g : Seg) : UInt32 := UInt32.ofNat g.payload.length

/-- `seg_seqlen`: SYN and FIN each occupy one sequence number. -/
def seqlen (g : Seg) : UInt32 :=
  g.paylen + (if g.has tcpSyn then 1 else 0) + (if g.has tcpFin then 1 else 0)

end Seg

/-- A parked out-of-order packet: its sequence number (`u32`) and its bytes. -/
structure OooPkt where
  seq : UInt32
  data : List UInt8

/-- `struct tcp_cb`. The two rings are the buffers behind `sndbuf` and
`rcvbuf`; `acceptq` holds `acceptq[0 .. acceptq_n)`. -/
structure Tcb where
  active : Bool
  state : TcpState
  sockIdx : Option (Fin pfSockMax)
  localIp : UInt32
  remoteIp : UInt32
  localPort : UInt16
  remotePort : UInt16
  iss : UInt32
  sndUna : UInt32
  sndNxt : UInt32
  sndWnd : UInt32
  sndWl1 : UInt32
  sndWl2 : UInt32
  irs : UInt32
  rcvNxt : UInt32
  rcvWndAdvertised : UInt16
  mss : UInt16
  sndbuf : Nat → UInt8
  sndHead : UInt32
  sndLen : UInt32
  finQueued : Bool
  finSent : Bool
  rcvbuf : Nat → UInt8
  rcvHead : UInt32
  rcvLen : UInt32
  rcvEof : Bool
  ooo : List OooPkt
  srttMs : Int
  rttvarMs : Int
  rtoMs : UInt32
  rtoDeadline : Nat
  rtxCount : UInt32
  rttTiming : Bool
  rttSeq : UInt32
  rttStartMs : Nat
  cwnd : UInt32
  ssthresh : UInt32
  dupacks : UInt32
  nodelay : Bool
  timewaitDeadline : Nat
  delackDeadline : Nat
  delackPending : UInt8
  backlog : UInt16
  acceptq : List (Fin tcpMaxConns)
  listener : Option (Fin tcpMaxConns)

/-- A control block after `memset(t, 0, sizeof(*t))`. Note that the socket
index is then zero, not the `-1` of a detached block. -/
def Tcb.zero : Tcb where
  active := false
  state := .closed
  sockIdx := some 0
  localIp := 0
  remoteIp := 0
  localPort := 0
  remotePort := 0
  iss := 0
  sndUna := 0
  sndNxt := 0
  sndWnd := 0
  sndWl1 := 0
  sndWl2 := 0
  irs := 0
  rcvNxt := 0
  rcvWndAdvertised := 0
  mss := 0
  sndbuf := fun _ => 0
  sndHead := 0
  sndLen := 0
  finQueued := false
  finSent := false
  rcvbuf := fun _ => 0
  rcvHead := 0
  rcvLen := 0
  rcvEof := false
  ooo := []
  srttMs := 0
  rttvarMs := 0
  rtoMs := 0
  rtoDeadline := 0
  rtxCount := 0
  rttTiming := false
  rttSeq := 0
  rttStartMs := 0
  cwnd := 0
  ssthresh := 0
  dupacks := 0
  nodelay := false
  timewaitDeadline := 0
  delackDeadline := 0
  delackPending := 0
  backlog := 0
  acceptq := []
  listener := none

/-- The control block `tcb_alloc` returns. The malloc'd rings hold arbitrary
bytes; here they are zero. -/
def Tcb.fresh : Tcb :=
  { Tcb.zero with
    active := true
    state := .closed
    sockIdx := none
    mss := tcpDefaultMss
    srttMs := -1
    rttvarMs := -1
    rtoMs := tcpRtoInitialMs
    ssthresh := 0xffffffff
    cwnd := 4 * 536 }

/-- What became of a control block while one event was processed. -/
inductive Fate where
  | alive
  | freed (err : PfErr)
deriving DecidableEq, Repr

/-- One connection while an event is processed: its control block, the
segments handed to `ip_output` so far (oldest first), the counters, whether
the block was freed, whether it was appended to its listener's accept queue,
and whether a packet buffer assertion failed. -/
structure Conn where
  tcb : Tcb
  out : List Seg
  stats : Stats
  fate : Fate
  queued : Bool
  panicked : Bool

namespace Conn

def start (t : Tcb) (st : Stats) : Conn :=
  { tcb := t, out := [], stats := st, fate := .alive, queued := false, panicked := false }

def count (c : Conn) (s : Stat) : Conn := { c with stats := c.stats.inc s }

def countBy (c : Conn) (s : Stat) (n : UInt64) : Conn := { c with stats := c.stats.add s n }

def emit (c : Conn) (g : Seg) : Conn := { c with out := c.out ++ [g] }

def setCwnd (c : Conn) (cwnd : UInt32) : Conn := { c with tcb := { c.tcb with cwnd := cwnd } }

def setSsthresh (c : Conn) (ssthresh : UInt32) : Conn :=
  { c with tcb := { c.tcb with ssthresh := ssthresh } }

def setDupacks (c : Conn) (n : UInt32) : Conn := { c with tcb := { c.tcb with dupacks := n } }

def setState (c : Conn) (st : TcpState) : Conn := { c with tcb := { c.tcb with state := st } }

def setUna (c : Conn) (una : UInt32) : Conn := { c with tcb := { c.tcb with sndUna := una } }

/-- `tcb_free` of a block that is not a listener, once its socket has been
told `err`. The table performs the detaching and the `memset`. -/
def free (c : Conn) (err : PfErr) : Conn := { c with fate := .freed err }

end Conn

/-! ### What the comparisons decide -/

theorem seqLt_iff (a b : UInt32) : seqLt a b = true ↔ 2 ^ 31 ≤ (a - b).toNat := by
  simp only [seqLt, decide_eq_true_eq]
  exact SeqSpace.toInt32_neg_iff _

/-- The distance the other way round. Half the sequence space counts as
less in both directions. -/
theorem seqLt_iff_rev (a b : UInt32) :
    seqLt a b = true ↔ 0 < (b - a).toNat ∧ (b - a).toNat ≤ 2 ^ 31 := by
  have hneg : (a - b).toNat = (2 ^ 32 - (b - a).toNat) % 2 ^ 32 := by
    rw [← UInt32.neg_sub, UInt32.toNat_neg]
    rfl
  have hlt := (b - a).toNat_lt
  rw [seqLt_iff, hneg]
  omega

theorem seqGe_iff (a b : UInt32) : seqGe a b = true ↔ (a - b).toNat < 2 ^ 31 := by
  have h := SeqSpace.toInt32_neg_iff (a - b)
  simp only [seqGe, decide_eq_true_eq, ge_iff_le]
  rw [← Int32.not_lt, h]
  omega

theorem seqLe_iff (a b : UInt32) :
    seqLe a b = true ↔ (a - b).toNat = 0 ∨ 2 ^ 31 ≤ (a - b).toNat := by
  simp only [seqLe, decide_eq_true_eq]
  rw [Int32.le_iff_lt_or_eq, SeqSpace.toInt32_neg_iff, SeqSpace.toInt32_eq_zero_iff]
  exact or_comm

theorem seqGt_iff (a b : UInt32) :
    seqGt a b = true ↔ 0 < (a - b).toNat ∧ (a - b).toNat < 2 ^ 31 := by
  have h := seqLe_iff a b
  simp only [seqLe, decide_eq_true_eq] at h
  simp only [seqGt, decide_eq_true_eq, gt_iff_lt]
  rw [← Int32.not_le, h]
  omega

section Positions

variable (base : UInt32) {i j : Nat}

/-- Positions after one base compare as numbers while they are less than half
the sequence space apart. -/
theorem seqLt_pos (hi : i < j + 2 ^ 31) (hj : j ≤ i + 2 ^ 31) :
    seqLt (SeqSpace.pos base i) (SeqSpace.pos base j) = true ↔ i < j := by
  simp only [seqLt, decide_eq_true_eq]
  exact SeqSpace.pos_sub_neg_iff base hi hj

theorem seqGe_pos (hi : i < j + 2 ^ 31) (hj : j ≤ i + 2 ^ 31) :
    seqGe (SeqSpace.pos base i) (SeqSpace.pos base j) = true ↔ j ≤ i := by
  have h := seqLt_pos base hi hj
  rw [seqLt_iff] at h
  rw [seqGe_iff]
  omega

theorem seqLe_pos (hi : i < j + 2 ^ 31) (hj : j ≤ i + 2 ^ 31) :
    seqLe (SeqSpace.pos base i) (SeqSpace.pos base j) = true ↔ i ≤ j := by
  have h := seqLt_pos base hi hj
  rw [seqLt_iff] at h
  rw [seqLe_iff]
  have hz : (SeqSpace.pos base i - SeqSpace.pos base j).toNat = 0 ↔ i = j := by
    rw [← SeqSpace.pos_inj base (i := i) (j := j) (by omega) (by omega)]
    exact SeqSpace.toNat_sub_eq_zero_iff _ _
  omega

theorem seqGt_pos (hi : i < j + 2 ^ 31) (hj : j ≤ i + 2 ^ 31) :
    seqGt (SeqSpace.pos base i) (SeqSpace.pos base j) = true ↔ j < i := by
  have h := seqLe_pos base hi hj
  rw [seqLe_iff] at h
  rw [seqGt_iff]
  omega

end Positions

/-! ### Minimum and maximum -/

theorem pfMin_toNat (a b : UInt32) : (pfMin a b).toNat = min a.toNat b.toNat := by
  unfold pfMin
  split <;> rename_i h <;> rw [UInt32.lt_iff_toNat_lt] at h <;> omega

theorem pfMax_toNat (a b : UInt32) : (pfMax a b).toNat = max a.toNat b.toNat := by
  unfold pfMax
  split <;> rename_i h <;> rw [gt_iff_lt, UInt32.lt_iff_toNat_lt] at h <;> omega

end PacketForge
