import PacketForge.Host.Bookkeeping
import PacketForge.Host.Traffic

/-!
Segments that a blind attacker can send, and the retransmitted FIN. What is
outside the window, a reset that does not name `rcv_nxt` and a SYN are answered
with a pure acknowledgement and leave the connection as it is. A retransmitted
FIN lies before the window, so in TIME_WAIT it meets the same fate: it is
acknowledged and nothing else happens.
-/

namespace PacketForge

/-- A segment without RST that carries SYN, a reset that does not name `rcv_nxt`,
or a segment outside the window. -/
def Blind (t : Tcb) (g : Seg) : Prop :=
  segAcceptable t g = false ∨ (g.has tcpRst = true ∧ g.seq ≠ t.rcvNxt) ∨
    (g.has tcpRst = false ∧ g.has tcpSyn = true)

instance (t : Tcb) (g : Seg) : Decidable (Blind t g) := inferInstanceAs (Decidable (_ ∨ _))

/-- The segment is a pure acknowledgement of everything received. -/
structure PureAck (t : Tcb) (r : Seg) : Prop where
  flags : r.flags = tcpAck
  ack : r.ack = t.rcvNxt
  payload : r.payload = []

/-- The block with other values in the fields that an acknowledgement sets. -/
def Tcb.withAck (t : Tcb) (pending : UInt8) (deadline : Nat) (wnd : UInt16) : Tcb :=
  { t with delackPending := pending, delackDeadline := deadline, rcvWndAdvertised := wnd }

/-- At most an acknowledgement was sent for the block in slot `i`, and all fields
that sending one does not touch are as before. -/
structure Unharmed (i : TcbIdx) (h k : Host) : Prop where
  tcbs : ∃ pending deadline wnd,
    k.tcbs = Function.update h.tcbs i ((h.tcbs i).withAck pending deadline wnd)
  socks : k.socks = h.socks
  out : k.out = h.out ∨ ∃ r, k.out = h.out ++ [r] ∧ PureAck (h.tcbs i) r

/-! ### One connection -/

section Conn

variable {c : Conn} {g : Seg}

/-- The segments `rs` were sent, and no field changed that an acknowledgement does
not set. -/
structure Answered (rs : List Seg) (c d : Conn) : Prop where
  fate : d.fate = c.fate
  queued : d.queued = c.queued
  tcb : ∃ pending deadline wnd, d.tcb = c.tcb.withAck pending deadline wnd
  out : d.out = c.out ++ rs

theorem Answered.quiet (c : Conn) (x : Stat) : Answered [] c (c.count x) :=
  ⟨rfl, rfl, ⟨_, _, _, rfl⟩, (List.append_nil _).symm⟩

theorem tcpSegment_pureAck (t : Tcb) (seq : UInt32) : PureAck t (tcpSegment t tcpAck seq 0 0) := by
  refine ⟨rfl, rfl, ?_⟩
  have hlen : (tcpSegment t tcpAck seq 0 0).payload.length = 0 := RingBuf.read_length _ _ _ _
  exact List.length_eq_zero_iff.mp hlen

theorem ackSent_withAck (t : Tcb) : ackSent tcpAck t = t.withAck 0 0 (tcpRcvWindow t) := if_pos rfl

theorem Answered.ack (c : Conn) (st : Stats) :
    ∃ r, PureAck c.tcb r ∧ Answered [r] c (tcpSendCtl { c with stats := st } tcpAck) := by
  have hemit (w : UInt16) (r : Seg) (x : UInt64) :
      Answered [r] c (((Conn.count { c with stats := st, tcb := c.tcb.withAck 0 0 w }
        .tcpTxSegs).countBy .tcpTxBytes x).emit r) :=
    ⟨rfl, rfl, ⟨0, 0, w, rfl⟩, rfl⟩
  unfold tcpSendCtl tcpSendSegment
  simp only [ackSent_withAck]
  exact ⟨_, tcpSegment_pureAck c.tcb _, hemit _ _ _⟩

theorem tcpInputConn_outside (now : Nat) (lroom : Option Bool) (hst : c.tcb.state ≠ .synSent)
    (hout : segAcceptable c.tcb g = false) :
    tcpInputConn now lroom g c =
      if g.has tcpRst then c.count .tcpRxOutOfWindow
      else tcpSendCtl (c.count .tcpRxOutOfWindow) tcpAck := by
  unfold tcpInputConn
  rw [if_neg hst, if_pos (by simp [hout])]

/-- What a blind segment does to a connection past SYN_SENT. -/
theorem tcpInputConn_blind (now : Nat) (lroom : Option Bool) (hst : c.tcb.state ≠ .synSent)
    (hblind : Blind c.tcb g) :
    Answered [] c (tcpInputConn now lroom g c) ∨
      ∃ r, PureAck c.tcb r ∧ Answered [r] c (tcpInputConn now lroom g c) := by
  cases hacc : segAcceptable c.tcb g with
  | false =>
    rw [tcpInputConn_outside now lroom hst hacc]
    split
    · exact Or.inl (.quiet c _)
    · exact Or.inr (Answered.ack c _)
  | true =>
    right
    unfold tcpInputConn
    rw [if_neg hst, if_neg (by simp [hacc])]
    rcases hblind with hout | ⟨hrst, hseq⟩ | ⟨hrst, hsyn⟩
    · rw [hacc] at hout
      cases hout
    · have hother : ¬ g.seq = (c.count .tcpRstRx).tcb.rcvNxt := hseq
      rw [if_pos hrst]
      unfold tcpInputRst
      simp only
      rw [if_neg hother]
      exact Answered.ack c _
    · rw [if_neg (by simp [hrst]), if_pos hsyn]
      exact Answered.ack c _

end Conn

/-! ### The host -/

section Host

variable {h : Host} {now : Nat} {g : Seg} {i : TcbIdx}

theorem tcpInput_conn (hfind : tcbLookup h g.dst g.dport g.src g.sport = some i)
    (hst : (h.tcbs i).state ≠ .listen) : ∃ st,
    tcpInput now g h = (h.count .tcpRxSegs).commit i
      (tcpInputConn now (acceptRoom h i) g (Conn.start (h.tcbs i) st)) := by
  have hcounted : (h.count .tcpRxSegs).tcbs = h.tcbs := rfl
  unfold tcpInput
  simp only
  rw [tcbLookup_tcbs hcounted, hfind]
  simp only
  rw [hcounted, if_neg hst]
  exact ⟨_, rfl⟩

theorem Answered.commit {d : Conn} {st : Stats} {rs : List Seg} (hst : (h.tcbs i).state ≠ .listen)
    (hd : Answered rs (Conn.start (h.tcbs i) st) d) :
    (∃ pending deadline wnd, ((h.count .tcpRxSegs).commit i d).tcbs =
      Function.update h.tcbs i ((h.tcbs i).withAck pending deadline wnd)) ∧
    ((h.count .tcpRxSegs).commit i d).socks = h.socks ∧
    ((h.count .tcpRxSegs).commit i d).out = h.out ++ rs := by
  obtain ⟨pending, deadline, wnd, htcb⟩ := hd.tcb
  have htables := commit_alive (h := h.count .tcpRxSegs) (i := i) hd.fate hd.queued
  have hleaf : d.tcb.state ≠ .listen := by
    rw [htcb]
    exact hst
  refine ⟨⟨pending, deadline, wnd, ?_⟩, congrArg Tables.socks htables, ?_⟩
  · have htcbs := congrArg Tables.tcbs htables
    rw [htcb] at htcbs
    exact htcbs
  · rw [Host.commit_out _ hleaf, hd.out]
    rfl

/-- The blind segments leave a connection alone; a reset from outside the window
goes unanswered, and only one that names `rcv_nxt` destroys the block. -/
theorem blind_segment_unharmed (hfind : tcbLookup h g.dst g.dport g.src g.sport = some i)
    (hst : (h.tcbs i).state ≠ .listen) (hsyn : (h.tcbs i).state ≠ .synSent) :
    (Blind (h.tcbs i) g → Unharmed i h (tcpInput now g h)) ∧
    (segAcceptable (h.tcbs i) g = false → g.has tcpRst = true →
      (tcpInput now g h).tcbs = h.tcbs ∧ (tcpInput now g h).socks = h.socks ∧
        (tcpInput now g h).out = h.out) ∧
    (g.has tcpRst = true → ((tcpInput now g h).tcbs i).active = false →
      g.seq = (h.tcbs i).rcvNxt) := by
  obtain ⟨st, hrun⟩ : ∃ st, tcpInput now g h = _ := tcpInput_conn hfind hst
  have hunharmed (hblind : Blind (h.tcbs i) g) : Unharmed i h (tcpInput now g h) := by
    rw [hrun]
    rcases tcpInputConn_blind (c := Conn.start (h.tcbs i) st) now (acceptRoom h i) hsyn hblind
      with hd | ⟨r, hr, hd⟩
    · obtain ⟨htcbs, hsocks, hout⟩ := hd.commit hst
      exact ⟨htcbs, hsocks, Or.inl (hout.trans (List.append_nil _))⟩
    · obtain ⟨htcbs, hsocks, hout⟩ := hd.commit hst
      exact ⟨htcbs, hsocks, Or.inr ⟨r, hout, hr⟩⟩
  refine ⟨hunharmed, fun hacc hrst => ?_, fun hrst hgone => ?_⟩
  · have hquiet : Answered [] (Conn.start (h.tcbs i) st)
        ((Conn.start (h.tcbs i) st).count .tcpRxOutOfWindow) := .quiet _ _
    have htables := commit_alive (h := h.count .tcpRxSegs) (i := i)
      (c := (Conn.start (h.tcbs i) st).count .tcpRxOutOfWindow) rfl rfl
    obtain ⟨-, hsocks, hout⟩ := hquiet.commit hst
    rw [hrun, tcpInputConn_outside (c := Conn.start (h.tcbs i) st) now _ hsyn hacc, if_pos hrst]
    refine ⟨?_, hsocks, hout.trans (List.append_nil _)⟩
    exact (congrArg Tables.tcbs htables).trans (Function.update_eq_self i h.tcbs)
  · by_contra hseq
    obtain ⟨pending, deadline, wnd, htcbs⟩ := (hunharmed (Or.inr (Or.inl ⟨hrst, hseq⟩))).tcbs
    rw [htcbs, Function.update_self] at hgone
    change (h.tcbs i).active = false at hgone
    have hact : (h.tcbs i).active = true := (tcbLookup_some hfind).1
    cases hact.symm.trans hgone

/-- An embryonic connection gets a reset that lies in its window but does not
name the next byte. -/
theorem blind_segment_unharmed_reset :
    Unharmed 1 embryoHost (tcpInput 2 (clientSeg tcpRst 302 0) embryoHost) :=
  (blind_segment_unharmed (by decide +kernel) (by decide +kernel) (by decide +kernel)).1
    (by decide +kernel)

/-! ### A repeated FIN -/

/-- A retransmission of the peer's FIN, with or without data before it. -/
structure RepeatsFin (t : Tcb) (g : Seg) : Prop where
  fin : g.has tcpFin = true
  ack : g.has tcpAck = true
  rst : g.has tcpRst = false
  syn : g.has tcpSyn = false
  seq : g.seq + g.paylen + 1 = t.rcvNxt
  acks : g.ack = t.sndNxt

/-- The FIN was taken, so that all of the segment lies before the window. -/
theorem RepeatsFin.outside {t : Tcb} (hfin : RepeatsFin t g) : segAcceptable t g = false := by
  have hlen : g.seqlen = g.paylen + 1 := by
    rw [Seg.seqlen, hfin.syn, hfin.fin]
    simp
  have hpay : g.paylen.toNat < 2 ^ 16 := by
    rw [Seg.paylen, UInt32.toNat_ofNat_of_lt' (lt_trans g.payload_lt (by decide))]
    exact g.payload_lt
  have hfirst : seqGe g.seq t.rcvNxt = false := by
    rw [← Bool.not_eq_true, seqGe_iff, ← hfin.seq, UInt32.toNat_sub, UInt32.toNat_add,
      UInt32.toNat_add, UInt32.toNat_one]
    omega
  have hlast : seqGe (g.seq + g.seqlen - 1) t.rcvNxt = false := by
    have hback : g.seq + g.seqlen - 1 = t.rcvNxt - 1 := by rw [hlen, ← hfin.seq, UInt32.add_assoc]
    have hlt := t.rcvNxt.toNat_lt
    rw [← Bool.not_eq_true, seqGe_iff, hback, UInt32.toNat_sub, UInt32.toNat_sub, UInt32.toNat_one]
    omega
  have hne : g.seqlen ≠ 0 := by
    rw [hlen, ← UInt32.toNat_inj.ne, UInt32.toNat_add, UInt32.toNat_one, UInt32.toNat_zero]
    omega
  simp [segAcceptable, hne, hfirst, hlast]

/-- TIME_WAIT answers the repeated FIN but leaves its deadline alone. -/
theorem repeated_fin_restarts_iff (hfind : tcbLookup h g.dst g.dport g.src g.sport = some i)
    (hst : (h.tcbs i).state = .timeWait) (hfin : RepeatsFin (h.tcbs i) g) :
    ((∃ r, (tcpInput now g h).out = h.out ++ [r] ∧ PureAck (h.tcbs i) r) ∧
      ((tcpInput now g h).tcbs i).timewaitDeadline = now + 2 * tcpMslMs) ↔
    (h.tcbs i).timewaitDeadline = now + 2 * tcpMslMs := by
  have hlisten : (h.tcbs i).state ≠ .listen := by simp [hst]
  have hsyn : (h.tcbs i).state ≠ .synSent := by simp [hst]
  obtain ⟨st, hrun⟩ : ∃ st, tcpInput now g h = _ := tcpInput_conn hfind hlisten
  rw [hrun, tcpInputConn_outside (c := Conn.start (h.tcbs i) st) now _ hsyn hfin.outside,
    if_neg (by simp [hfin.rst])]
  obtain ⟨r, hr, hd⟩ : ∃ r, _ ∧ Answered [r] (Conn.start (h.tcbs i) st)
    (tcpSendCtl ((Conn.start (h.tcbs i) st).count .tcpRxOutOfWindow) tcpAck) := Answered.ack _ _
  obtain ⟨⟨pending, deadline, wnd, htcbs⟩, -, hout⟩ := hd.commit hlisten
  rw [htcbs, hout, Function.update_self]
  exact and_iff_right ⟨r, rfl, hr⟩

theorem one_lt_tcpMaxConns : 1 < tcpMaxConns := by decide

/-- The ISS of the embryonic connection, which is in slot 1. -/
def embryoIss : UInt32 := (embryoHost.tcbs ⟨1, one_lt_tcpMaxConns⟩).iss

/-- The embryonic connection of `embryoEvents` is established, accepted and
closed on both sides, the server's side first. -/
def closedEvents : List HostEvent :=
  embryoEvents ++ [.segment 2 (clientSeg tcpAck 301 (embryoIss + 1)), .call 3 (.accept 0),
    .call 4 (.close 1), .segment 5 (clientSeg (tcpFin ||| tcpAck) 301 (embryoIss + 2))]

def closedHost : Host := closedEvents.foldl hostStep Host.init

/-- The client's FIN once more, as it was sent the first time. -/
def repeatedFin : Seg := clientSeg (tcpFin ||| tcpAck) 301 (embryoIss + 2)

theorem repeatedFin_repeats : RepeatsFin (closedHost.tcbs 1) repeatedFin := by
  constructor <;> decide +kernel

/-- In the millisecond that TIME_WAIT began the deadline is what it would be set to. -/
theorem repeated_fin_restarts_iff_at_once :
    ((tcpInput 5 repeatedFin closedHost).tcbs 1).timewaitDeadline = 5 + 2 * tcpMslMs :=
  ((repeated_fin_restarts_iff (h := closedHost) (i := 1) (by decide +kernel)
    (by decide +kernel) repeatedFin_repeats).2 (by decide +kernel)).2

/-- A second later it is not set. -/
theorem repeated_fin_ignored :
    tcbLookup closedHost 1 7 2 4000 = some 1 ∧ (closedHost.tcbs 1).state = .timeWait ∧
      RepeatsFin (closedHost.tcbs 1) repeatedFin ∧
      ((tcpInput 1005 repeatedFin closedHost).tcbs 1).timewaitDeadline = 5 + 2 * tcpMslMs :=
  ⟨by decide +kernel, by decide +kernel, repeatedFin_repeats, by decide +kernel⟩

end Host

end PacketForge
