import PacketForge.Tcp.Receiver
import PacketForge.Tcp.SenderRun

/-!
The receiving side over whole runs of a connection. A history is a connection
with all bytes its application has read. Segments reach it in any order, lost,
repeated, cut and overlapping at will, as long as their text is that of one
stream `S`.
-/

namespace PacketForge

open SeqSpace (pos)
open Stream (slice)

/-! ### The handshake -/

/-- Before the peer's SYN nothing has arrived. -/
structure Blank (D : List UInt8) (v : RecvView) : Prop where
  state : v.state = .synSent
  head : v.head = 0
  len : v.len = 0
  eof : v.eof = false
  ooo : v.ooo = []
  read : D = []

/-- The invariant of the receiving side. -/
def RecvOk (S D : List UInt8) (v : RecvView) : Prop := Blank D v ∨ Received S D v

section Events

variable {S D : List UInt8}

/-- The peer's SYN starts its stream. -/
theorem Blank.start {v : RecvView} (h : Blank D v) (S : List UInt8) {st : TcpState} (seq : UInt32)
    (hst : st = .established ∨ st = .synRcvd) :
    Received S D { v with state := st, irs := seq, nxt := seq + 1 } := by
  have hlen : v.len.toNat = 0 := by rw [h.len]; rfl
  have hnone : st ≠ .synSent ∧ st.pastFin = false := by
    rcases hst with rfl | rfl <;> exact ⟨by decide, rfl⟩
  refine ⟨⟨?_, ?_, ?_, ?_, hnone.1, h.eof.trans hnone.2.symm, ?_⟩, ?_⟩
  · simp [h.head]
  · simp [hlen]
  · simp [h.read, hlen, RingBuf.contents_zero]
  · simp [h.read, hlen, h.eof, SeqSpace.pos_zero]
  · simp [h.eof]
  · simp [h.ooo, Parked]

theorem tcpInputSynSent_recvOk {c : Conn} (h : Blank D c.recv) (now : Nat) (g : Seg) :
    RecvOk S D (tcpInputSynSent now g c).recv := by
  rcases tcpInputSynSent_recv now g c with hview | ⟨-, -, st, hst, hview⟩ <;> rw [hview]
  · exact Or.inl h
  · exact Or.inr (h.start S g.seq hst)

theorem Received.stateOnly {v w : RecvView} (h : Received S D v) (hw : StateOnly v w) :
    Received S D w := by
  obtain ⟨st, hne, hpast, rfl⟩ := hw
  exact h.setState hne hpast

theorem tcpInputConn_received {c : Conn} (h : Received S D c.recv) (now : Nat)
    (lroom : Option Bool) (g : Seg) (hg : g.has tcpSyn = false → Carries S D c.recv g) :
    Received S D (tcpInputConn now lroom g c).recv := by
  cases htext : textStep now lroom g c with
  | none => exact h.stateOnly (textStep_started h.started htext)
  | some d =>
    obtain ⟨hview, heq⟩ := textStep_eq htext
    have hd := h.stateOnly hview
    have hgd : Carries S D d.recv g := by
      obtain ⟨st, -, -, hview⟩ := hview
      rw [hview]
      exact hg (textStep_syn htext)
    rw [heq]
    exact tcpInputFin_received (tcpInputText_received hd hgd now) hgd
      (tcpInputText_same now g d).irs hd.len_le now

/-! ### The application -/

theorem Parked.widen {base : UInt32} {hi hi' lo : Nat} {qs : List OooPkt}
    (h : Parked S base hi lo qs) (hle : hi ≤ hi') : Parked S base hi' lo qs := by
  induction qs generalizing lo with
  | nil => trivial
  | cons q qs ih =>
    obtain ⟨p, hlo, hseq, hpos, hdata, hS, hhi, hrest⟩ := h
    exact ⟨p, hlo, hseq, hpos, hdata, hS, hhi.trans hle, ih hrest⟩

theorem recvAmount_le (t : Tcb) (cap : Nat) : (recvAmount t cap).toNat ≤ t.rcvLen.toNat := by
  rw [recvAmount, pfMin_toNat]
  exact Nat.min_le_right _ _

theorem Received.read {v : RecvView} (h : Received S D v) {n : UInt32}
    (hn : n.toNat ≤ v.len.toNat) : Received S (D ++ RingBuf.read 65535 v.buf v.head.toNat n.toNat)
      { v with head := (v.head + n) % 65535, len := v.len - n } := by
  have hl := h.len_le
  have hh := h.head_lt
  have hlen : (v.len - n).toNat = v.len.toNat - n.toNat :=
    UInt32.toNat_sub_of_le _ _ (by rw [UInt32.le_iff_toNat_le]; exact hn)
  have hcap : (65535 : UInt32).toNat = 65535 := rfl
  have hhead : ((v.head + n) % 65535).toNat = (v.head.toNat + n.toNat) % 65535 := by
    rw [UInt32.toNat_mod, UInt32.toNat_add, hcap, Nat.mod_eq_of_lt (a := _ + _) (by omega)]
  have hrest : (D ++ RingBuf.read 65535 v.buf v.head.toNat n.toNat).length + (v.len - n).toNat =
      D.length + v.len.toNat := by
    rw [List.length_append, RingBuf.read_length, hlen]
    omega
  refine ⟨⟨?_, ?_, ?_, ?_, h.started, h.eof_state, ?_⟩, ?_⟩
  · simp only [hhead]
    exact Nat.mod_lt _ (by decide)
  · simp only [hlen]
    omega
  · simp only [hhead, hlen]
    rw [RingBuf.read_eq_contents v.buf hh (by omega), RingBuf.contents_take v.buf hn,
      RingBuf.contents_advance v.buf hn, List.append_assoc, List.take_append_drop]
    exact h.bytes
  · simp only [hrest]
    exact h.nxt
  · simp only [hrest]
    exact h.eof_end
  · simp only [hrest]
    refine h.parked.widen ?_
    rw [List.length_append]
    omega

theorem pfRecvCopy_received {c : Conn} (h : Received S D c.recv) (cap : Nat) :
    Received S (D ++ recvBytes c.tcb cap) (pfRecvCopy cap c).recv := by
  have hn : (recvAmount c.tcb cap).toNat ≤ c.recv.len.toNat := recvAmount_le c.tcb cap
  have hrelease (n : UInt32) : (rcvRelease n c).recv =
      { c.recv with head := (c.recv.head + n) % 65535, len := c.recv.len - n } := rfl
  rw [pfRecvCopy_recv]
  split
  · rw [hrelease]
    exact h.read hn
  · rename_i hempty
    have hzero : (recvAmount c.tcb cap).toNat = 0 := by
      have hlen : c.tcb.rcvLen.toNat = 0 := by
        rw [gt_iff_lt, UInt32.lt_iff_toNat_lt] at hempty
        simpa using hempty
      exact Nat.le_zero.mp (hlen ▸ recvAmount_le c.tcb cap)
    have hnone : recvBytes c.tcb cap = [] := by
      apply List.eq_nil_of_length_eq_zero
      rw [recvBytes, RingBuf.read_length, hzero]
    rw [hnone, List.append_nil]
    exact h

/-- A blank ring gives the application nothing. -/
theorem recvBytes_blank {c : Conn} (h : Blank D c.recv) (cap : Nat) :
    recvBytes c.tcb cap = [] ∧ (pfRecvCopy cap c).recv = c.recv := by
  have hlen : c.tcb.rcvLen = 0 := h.len
  have hzero : (recvAmount c.tcb cap).toNat = 0 := by
    have hle := recvAmount_le c.tcb cap
    rw [hlen] at hle
    exact Nat.le_zero.mp hle
  refine ⟨?_, ?_⟩
  · apply List.eq_nil_of_length_eq_zero
    rw [recvBytes, RingBuf.read_length, hzero]
  · rw [pfRecvCopy_recv, if_neg (by rw [hlen]; decide)]

/-- Beside segments and reads a close is all there is. -/
theorem RecvOk.unheard {c : Conn} {e : ConnEvent} {w : RecvView} (h : RecvOk S D c.recv)
    (hw : Unheard c e w) (he : ∀ cap, e ≠ .recv cap) : RecvOk S D w := by
  cases hw with
  | same => exact h
  | read cap => exact absurd rfl (he cap)
  | closes now hst hw =>
    rcases h with h | h
    · exact absurd h.state hst
    · exact Or.inr (h.stateOnly hw)

/-- The event is not a segment that contradicts the stream: text and FIN of a
segment past the peer's SYN are those of `S`. -/
def OnStream (S D : List UInt8) (c : Conn) (e : ConnEvent) : Prop :=
  ∀ now lroom g, e = .segment now lroom g → c.fate = .alive → c.tcb.state ≠ .synSent →
    g.has tcpSyn = false → Carries S D c.recv g

theorem connStep_recvOk {c : Conn} (h : RecvOk S D c.recv) (e : ConnEvent)
    (hon : OnStream S D c e) : RecvOk S (D ++ returned c e) (connStep c e).recv := by
  have hstart : (Conn.start c.tcb c.stats).recv = c.recv := rfl
  cases hfate : c.fate with
  | freed err =>
    have hnone : returned c e = [] := by
      cases e <;> simp [returned, hfate]
    have hdead : (connStep c e).recv = c.recv := by
      simp only [connStep, hfate]
      rfl
    rw [hnone, List.append_nil, hdead]
    exact h
  | alive =>
    rw [← hstart] at h
    simp only [connStep, hfate]
    cases e with
    | segment now lroom g =>
      simp only [returned, List.append_nil, connHandle]
      rcases h with h | h
      · have hsent : (Conn.start c.tcb c.stats).tcb.state = .synSent := h.state
        rw [tcpInputConn, if_pos hsent]
        exact tcpInputSynSent_recvOk h now g
      · exact Or.inr (tcpInputConn_received h now lroom g
          (hon now lroom g rfl hfate h.started))
    | recv cap =>
      have hret : returned c (.recv cap) = recvBytes (Conn.start c.tcb c.stats).tcb cap := by
        simp only [returned, hfate, if_true]
        rfl
      rw [hret]
      simp only [connHandle]
      rcases h with h | h
      · obtain ⟨hnone, hv⟩ := recvBytes_blank h cap
        rw [hnone, List.append_nil, hv]
        exact Or.inl h
      · exact Or.inr (pfRecvCopy_received h cap)
    | tick | send | close | nodelay | attach =>
      simp only [returned, List.append_nil]
      exact h.unheard (connHandle_unheard _ (by simp)) (by simp)

end Events

/-! ### Where the stream begins and ends -/

/-- The peer's stream goes on: its first sequence number stays, and it ends only
with a FIN. -/
structure Continues (fin : Bool) (v v' : RecvView) : Prop where
  started : v'.state ≠ .synSent
  irs : v'.irs = v.irs
  eof : v'.eof = true → v.eof = true ∨ fin = true

theorem tcpInputFin_continues (now : Nat) (g : Seg) {c : Conn} (hst : c.recv.state ≠ .synSent) :
    Continues (g.has tcpFin) c.recv (tcpInputFin now g c).recv := by
  unfold tcpInputFin
  split
  · rename_i hfin
    have hhas : g.has tcpFin = true := by
      simp only [finInOrder, Bool.and_eq_true] at hfin
      exact hfin.1.1
    rw [tcpTakeFin_recv]
    refine ⟨?_, rfl, fun _ => Or.inr hhas⟩
    revert hst
    cases c.recv.state <;> simp [rxFinState]
  · exact ⟨hst, rfl, Or.inl⟩

theorem tcpInputConn_continues (now : Nat) (lroom : Option Bool) (g : Seg) (c : Conn)
    (hst : c.recv.state ≠ .synSent) :
    Continues (g.has tcpFin) c.recv (tcpInputConn now lroom g c).recv := by
  cases htext : textStep now lroom g c with
  | none =>
    obtain ⟨st, hne, -, hview⟩ := textStep_started hst htext
    rw [hview]
    exact ⟨hne, rfl, Or.inl⟩
  | some d =>
    obtain ⟨⟨st, hne, -, hview⟩, heq⟩ := textStep_eq htext
    have hsame := tcpInputText_same now g d
    rw [hview] at hsame
    have hfin := tcpInputFin_continues now g (hsame.state.trans_ne hne)
    rw [heq]
    exact ⟨hfin.started, hfin.irs.trans hsame.irs,
      fun h => (hfin.eof h).imp_left hsame.eof.symm.trans⟩

theorem Unheard.continues {c : Conn} {e : ConnEvent} {w : RecvView} (hw : Unheard c e w)
    (hst : c.recv.state ≠ .synSent) : Continues false c.recv w := by
  cases hw with
  | same | read => exact ⟨hst, rfl, Or.inl⟩
  | closes now _ hw =>
    obtain ⟨st, hne, -, rfl⟩ := hw
    exact ⟨hne, rfl, Or.inl⟩

theorem connStep_continues (c : Conn) (e : ConnEvent) (hst : c.recv.state ≠ .synSent) :
    (connStep c e).recv.state ≠ .synSent ∧ (connStep c e).recv.irs = c.recv.irs ∧
      ((connStep c e).recv.eof = true → c.recv.eof = true ∨
        ∃ now lroom g, e = .segment now lroom g ∧ g.has tcpFin = true) := by
  cases hfate : c.fate with
  | freed err =>
    simp only [connStep, hfate]
    exact ⟨hst, rfl, Or.inl⟩
  | alive =>
    simp only [connStep, hfate]
    by_cases hseg : ∃ now lroom g, e = .segment now lroom g
    · obtain ⟨now, lroom, g, rfl⟩ := hseg
      have hcont := tcpInputConn_continues now lroom g (Conn.start c.tcb c.stats) hst
      refine ⟨hcont.started, hcont.irs, fun h => (hcont.eof h).imp_right fun hfin => ?_⟩
      exact ⟨now, lroom, g, rfl, hfin⟩
    · have hcont := (connHandle_unheard (Conn.start c.tcb c.stats) (e := e)
        fun now lroom g he => hseg ⟨now, lroom, g, he⟩).continues hst
      exact ⟨hcont.started, hcont.irs,
        fun h => Or.inl ((hcont.eof h).resolve_right Bool.false_ne_true)⟩

/-- SYN_SENT is left for a SYN only, which numbers the peer's stream. -/
structure Begins (c : Conn) (e : ConnEvent) (v : RecvView) : Prop where
  syn : v.state = .synSent ∨
    ∃ now lroom g, e = .segment now lroom g ∧ g.has tcpSyn = true ∧ v.irs = g.seq
  eof : v.eof = c.recv.eof

theorem connStep_begins (c : Conn) (e : ConnEvent) (hst : c.recv.state = .synSent) :
    Begins c e (connStep c e).recv := by
  cases hfate : c.fate with
  | freed err =>
    simp only [connStep, hfate]
    exact ⟨Or.inl hst, rfl⟩
  | alive =>
    simp only [connStep, hfate]
    by_cases hseg : ∃ now lroom g, e = .segment now lroom g
    · obtain ⟨now, lroom, g, rfl⟩ := hseg
      have hin : tcpInputConn now lroom g (Conn.start c.tcb c.stats) =
          tcpInputSynSent now g (Conn.start c.tcb c.stats) := if_pos hst
      simp only [connHandle, hin]
      rcases tcpInputSynSent_recv now g (Conn.start c.tcb c.stats) with
        hview | ⟨hsyn, -, st, -, hview⟩ <;> rw [hview]
      · exact ⟨Or.inl hst, rfl⟩
      · exact ⟨Or.inr ⟨now, lroom, g, rfl, hsyn, rfl⟩, rfl⟩
    · have hw := connHandle_unheard (Conn.start c.tcb c.stats) (e := e)
        fun now lroom g he => hseg ⟨now, lroom, g, he⟩
      generalize (connHandle (Conn.start c.tcb c.stats) e).recv = w at hw
      cases hw with
      | same | read => exact ⟨Or.inl hst, rfl⟩
      | closes now hne => exact absurd hst hne

/-! ### Histories -/

structure RecvHist where
  conn : Conn
  read : List UInt8

namespace RecvHist

def step (h : RecvHist) (e : ConnEvent) : RecvHist where
  conn := connStep h.conn e
  read := h.read ++ returned h.conn e

def Opens (h : RecvHist) : Prop := Opened h.conn ∧ h.read = []

/-- The runs on which every segment that reaches the connection is one of the
stream `S`. -/
abbrev Reach (S : List UInt8) : RecvHist → Prop :=
  Run.Reach Opens (fun h e => OnStream S h.read h.conn e) step

def ring (h : RecvHist) : List UInt8 :=
  RingBuf.contents tcpRcvbuf h.conn.tcb.rcvbuf h.conn.tcb.rcvHead.toNat h.conn.tcb.rcvLen.toNat

end RecvHist

theorem tcpStartSyn_recv (now : Nat) (flags : UInt8) (c : Conn) :
    (tcpStartSyn now flags c).recv = c.recv := by
  unfold tcpStartSyn
  simp only
  rw [Conn.recv_of_rest (tcpArmRto_rest _ _ now), tcpSendCtl_recv]

theorem tcpOpenPassiveConn_recv (now : Nat) (l : Fin tcpMaxConns) (lport : UInt16) (iss : UInt32)
    (g : Seg) (st : Stats) :
    (tcpOpenPassiveConn now l lport iss g st).recv =
      { (Conn.start (passiveTcb l lport iss g) st).recv with state := .synRcvd } := by
  have hset (c : Conn) : (c.setState .synRcvd).recv = { c.recv with state := .synRcvd } := rfl
  have hcount (c : Conn) (x : Stat) : (c.count x).recv = c.recv := rfl
  unfold tcpOpenPassiveConn
  simp only
  rw [tcpStartSyn_recv, hset, tcpTakeMss_recv, hcount]

theorem Opened.recvOk {c : Conn} (h : Opened c) (S : List UInt8) : RecvOk S [] c.recv := by
  cases h with
  | active now sock lip lport rip rport iss st =>
    left
    unfold tcpOpenActiveConn
    rw [tcpStartSyn_recv]
    exact ⟨rfl, rfl, rfl, rfl, rfl, rfl⟩
  | passive now l lport iss g st =>
    right
    rw [tcpOpenPassiveConn_recv]
    exact Blank.start
      (v := { (Conn.start (passiveTcb l lport iss g) st).recv with state := .synSent })
        ⟨rfl, rfl, rfl, rfl, rfl, rfl⟩ S g.seq (Or.inr rfl)

theorem RecvHist.Reach.recvOk {S : List UInt8} {h : RecvHist} (hr : RecvHist.Reach S h) :
    RecvOk S h.read h.conn.recv := by
  refine Run.Reach.invariant (fun h => RecvOk S h.read h.conn.recv) ?_ ?_ hr
  · rintro h ⟨hopen, hread⟩
    rw [hread]
    exact hopen.recvOk S
  · intro h e hon hok
    exact connStep_recvOk hok e hon

theorem RecvOk.reads_stream {S D : List UInt8} {v : RecvView} (h : RecvOk S D v) : D <+: S := by
  rcases h with h | h
  · rw [h.read]
    exact List.nil_prefix
  · exact (List.prefix_append _ _).trans h.bytes

/-- Receiver stream. In every run whose segments carry one stream `S`, in
whatever order, number and cut they arrive, the bytes read so far followed by
those in the receive ring are a prefix of `S`; `rcv_nxt` stands right behind
it, or behind the FIN that follows it; and the end of file is reported only
when nothing of `S` is missing. -/
theorem receiver_stream {S : List UInt8} {h : RecvHist} (hr : RecvHist.Reach S h) :
    h.read <+: S ∧
      (h.conn.fate = .alive → h.conn.tcb.state ≠ .synSent →
        h.read ++ h.ring <+: S ∧
          h.conn.tcb.rcvNxt - h.conn.tcb.irs - 1 =
            UInt32.ofNat ((h.read ++ h.ring).length + h.conn.tcb.rcvEof.toNat) ∧
          (h.conn.tcb.rcvEof = true → h.read ++ h.ring = S)) := by
  have hok := hr.recvOk
  refine ⟨hok.reads_stream, fun _ hst => ?_⟩
  rcases hok with hblank | hrec
  · exact absurd hblank.state hst
  have hbytes : h.read ++ h.ring <+: S := hrec.bytes
  have hlen : (h.read ++ h.ring).length = h.read.length + h.conn.tcb.rcvLen.toNat := by
    rw [List.length_append, RecvHist.ring, RingBuf.contents_length]
  refine ⟨hbytes, ?_, fun heof => ?_⟩
  · have hnxt : h.conn.tcb.rcvNxt = pos (h.conn.tcb.irs + 1)
        (h.read.length + h.conn.tcb.rcvLen.toNat + h.conn.tcb.rcvEof.toNat) := hrec.nxt
    rw [hnxt, hlen, pos]
    grind
  · have hend : h.read.length + h.conn.tcb.rcvLen.toNat = S.length := hrec.eof_end heof
    exact hbytes.eq_of_length (hlen.trans hend)

/-- A segment with text from the peer of the run below. -/
def peerText (flags : UInt8) (seq : UInt32) (payload : List UInt8) (h : payload.length < 65536) :
    Seg :=
  { peerSeg flags seq 101 1000 with payload := payload, payload_lt := h }

/-- The stream 10, 20, 30 after sequence number 300: its end with the FIN comes
first and is parked, and the beginning overlaps it. -/
def lateHead : RecvHist :=
  let c := tcpOpenActiveConn 0 none 1 5000 2 80 100 Stats.zero
  ((((RecvHist.mk c []).step
    (.segment 1 none (peerSeg (tcpSyn ||| tcpAck) 300 101 1000))).step
    (.segment 2 none (peerText (tcpFin ||| tcpAck) 302 [20, 30] (by decide)))).step
    (.segment 3 none (peerText tcpAck 301 [10, 20] (by decide)))).step (.recv 2)

theorem OnStream.of_carries {S D : List UInt8} {c : Conn} {now : Nat} {lroom : Option Bool}
    {g : Seg} (h : Carries S D c.recv g) : OnStream S D c (.segment now lroom g) := by
  rintro _ _ _ ⟨⟩ _ _ _
  exact h

theorem lateHead_reach : RecvHist.Reach [10, 20, 30] lateHead := by
  refine .next (.next (.next (.next (.start ⟨.active 0 none 1 5000 2 80 100 Stats.zero, rfl⟩) _ ?_)
    _ ?_) _ ?_) _ nofun
  · rintro _ _ _ _ _ hst _
    exact absurd rfl hst
  · exact .of_carries fun _ => ⟨1, by decide +kernel⟩
  · exact .of_carries fun _ => ⟨0, by decide +kernel⟩

/-- All three bytes arrived: two are read, one is in the ring, and the stream
has not ended, because its FIN came too early. -/
theorem receiver_stream_late_head :
    lateHead.read = [10, 20] ∧ lateHead.ring = [30] ∧ lateHead.conn.tcb.rcvEof = false ∧
      lateHead.read ++ lateHead.ring <+: [10, 20, 30] :=
  ⟨by decide +kernel, by decide +kernel, by decide +kernel,
    ((receiver_stream lateHead_reach).2 (by decide +kernel) (by decide +kernel)).1⟩

end PacketForge
