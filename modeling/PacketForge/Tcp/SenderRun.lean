import PacketForge.Lib.Run
import PacketForge.Tcp.Sender

/-!
The sending side over whole runs of a connection. A history is a connection
with all bytes ever copied into its send ring and all segments it ever
emitted; it grows with every event, whatever the peer sends and whenever the
timer runs. The application closes only after the handshake.
-/

namespace PacketForge

open SeqSpace (pos)
open Stream (slice slice_append)

/-! ### Events -/

namespace SendOk

variable {W : List UInt8} {s : SendView}

theorem quiet (h : SendOk W s) : SendOk W { s with out := [] } :=
  ⟨h.frame [] s.wnd, by simp⟩

/-- Bytes copied behind the ring extend the stream. -/
theorem append (h : SendOk W s) (hout : s.out = []) (xs : List UInt8)
    (hst : s.state = .established ∨ s.state = .closeWait)
    (hfit : s.len.toNat + xs.length ≤ 65535) : SendOk (W ++ xs) (s.append xs) := by
  have hsync : s.state ≠ .synSent ∧ s.state ≠ .synRcvd := by
    rcases hst with h | h <;> rw [h] <;> exact ⟨by decide, by decide⟩
  obtain ⟨a, ha, hr⟩ := h.represents hsync
  have hq := hr.open_ hst
  have hph : a.fin = .unsent := by
    apply hr.fin_unsent
    by_contra hsent
    have hqueued := hr.queued (by simpa using hsent)
    rw [hq] at hqueued
    cases hqueued
  have hhead := hr.head_lt
  have hadd : (s.head + s.len).toNat = s.head.toNat + s.len.toNat := by
    rw [UInt32.toNat_add]
    exact Nat.mod_eq_of_lt (by omega)
  have hlen' : (s.len + UInt32.ofNat xs.length).toNat = s.len.toNat + xs.length := by
    rw [UInt32.toNat_add, UInt32.toNat_ofNat', Nat.mod_eq_of_lt (a := xs.length) (by omega)]
    exact Nat.mod_eq_of_lt (by omega)
  have htotal := hr.len
  refine ⟨Or.inr ⟨a.write xs hph, ?_, ?_⟩, ?_⟩
  · rw [← ha]
    rfl
  · refine ⟨?_, ?_, hr.head_lt, ?_, hr.una, hr.nxt, hr.finSent, hr.queued, hr.open_, hr.sync⟩
    · simp only [SendView.append, SendStream.write, hlen', List.length_append]
      omega
    · simp only [SendView.append, hlen']
      exact hfit
    · simp only [SendView.append, SendStream.write, hlen', hadd]
      rw [RingBuf.contents_write _ _ hhead hfit, hr.ring,
        List.drop_append_of_le_length (by omega)]
  · intro g hg
    change g ∈ s.out at hg
    rw [hout] at hg
    cases hg

/-- A close after the handshake queues the FIN and leaves the stream alone. -/
theorem closed (h : SendOk W s) (hout : s.out = [])
    (hsync : s.state ≠ .synSent ∧ s.state ≠ .synRcvd) : SendOk W s.closed := by
  obtain ⟨a, ha, hr⟩ := h.represents hsync
  have hqueue (st : TcpState) (hopen : ¬ (st = .established ∨ st = .closeWait))
      (hst : st ≠ .synSent ∧ st ≠ .synRcvd) :
      SendOk W { s with state := st, finQueued := true } := by
    refine ⟨Or.inr ⟨a, ha, ?_⟩, ?_⟩
    · exact ⟨hr.len, hr.len_le, hr.head_lt, hr.ring, hr.una, hr.nxt, hr.finSent, fun _ => rfl,
        fun h => absurd h hopen, hst⟩
    · intro g hg
      change g ∈ s.out at hg
      rw [hout] at hg
      cases hg
  unfold SendView.closed
  split
  · exact hqueue _ (by simp) ⟨by decide, by decide⟩
  · exact hqueue _ (by simp) ⟨by decide, by decide⟩
  · exact hqueue _ (by simp) ⟨by decide, by decide⟩
  · exact h

end SendOk

theorem canAppend_iff (t : Tcb) :
    canAppend t = true ↔ t.state = .established ∨ t.state = .closeWait := by
  simp [canAppend]

/-- What `pf_send` copies fits into the ring. -/
theorem appended_fits (c : Conn) (now : Nat) (data : List UInt8)
    (hlen : c.tcb.sndLen.toNat ≤ 65535) :
    c.tcb.sndLen.toNat + (appended c (.send now data)).length ≤ 65535 := by
  simp only [appended]
  split
  · have hspace : (65535 - c.tcb.sndLen).toNat = 65535 - c.tcb.sndLen.toNat := by
      rw [UInt32.toNat_sub_of_le _ _ (by rw [UInt32.le_iff_toNat_le]; exact hlen)]
      rfl
    have hn : (sendAmount c.tcb data).toNat ≤ 65535 - c.tcb.sndLen.toNat := by
      rw [sendAmount, pfMin_toNat, hspace]
      exact Nat.min_le_right _ _
    rw [List.length_take]
    omega
  · exact hlen

variable {W : List UInt8} {c : Conn}

theorem SendOk.len_le {s : SendView} (h : SendOk W s) : s.len.toNat ≤ 65535 := by
  rcases h.rel with ⟨-, hu⟩ | ⟨a, -, hr⟩
  · simp [hu.len]
  · exact hr.len_le

/-- The sending side an event starts from, with what the event appended. -/
theorem eventView_sendOk (h : SendOk W c.send) (e : ConnEvent) (hclose : CloseAfterHandshake c e) :
    SendOk (W ++ appended c e) (eventView c e) := by
  have hquiet : SendOk W (Conn.start c.tcb c.stats).send := h.quiet
  cases e with
  | send now data =>
    by_cases hcan : canAppend c.tcb = true
    · exact hquiet.append rfl _ ((canAppend_iff _).mp hcan) (appended_fits c now data h.len_le)
    · have hnone : appended c (.send now data) = [] := by
        simp [appended, hcan]
      simp only [eventView, hnone, List.append_nil, SendView.append_nil]
      exact hquiet
  | close now =>
    simp only [appended, List.append_nil, eventView]
    exact hquiet.closed rfl (hclose now rfl)
  | segment | tick | recv | nodelay | attach =>
    simp only [appended, List.append_nil, eventView]
    exact hquiet

theorem connStep_sendOk (h : SendOk W c.send) (e : ConnEvent) (hclose : CloseAfterHandshake c e) :
    SendOk (W ++ appended c e) (connStep c e).send := by
  cases hfate : c.fate with
  | freed err =>
    have hnone : appended c e = [] := by
      cases e <;> simp [appended, hfate]
    simp only [connStep, hfate, hnone, List.append_nil]
    exact h.quiet
  | alive =>
    refine (connStep_moves c e hfate ?_).sendOk (eventView_sendOk h e hclose)
    intro hst
    exact (h.unopened (Or.inl hst)).2.una

theorem tcpStartSyn_sendOk (now : Nat) (flags : UInt8) (hflags : flags &&& tcpFin = 0) (c : Conn)
    (hout : c.out = []) (hu : Unopened c.send) : SendOk [] (tcpStartSyn now flags c).send := by
  simp only [tcpStartSyn, tcpArmRto_send]
  refine (SendMoves.of_onlyCtl (κ := .internal) (tcpSendCtl_onlyCtl c flags hflags)).sendOk ?_
  refine ⟨Or.inl ⟨rfl, hu⟩, ?_⟩
  intro g hg
  change g ∈ c.out at hg
  rw [hout] at hg
  cases hg

theorem Opened.sendOk (h : Opened c) : SendOk [] c.send := by
  cases h with
  | active now sock lip lport rip rport iss st =>
    exact tcpStartSyn_sendOk _ _ (by decide) _ rfl ⟨Or.inl rfl, rfl, rfl, rfl, rfl, rfl, rfl⟩
  | passive now l lport iss g st =>
    have hview := tcpTakeMss_send
      ((Conn.start (passiveTcb l lport iss g) st).count .tcpPassiveOpens) g
    apply tcpStartSyn_sendOk _ _ (by decide)
    · exact congrArg SendView.out hview
    · rw [Conn.setState_send, hview]
      exact ⟨Or.inr rfl, rfl, rfl, rfl, rfl, rfl, rfl⟩

/-- A connection is opened in one of the two states before its handshake. -/
theorem Opened.state (h : Opened c) : c.tcb.state = .synSent ∨ c.tcb.state = .synRcvd := by
  have hstart (now : Nat) (flags : UInt8) (c' : Conn) :
      (tcpStartSyn now flags c').tcb.state = c'.tcb.state := by
    have hview := tcpArmRto_send (tcpSendCtl c' flags) (tcpSendCtl c' flags).tcb now
    exact congrArg SendView.state (hview.trans (tcpSendCtl_send c' flags))
  cases h with
  | active =>
    left
    unfold tcpOpenActiveConn
    rw [hstart]
    rfl
  | passive =>
    right
    unfold tcpOpenPassiveConn
    rw [hstart]
    rfl

/-! ### What no event changes -/

theorem SendMoves.fixed {κ : SendCause} {s s' : SendView} (h : SendMoves κ s s') :
    s'.iss = s.iss ∧ s'.finQueued = s.finQueued := by
  refine SendMoves.invariant (P := fun x => x.iss = s.iss ∧ x.finQueued = s.finQueued) ?_ h
    ⟨rfl, rfl⟩
  intro x x' hmove hx
  cases hmove with
  | output hout => cases hout <;> exact hx
  | _ => exact hx

theorem eventView_fixed (c : Conn) (e : ConnEvent) :
    (eventView c e).iss = c.tcb.iss ∧
      (c.tcb.finQueued = true → (eventView c e).finQueued = true) := by
  cases e with
  | close now =>
    simp only [eventView, SendView.closed]
    split <;> exact ⟨rfl, fun h => by first | rfl | exact h⟩
  | segment | tick | send | recv | nodelay | attach => exact ⟨rfl, id⟩

/-- The ISS never changes, and a queued FIN stays queued. -/
theorem connStep_fixed (h : SendOk W c.send) (e : ConnEvent) :
    (connStep c e).tcb.iss = c.tcb.iss ∧
      (c.tcb.finQueued = true → (connStep c e).tcb.finQueued = true) := by
  cases hfate : c.fate with
  | freed err =>
    simp only [connStep, hfate]
    exact ⟨rfl, id⟩
  | alive =>
    have hm := (connStep_moves c e hfate (fun hst => (h.unopened (Or.inl hst)).2.una)).fixed
    obtain ⟨hiss, hq⟩ := eventView_fixed c e
    refine ⟨hm.1.trans hiss, fun hf => ?_⟩
    exact hm.2.trans (hq hf)

/-- Once the FIN is queued nothing more is appended. -/
theorem appended_of_finQueued (h : SendOk W c.send) (hq : c.tcb.finQueued = true) (e : ConnEvent) :
    appended c e = [] := by
  cases e with
  | send now data =>
    by_cases hcan : canAppend c.tcb = true
    · have hst := (canAppend_iff _).mp hcan
      rcases h.rel with ⟨-, hu⟩ | ⟨a, -, hr⟩
      · have hnq : c.tcb.finQueued = false := hu.queued
        rw [hq] at hnq
        cases hnq
      · have hnq : c.tcb.finQueued = false := hr.open_ hst
        rw [hq] at hnq
        cases hnq
    · simp [appended, hcan]
  | segment | tick | close | recv | nodelay | attach => rfl

/-! ### Histories -/

/-- A connection, the bytes ever copied into its send ring, and the segments it
ever emitted. -/
structure SendHist where
  conn : Conn
  written : List UInt8
  log : List Seg

namespace SendHist

def step (h : SendHist) (e : ConnEvent) : SendHist where
  conn := connStep h.conn e
  written := h.written ++ appended h.conn e
  log := h.log ++ (connStep h.conn e).out

def Opens (h : SendHist) : Prop := Opened h.conn ∧ h.written = [] ∧ h.log = h.conn.out

abbrev Reach : SendHist → Prop :=
  Run.Reach Opens (fun h e => CloseAfterHandshake h.conn e) step

/-- Every segment ever emitted, against the bytes written by now. -/
structure LogOk (h : SendHist) : Prop where
  data : ∀ g ∈ h.log, g.payload ≠ [] →
    ∃ k, g.seq = pos (h.conn.tcb.iss + 1) k ∧ k + g.payload.length ≤ h.written.length ∧
      g.payload = slice h.written k g.payload.length
  fin : ∀ g ∈ h.log, g.has tcpFin = true →
    h.conn.tcb.finQueued = true ∧ g.payload = [] ∧
      g.seq = pos (h.conn.tcb.iss + 1) h.written.length
  syn : ∀ g ∈ h.log, g.has tcpSyn = true → g.seq = h.conn.tcb.iss

theorem LogOk.of_emitted {h : SendHist} (hok : SendOk h.written h.conn.send)
    (hlog : h.log = h.conn.out) : LogOk h := by
  refine ⟨?_, ?_, ?_⟩
  · intro g hg hpay
    rw [hlog] at hg
    obtain ⟨hseq, hle, hdata, -, -⟩ := (hok.emitted g hg).data hpay
    exact ⟨_, hseq, hle, hdata⟩
  · intro g hg hfin
    rw [hlog] at hg
    exact (hok.emitted g hg).fin hfin
  · intro g hg hsyn
    rw [hlog] at hg
    exact ((hok.emitted g hg).syn hsyn).2

/-- The log stays true when the stream is extended: data keeps its place, and
behind a FIN nothing is written. -/
theorem LogOk.step {h : SendHist} (hl : LogOk h) (hok : SendOk h.written h.conn.send)
    (e : ConnEvent) (hclose : CloseAfterHandshake h.conn e) : LogOk (h.step e) := by
  have hnew : SendOk (h.step e).written (h.step e).conn.send := connStep_sendOk hok e hclose
  have hlast : LogOk { h.step e with log := (connStep h.conn e).out } :=
    LogOk.of_emitted hnew rfl
  obtain ⟨hiss, hq⟩ := connStep_fixed hok e
  refine ⟨?_, ?_, ?_⟩
  · intro g hg hpay
    rcases List.mem_append.mp hg with hold | hout
    · obtain ⟨k, hseq, hle, hdata⟩ := hl.data g hold hpay
      refine ⟨k, ?_, ?_, ?_⟩
      · rw [hseq]
        exact congrArg (fun iss => pos (iss + 1) k) hiss.symm
      · change _ ≤ (h.written ++ appended h.conn e).length
        rw [List.length_append]
        omega
      · change _ = slice (h.written ++ appended h.conn e) _ _
        rw [slice_append hle]
        exact hdata
    · exact hlast.data g hout hpay
  · intro g hg hfin
    rcases List.mem_append.mp hg with hold | hout
    · obtain ⟨hqueued, hpay, hseq⟩ := hl.fin g hold hfin
      refine ⟨hq hqueued, hpay, ?_⟩
      change g.seq = pos ((connStep h.conn e).tcb.iss + 1) (h.written ++ appended h.conn e).length
      rw [appended_of_finQueued hok hqueued e, List.append_nil, hiss]
      exact hseq
    · exact hlast.fin g hout hfin
  · intro g hg hsyn
    rcases List.mem_append.mp hg with hold | hout
    · exact (hl.syn g hold hsyn).trans hiss.symm
    · exact hlast.syn g hout hsyn

theorem Reach.sendOk {h : SendHist} (hr : Reach h) :
    SendOk h.written h.conn.send ∧ LogOk h := by
  refine Run.Reach.invariant (fun h => SendOk h.written h.conn.send ∧ LogOk h) ?_ ?_ hr
  · intro h hopen
    obtain ⟨hconn, hwritten, hlog⟩ := hopen
    have hok : SendOk h.written h.conn.send := by
      rw [hwritten]
      exact hconn.sendOk
    exact ⟨hok, LogOk.of_emitted hok hlog⟩
  · intro h e hclose hinv
    exact ⟨connStep_sendOk hinv.1 e hclose, hinv.2.step hinv.1 e hclose⟩

end SendHist

/-- Sender content. In every run the bytes in flight are bounded by those in
the ring and those by its size; every data segment carries exactly the slice of
the written stream at its position, counted from that of `snd_una` when it is
emitted; and every FIN stands at the end of the stream. -/
theorem sender_content {h : SendHist} (hr : SendHist.Reach h) :
    (h.conn.tcb.state ≠ .synSent → h.conn.tcb.state ≠ .synRcvd →
      (tcpDataInFlight h.conn.tcb).toNat ≤ h.conn.tcb.sndLen.toNat ∧
        h.conn.tcb.sndLen.toNat ≤ tcpSndbuf) ∧
    (∀ g ∈ h.conn.out, g.payload ≠ [] →
      g.seq = pos (h.conn.tcb.iss + 1) (streamPos h.written h.conn.send g) ∧
        g.payload = slice h.written (streamPos h.written h.conn.send g) g.payload.length) ∧
    (∀ g ∈ h.log, g.payload ≠ [] →
      ∃ k, g.seq = pos (h.conn.tcb.iss + 1) k ∧ k + g.payload.length ≤ h.written.length ∧
        g.payload = slice h.written k g.payload.length) ∧
    ∀ g ∈ h.log, g.has tcpFin = true →
      g.seq = pos (h.conn.tcb.iss + 1) h.written.length := by
  obtain ⟨hok, hlog⟩ := hr.sendOk
  refine ⟨?_, ?_, hlog.data, fun g hg hfin => (hlog.fin g hg hfin).2.2⟩
  · intro hsent hrcvd
    obtain ⟨a, -, hrep⟩ := hok.represents ⟨hsent, hrcvd⟩
    have hflight : (tcpDataInFlight h.conn.tcb).toNat = a.flight := hrep.dataInFlight
    exact ⟨hflight ▸ hrep.flight_le, hrep.len_le⟩
  · intro g hg hpay
    obtain ⟨hseq, -, hdata, -, -⟩ := (hok.emitted g hg).data hpay
    exact ⟨hseq, hdata⟩

/-! ### A run -/

theorem CloseAfterHandshake.segment (c : Conn) (now : Nat) (lroom : Option Bool) (g : Seg) :
    CloseAfterHandshake c (.segment now lroom g) := by
  intro _ h
  cases h

theorem CloseAfterHandshake.send (c : Conn) (now : Nat) (data : List UInt8) :
    CloseAfterHandshake c (.send now data) := by
  intro _ h
  cases h

/-- A segment without payload from the peer of the runs below. -/
def peerSeg (flags : UInt8) (seq ack : UInt32) (wnd : UInt16) : Seg where
  src := 2
  dst := 1
  sport := 80
  dport := 5000
  seq := seq
  ack := ack
  flags := flags
  wnd := wnd
  opts := []
  payload := []
  payload_lt := Seg.empty_payload_lt

/-- A connection opened with ISS 100 whose SYN was answered with sequence
number 300 and the window `wnd`. -/
def establishedHist (wnd : UInt16) : SendHist :=
  let c := tcpOpenActiveConn 0 none 1 5000 2 80 100 Stats.zero
  SendHist.step { conn := c, written := [], log := c.out }
    (.segment 1 none (peerSeg (tcpSyn ||| tcpAck) 300 101 wnd))

theorem establishedHist_reach (wnd : UInt16) : SendHist.Reach (establishedHist wnd) :=
  .next (.start ⟨.active 0 none 1 5000 2 80 100 Stats.zero, rfl, rfl⟩) _
    (CloseAfterHandshake.segment _ _ _ _)

/-- Three bytes written into an open window go out as one segment. -/
theorem sender_content_three_bytes :
    let h := (establishedHist 1000).step (.send 2 [1, 2, 3])
    h.conn.out.map (fun g => (g.seq, g.payload)) = [(101, [1, 2, 3])] ∧
      (∀ g ∈ h.conn.out, g.payload ≠ [] →
        g.seq = pos (h.conn.tcb.iss + 1) (streamPos h.written h.conn.send g) ∧
          g.payload = slice h.written (streamPos h.written h.conn.send g) g.payload.length) ∧
      ∀ g ∈ h.log, g.has tcpFin = true → g.seq = pos (h.conn.tcb.iss + 1) h.written.length := by
  have hreach : SendHist.Reach ((establishedHist 1000).step (.send 2 [1, 2, 3])) :=
    .next (establishedHist_reach 1000) _ (CloseAfterHandshake.send _ _ _)
  exact ⟨by decide +kernel, (sender_content hreach).2.1, (sender_content hreach).2.2.2⟩

end PacketForge
