import PacketForge.Tcp.Conn

/-!
What the send engine and the receive path leave alone. Building and
transmitting segments moves `snd_nxt`, the FIN flag, the timers and the delayed
acknowledgement; every other field of a connection is the same afterwards. An acknowledgement also
releases the send ring and moves the round-trip and congestion state, and
nothing else. Taking text and a FIN moves the receive ring and the delayed
acknowledgement. The table and the other side rely on nothing more.
-/

namespace PacketForge

/-- Where the peer's FIN takes the connection. -/
def rxFinState : TcpState → TcpState
  | .established => .closeWait
  | .finWait1 => .closing
  | .finWait2 => .timeWait
  | st => st

/-- Where an acknowledged FIN takes the connection. -/
def ackedState (fin : Bool) (st : TcpState) : TcpState :=
  if fin then
    match st with
    | .finWait1 => .finWait2
    | .closing => .timeWait
    | st => st
  else st

/-- A connection without the fields the send engine writes. -/
def Conn.rest (c : Conn) : Conn :=
  { c with
    out := []
    stats := Stats.zero
    tcb :=
      { c.tcb with
        sndNxt := 0
        finSent := false
        rtoDeadline := 0
        rttTiming := false
        rttSeq := 0
        rttStartMs := 0
        rcvWndAdvertised := 0
        delackDeadline := 0
        delackPending := 0 } }

namespace Conn

variable {α : Sort*} (f : Conn → α) {c d : Conn}

theorem of_rest (hf : ∀ x : Conn, f x.rest = f x) (h : d.rest = c.rest) : f d = f c := by
  rw [← hf d, h, hf c]

theorem rest_state (h : d.rest = c.rest) : d.tcb.state = c.tcb.state :=
  of_rest (fun x => x.tcb.state) (fun _ => rfl) h

theorem rest_fate (h : d.rest = c.rest) : d.fate = c.fate := of_rest fate (fun _ => rfl) h

theorem rest_mss (h : d.rest = c.rest) : d.tcb.mss = c.tcb.mss :=
  of_rest (fun x => x.tcb.mss) (fun _ => rfl) h

theorem engine_rest (c : Conn) {nxt rseq : UInt32} {fin timing : Bool} {rto rstart dl : Nat}
    {adv : UInt16} {pend : UInt8} {out : List Seg} {st : Stats} :
    { c with
      out := out
      stats := st
      tcb :=
        { c.tcb with
          sndNxt := nxt
          finSent := fin
          rtoDeadline := rto
          rttTiming := timing
          rttSeq := rseq
          rttStartMs := rstart
          rcvWndAdvertised := adv
          delackDeadline := dl
          delackPending := pend } }.rest = c.rest := rfl

theorem count_rest (c : Conn) (x : Stat) : (c.count x).rest = c.rest :=
  engine_rest c

end Conn

variable (now : Nat) (c : Conn) (g : Seg) (flags : UInt8)

/-! ### The send engine -/

theorem tcpArmRto_eq (t : Tcb) :
    tcpArmRto t now =
      { t with
        rtoDeadline := if t.rtoDeadline = 0 then now + t.rtoMs.toNat else t.rtoDeadline } := by
  unfold tcpArmRto
  split <;> rfl

theorem rttStart_eq (t : Tcb) :
    rttStart t now =
      { t with
        rttTiming := true
        rttSeq := if t.rttTiming then t.rttSeq else t.sndNxt
        rttStartMs := if t.rttTiming then t.rttStartMs else now } := by
  unfold rttStart
  split
  · rename_i h
    rw [← h]
  · rfl

/-- A transmission touches the delayed acknowledgement and the counters. -/
theorem tcpSendSegment_eq (seq off : UInt32) (n : UInt16) :
    ∃ st pend dl adv, tcpSendSegment c flags seq off n =
      { c with
        out := c.out ++ [tcpSegment c.tcb flags seq off n]
        stats := st
        tcb :=
          { c.tcb with
            delackPending := pend
            delackDeadline := dl
            rcvWndAdvertised := adv } } := by
  have hsent : ∃ pend dl adv, ackSent flags c.tcb =
      { c.tcb with delackPending := pend, delackDeadline := dl, rcvWndAdvertised := adv } := by
    unfold ackSent
    split <;> exact ⟨_, _, _, rfl⟩
  obtain ⟨pend, dl, adv, hsent⟩ := hsent
  refine ⟨((c.count .tcpTxSegs).countBy .tcpTxBytes n.toUInt64).stats, pend, dl, adv, ?_⟩
  simp only [tcpSendSegment]
  rw [hsent]
  rfl

theorem tcpOutputChunk_eq (chunk : UInt16) :
    ∃ st pend dl adv, tcpOutputChunk now c chunk =
      { c with
        out := c.out ++
          [tcpSegment c.tcb (dataFlags (chunk.toUInt32 == c.tcb.sndLen - tcpDataInFlight c.tcb))
            c.tcb.sndNxt (tcpDataInFlight c.tcb) chunk]
        stats := st
        tcb :=
          { c.tcb with
            sndNxt := c.tcb.sndNxt + chunk.toUInt32
            rttTiming := true
            rttSeq := if c.tcb.rttTiming then c.tcb.rttSeq else c.tcb.sndNxt + chunk.toUInt32
            rttStartMs := if c.tcb.rttTiming then c.tcb.rttStartMs else now
            rtoDeadline :=
              if c.tcb.rtoDeadline = 0 then now + c.tcb.rtoMs.toNat else c.tcb.rtoDeadline
            delackPending := pend
            delackDeadline := dl
            rcvWndAdvertised := adv } } := by
  obtain ⟨st, pend, dl, adv, hseg⟩ := tcpSendSegment_eq c
    (dataFlags (chunk.toUInt32 == c.tcb.sndLen - tcpDataInFlight c.tcb)) c.tcb.sndNxt
    (tcpDataInFlight c.tcb) chunk
  refine ⟨st, pend, dl, adv, ?_⟩
  simp only [tcpOutputChunk]
  rw [hseg, tcpArmRto_eq, rttStart_eq]

theorem tcpSendFin_eq :
    ∃ st pend dl adv, tcpSendFin now c =
      { c with
        out := c.out ++ [tcpSegment c.tcb (tcpFin ||| tcpAck) c.tcb.sndNxt 0 0]
        stats := st
        tcb :=
          { c.tcb with
            sndNxt := c.tcb.sndNxt + 1
            finSent := true
            rtoDeadline :=
              if c.tcb.rtoDeadline = 0 then now + c.tcb.rtoMs.toNat else c.tcb.rtoDeadline
            delackPending := pend
            delackDeadline := dl
            rcvWndAdvertised := adv } } := by
  obtain ⟨st, pend, dl, adv, hseg⟩ := tcpSendSegment_eq c (tcpFin ||| tcpAck) c.tcb.sndNxt 0 0
  have hnxt :
      (tcpSendSegment c (tcpFin ||| tcpAck) c.tcb.sndNxt 0 0).tcb.sndNxt = c.tcb.sndNxt := by
    rw [hseg]
  refine ⟨st, pend, dl, adv, ?_⟩
  simp only [tcpSendFin]
  rw [hnxt, hseg, tcpArmRto_eq]

theorem tcpSendProbe_eq :
    ∃ st pend dl adv, tcpSendProbe c =
      { c with
        out := c.out ++ [tcpSegment c.tcb tcpAck c.tcb.sndNxt (c.tcb.sndNxt - c.tcb.sndUna) 1]
        stats := st
        tcb :=
          { c.tcb with
            sndNxt := c.tcb.sndNxt + 1
            delackPending := pend
            delackDeadline := dl
            rcvWndAdvertised := adv } } := by
  obtain ⟨st, pend, dl, adv, hseg⟩ := tcpSendSegment_eq c tcpAck c.tcb.sndNxt
    (c.tcb.sndNxt - c.tcb.sndUna) 1
  have hnxt : (tcpSendSegment c tcpAck c.tcb.sndNxt (c.tcb.sndNxt - c.tcb.sndUna) 1).tcb.sndNxt =
      c.tcb.sndNxt := by rw [hseg]
  refine ⟨st, pend, dl, adv, ?_⟩
  simp only [tcpSendProbe]
  rw [hnxt, hseg]

theorem tcpSendSegment_rest (seq off : UInt32) (n : UInt16) :
    (tcpSendSegment c flags seq off n).rest = c.rest := by
  obtain ⟨st, pend, dl, adv, heq⟩ := tcpSendSegment_eq c flags seq off n
  rw [heq]
  exact Conn.engine_rest c

theorem tcpSendCtl_rest : (tcpSendCtl c flags).rest = c.rest := by
  unfold tcpSendCtl
  rw [tcpSendSegment_rest]
  by_cases h : (flags &&& tcpRst != 0) = true
  · rw [if_pos h, Conn.count_rest]
  · rw [if_neg h]

theorem tcpArmRto_rest (t : Tcb) (now : Nat) :
    { c with tcb := tcpArmRto t now }.rest = { c with tcb := t }.rest := by
  rw [tcpArmRto_eq]
  exact Conn.engine_rest { c with tcb := t }

theorem tcpSendProbe_rest : (tcpSendProbe c).rest = c.rest := by
  obtain ⟨st, pend, dl, adv, heq⟩ := tcpSendProbe_eq c
  rw [heq]
  exact Conn.engine_rest c

theorem tcpOutputChunk_rest (chunk : UInt16) : (tcpOutputChunk now c chunk).rest = c.rest := by
  obtain ⟨st, pend, dl, adv, heq⟩ := tcpOutputChunk_eq now c chunk
  rw [heq]
  exact Conn.engine_rest c

theorem tcpOutputLoop_rest (wnd : UInt32) (fuel : Nat) (c : Conn) :
    (tcpOutputLoop now wnd fuel c).rest = c.rest := by
  induction fuel generalizing c with
  | zero => rfl
  | succ fuel ih =>
    unfold tcpOutputLoop
    split
    · rfl
    · rw [ih, tcpOutputChunk_rest]

theorem tcpSendFin_rest : (tcpSendFin now c).rest = c.rest := by
  obtain ⟨st, pend, dl, adv, heq⟩ := tcpSendFin_eq now c
  rw [heq]
  exact Conn.engine_rest c

theorem tcpOutputFin_rest : (tcpOutputFin now c).rest = c.rest := by
  unfold tcpOutputFin
  split
  · exact tcpSendFin_rest now c
  · rfl

theorem tcpOutput_rest : (tcpOutput now c).rest = c.rest := by
  unfold tcpOutput
  split
  · simp only
    rw [tcpOutputFin_rest, tcpOutputLoop_rest]
  · rfl

theorem tcpRetransmit_rest : (tcpRetransmit c).rest = c.rest := by
  have hresend (c' : Conn) : (tcpResend c').rest = c'.rest := by
    unfold tcpResend
    split
    · exact tcpSendCtl_rest _ _
    split
    · exact tcpSendCtl_rest _ _
    split
    · exact tcpSendSegment_rest _ _ _ _ _
    split
    · exact tcpSendSegment_rest _ _ _ _ _
    · rfl
  exact (hresend _).trans (Conn.engine_rest c)

theorem tcpSendResetFor_rest : (tcpSendResetFor c g).rest = c.rest := by
  unfold tcpSendResetFor
  split
  · rfl
  · exact Conn.engine_rest c

/-! ### Acknowledgements -/

/-- A connection without the fields the send engine and acknowledgements write. -/
def Conn.noSend (c : Conn) : Conn :=
  { c.rest with
    tcb :=
      { c.rest.tcb with
        sndUna := 0
        sndHead := 0
        sndLen := 0
        srttMs := 0
        rttvarMs := 0
        rtoMs := 0
        rtxCount := 0
        cwnd := 0
        ssthresh := 0
        dupacks := 0 } }

theorem Conn.noSend_of_rest {c c' : Conn} (h : c'.rest = c.rest) : c'.noSend = c.noSend := by
  unfold Conn.noSend
  rw [h]

theorem Conn.noSend_wl {c c' : Conn} (h : c'.noSend = c.noSend) :
    c'.tcb.sndWl1 = c.tcb.sndWl1 ∧ c'.tcb.sndWl2 = c.tcb.sndWl2 := by
  have h1 := congrArg (fun x : Conn => x.tcb.sndWl1) h
  have h2 := congrArg (fun x : Conn => x.tcb.sndWl2) h
  exact ⟨h1, h2⟩

/-- What an acknowledgement of new data does beyond releasing the ring. -/
theorem ackNew_eq (ack : UInt32) (c : Conn) :
    ∃ st srtt rttvar rto rtx cwnd dup dl timing, ackNew now ack c =
        { c with
          stats := st
          tcb :=
            { ackRing c.tcb ack with
              srttMs := srtt
              rttvarMs := rttvar
              rtoMs := rto
              rtxCount := rtx
              cwnd := cwnd
              dupacks := dup
              rtoDeadline := dl
              rttTiming := timing } } ∧
      rtx = 0 ∧ timing = (c.tcb.rttTiming && !seqGe ack c.tcb.rttSeq) ∧
      dl = (if ack = c.tcb.sndNxt then 0 else now + rto.toNat) ∧
      (rto = c.tcb.rtoMs ∨ ∃ d r, rto = (tcpRttSample d r).tcb.rtoMs) := by
  have hcwnd (n : UInt32) (t : Tcb) : ∃ cwnd, ackCwnd n t = { t with cwnd := cwnd } := by
    unfold ackCwnd
    split
    · exact ⟨_, rfl⟩
    split <;> exact ⟨_, rfl⟩
  have hrtt (d : Conn) : ∃ st srtt rttvar rto timing, ackRtt now ack d =
        { d with
          stats := st
          tcb :=
            { d.tcb with srttMs := srtt, rttvarMs := rttvar, rtoMs := rto, rttTiming := timing } } ∧
      timing = (d.tcb.rttTiming && !seqGe ack d.tcb.rttSeq) ∧
      (rto = d.tcb.rtoMs ∨ ∃ d r, rto = (tcpRttSample d r).tcb.rtoMs) := by
    unfold ackRtt
    split
    · rename_i h
      rw [Bool.and_eq_true] at h
      exact ⟨_, _, _, _, _, rfl, by simp [h.2], Or.inr ⟨d, _, rfl⟩⟩
    · rename_i h
      refine ⟨_, _, _, _, _, rfl, ?_, Or.inl rfl⟩
      cases htiming : d.tcb.rttTiming <;> simp_all
  obtain ⟨st, srtt, rttvar, rto, timing, hr, htiming, hrto⟩ :=
    hrtt { c with tcb := ackRing c.tcb ack }
  simp only [ackNew]
  rw [hr]
  obtain ⟨cwnd, hc⟩ := hcwnd (ackedBytes c.tcb ack)
    { ackRing c.tcb ack with
      srttMs := srtt, rttvarMs := rttvar, rtoMs := rto, rttTiming := timing, rtxCount := 0 }
  rw [hc]
  exact ⟨_, _, _, _, _, _, _, _, _, rfl, rfl, htiming, rfl, hrto⟩

theorem ackNew_noSend (ack : UInt32) (c : Conn) : (ackNew now ack c).noSend = c.noSend := by
  obtain ⟨st, srtt, rttvar, rto, rtx, cwnd, dup, dl, timing, heq, -⟩ := ackNew_eq now ack c
  rw [heq]
  rfl

theorem tcpFinAcked_eq (fin : Bool) (c : Conn) :
    ∃ rto tw dl, tcpFinAcked now fin c =
      { c with
        tcb :=
          { c.tcb with
            state := ackedState fin c.tcb.state
            rtoDeadline := rto
            timewaitDeadline := tw
            delackDeadline := dl } } := by
  unfold tcpFinAcked
  cases fin with
  | false => exact ⟨_, _, _, rfl⟩
  | true =>
    simp only [Bool.true_and, decide_eq_true_eq]
    split
    · rename_i h
      rw [h]
      exact ⟨_, _, _, rfl⟩
    split
    · rename_i h
      rw [h]
      exact ⟨_, _, _, rfl⟩
    · have hkeep : ackedState true c.tcb.state = c.tcb.state := by
        cases hst : c.tcb.state <;> simp_all [ackedState]
      rw [hkeep]
      exact ⟨_, _, _, rfl⟩

theorem tcpInputDupAck_noSend : (tcpInputDupAck now c).noSend = c.noSend := by
  have hset (d : Conn) (cwnd ssthresh dup : UInt32) (st : Stats) :
      { d with
        stats := st
        tcb := { d.tcb with cwnd := cwnd, ssthresh := ssthresh, dupacks := dup } }.noSend =
        d.noSend := rfl
  have hcounted (d : Conn) : (tcpDupAckCounted now d).noSend = d.noSend := by
    unfold tcpDupAckCounted
    split
    · exact (hset _ _ _ _ _).trans
        ((Conn.noSend_of_rest (tcpRetransmit_rest _)).trans (hset d _ _ _ _))
    split
    · exact (Conn.noSend_of_rest (tcpOutput_rest now _)).trans (hset d _ _ _ _)
    · rfl
  exact (hcounted _).trans (hset c _ _ _ _)

/-! ### The receive path -/

/-- A connection without the fields that taking text and a FIN writes, the
state apart. -/
def Conn.noRecv (c : Conn) : Conn :=
  { c with
    out := []
    stats := Stats.zero
    panicked := false
    tcb :=
      { c.tcb with
        rcvNxt := 0
        rcvbuf := fun _ => 0
        rcvHead := 0
        rcvLen := 0
        rcvEof := false
        ooo := []
        rcvWndAdvertised := 0
        delackDeadline := 0
        delackPending := 0 } }

theorem Conn.recv_noRecv {nxt head len : UInt32} {buf : Nat → UInt8} {eof : Bool} {qs : List OooPkt}
    {adv : UInt16} {dl : Nat} {pend : UInt8} {out : List Seg} {st : Stats} {b : Bool} :
    { c with
      out := out
      stats := st
      panicked := b
      tcb :=
        { c.tcb with
          rcvNxt := nxt
          rcvHead := head
          rcvLen := len
          rcvbuf := buf
          rcvEof := eof
          ooo := qs
          rcvWndAdvertised := adv
          delackDeadline := dl
          delackPending := pend } }.noRecv = c.noRecv := rfl

theorem Conn.count_noRecv (x : Stat) : (c.count x).noRecv = c.noRecv :=
  Conn.recv_noRecv c

theorem tcpSendSegment_noRecv (seq off : UInt32) (n : UInt16) :
    (tcpSendSegment c flags seq off n).noRecv = c.noRecv := by
  obtain ⟨st, pend, dl, adv, heq⟩ := tcpSendSegment_eq c flags seq off n
  rw [heq]
  exact Conn.recv_noRecv c

theorem tcpSendCtl_noRecv : (tcpSendCtl c flags).noRecv = c.noRecv := by
  unfold tcpSendCtl
  rw [tcpSendSegment_noRecv]
  by_cases h : (flags &&& tcpRst != 0) = true
  · rw [if_pos h, Conn.count_noRecv]
  · rw [if_neg h]

theorem tcpSendResetFor_noRecv : (tcpSendResetFor c g).noRecv = c.noRecv := by
  unfold tcpSendResetFor
  split
  · rfl
  · exact Conn.recv_noRecv c

theorem rcvAppend_noRecv (data : List UInt8) : (rcvAppend c data).noRecv = c.noRecv := by
  have hset (buf : Nat → UInt8) (len nxt : UInt32) (n : UInt64) :
      ({ c with tcb := { c.tcb with rcvbuf := buf, rcvLen := len, rcvNxt := nxt } }.countBy
        .tcpRxBytes n).noRecv = c.noRecv := rfl
  have hcap : tcpRcvbuf = 65535 := rfl
  simp only [rcvAppend, rcvRingPut, hcap]
  rw [hset]

theorem ooo_noRecv (qs : List OooPkt) :
    { c with tcb := { c.tcb with ooo := qs } }.noRecv = c.noRecv := rfl

theorem oooDrainLoop_noRecv (qs : List OooPkt) (c : Conn) :
    (oooDrainLoop qs c).noRecv = c.noRecv := by
  induction qs generalizing c with
  | nil => exact ooo_noRecv c []
  | cons q qs ih =>
    unfold oooDrainLoop
    simp only
    split
    · exact ooo_noRecv c _
    split
    · exact ih c
    split
    · rw [ooo_noRecv, rcvAppend_noRecv]
    · rw [ih, rcvAppend_noRecv]

theorem tcpOooInsert_noRecv (seq : UInt32) (data : List UInt8) :
    (tcpOooInsert c seq data).noRecv = c.noRecv := by
  unfold tcpOooInsert
  split
  · exact Conn.count_noRecv c _
  split
  · exact Conn.count_noRecv c _
  · exact Conn.recv_noRecv c

theorem tcpDelayAck_noRecv (now : Nat) : (tcpDelayAck c now).noRecv = c.noRecv := by
  have hpend (n : UInt8) : { c with tcb := { c.tcb with delackPending := n } }.noRecv = c.noRecv :=
    rfl
  unfold tcpDelayAck
  simp only
  split
  · rw [tcpSendCtl_noRecv, hpend]
  split
  · exact Conn.recv_noRecv c
  · exact hpend _

theorem tcpRxTrimmed_noRecv (seq : UInt32) (data : List UInt8) (now : Nat) :
    (tcpRxTrimmed c seq data now).noRecv = c.noRecv := by
  unfold tcpRxTrimmed
  split
  · rfl
  unfold tcpRxInWindow
  split
  · rfl
  split
  · rw [tcpDelayAck_noRecv, tcpOooDrain, oooDrainLoop_noRecv, rcvAppend_noRecv]
  · rw [tcpSendCtl_noRecv, tcpOooInsert_noRecv]

theorem tcpInputText_noRecv (c : Conn) : (tcpInputText now g c).noRecv = c.noRecv := by
  unfold tcpInputText
  split
  · split
    · unfold tcpRxPayload
      split
      · simp only
        split
        · exact tcpSendCtl_noRecv c _
        · exact tcpRxTrimmed_noRecv c _ _ now
      · exact tcpRxTrimmed_noRecv c _ _ now
    · exact Conn.count_noRecv c _
  · rfl

/-- The acknowledgement of the peer's FIN, before the state moves. -/
theorem finAck_noRecv (finSeq : UInt32) (c : Conn) :
    (tcpSendCtl (consumeFin finSeq c) tcpAck).noRecv = c.noRecv := by
  rw [tcpSendCtl_noRecv]
  exact Conn.recv_noRecv c

section View

variable {α : Sort*} (f : Conn → α) {c d : Conn}

/-- What does not read the fields of the receive path is left as it is. -/
theorem Conn.of_noRecv (hf : ∀ x : Conn, f x.noRecv = f x) (h : d.noRecv = c.noRecv) :
    f d = f c := by rw [← hf d, h, hf c]

theorem Conn.state_of_noRecv (h : d.noRecv = c.noRecv) : d.tcb.state = c.tcb.state :=
  of_noRecv (fun x => x.tcb.state) (fun _ => rfl) h

theorem Conn.fate_of_noRecv (h : d.noRecv = c.noRecv) : d.fate = c.fate :=
  of_noRecv fate (fun _ => rfl) h

theorem Conn.queued_of_noRecv (h : d.noRecv = c.noRecv) : d.queued = c.queued :=
  of_noRecv queued (fun _ => rfl) h

end View

theorem tcpResend_noRecv : (tcpResend c).noRecv = c.noRecv := by
  unfold tcpResend
  split
  · exact tcpSendCtl_noRecv c _
  split
  · exact tcpSendCtl_noRecv c _
  split
  · exact tcpSendSegment_noRecv c _ _ _ _
  split
  · exact tcpSendSegment_noRecv c _ _ _ _
  · rfl

theorem tcpRetransmit_noRecv :
    (tcpRetransmit c).noRecv =
      ({ c with tcb := { c.tcb with rttTiming := false } } : Conn).noRecv := by
  unfold tcpRetransmit
  exact tcpResend_noRecv _

theorem rtoBackoff_eq (t : Tcb) :
    ∃ cwnd ssthresh dup, rtoBackoff t =
      { t with
        cwnd := cwnd
        ssthresh := ssthresh
        dupacks := dup
        rtoMs := pfMin (t.rtoMs * 2) 60000 } := by
  unfold rtoBackoff
  simp only
  split <;> exact ⟨_, _, _, rfl⟩

/-- A timeout restarts the timer and stops the measurement. -/
theorem tcpRtoRetransmit_noRecv :
    ∃ cwnd ssthresh dup rto, (tcpRtoRetransmit now c).noRecv =
      ({ c with
        tcb :=
          { c.tcb with
            cwnd := cwnd
            ssthresh := ssthresh
            dupacks := dup
            rtoMs := rto
            rttTiming := false
            rtoDeadline := now + rto.toNat } } : Conn).noRecv := by
  obtain ⟨cwnd, ssthresh, dup, hback⟩ := rtoBackoff_eq c.tcb
  have hrearm {x y : Conn} (h : x.noRecv = y.noRecv) :
      { x with tcb := { x.tcb with rtoDeadline := now + x.tcb.rtoMs.toNat } }.noRecv =
        { y with tcb := { y.tcb with rtoDeadline := now + y.tcb.rtoMs.toNat } }.noRecv :=
    congrArg (fun z : Conn =>
      { z with tcb := { z.tcb with rtoDeadline := now + z.tcb.rtoMs.toNat } }) h
  refine ⟨cwnd, ssthresh, dup, pfMin (c.tcb.rtoMs * 2) 60000, ?_⟩
  simp only [tcpRtoRetransmit]
  rw [hback]
  exact hrearm (tcpRetransmit_noRecv _)

end PacketForge
