import PacketForge.Tcp.Close

/-!
What one event can do to a connection that outlives it. `Act` lists the single
actions of the code with the guards under which it takes them, and every event is a
sequence of actions. Some of them leave work for the send engine, and the function
that takes them goes on to run it: `Stage` lists what these functions do to their
end, such that an invariant that holds between events also holds between stages.
How events are put together from stages, and how they end a connection, is the
subject of `Ends`.
-/

namespace PacketForge

/-- The connection has sent its SYN and had it acknowledged. -/
def Synced (t : Tcb) : Prop := t.state ≠ .synSent ∧ t.state ≠ .synRcvd

/-- The state the application's close leads to. -/
inductive ClosesTo : TcpState → TcpState → Prop where
  | synRcvd : ClosesTo .synRcvd .finWait1
  | established : ClosesTo .established .finWait1
  | closeWait : ClosesTo .closeWait .lastAck

theorem ClosesTo.target {st st' : TcpState} (h : ClosesTo st st') :
    st' = .finWait1 ∨ st' = .lastAck := by
  cases h with
  | synRcvd | established => exact Or.inl rfl
  | closeWait => exact Or.inr rfl

theorem ClosesTo.synced {st st' : TcpState} (h : ClosesTo st st') :
    st' ≠ .synSent ∧ st' ≠ .synRcvd := by
  rcases h.target with rfl | rfl <;> exact ⟨by decide, by decide⟩

/-- The zero-window probe of `tcp_tick`. -/
def tcpProbed (now : Nat) (c : Conn) : Conn :=
  let c := tcpSendProbe (c.count .tcpZeroWndProbes)
  { c with tcb := tcpArmRto c.tcb now }

def ConnEvent.time : ConnEvent → Option Nat
  | .segment now _ _ | .tick now | .send now _ | .close now => some now
  | .recv _ | .nodelay _ | .attach _ => none

/-- The actions of the receiving side, and segments without text and FIN. -/
inductive Heard : ConnEvent → Conn → Conn → Prop where
  | stat (e : ConnEvent) {c : Conn} (st : Stats) : Heard e c { c with stats := st }
  /-- In SYN_SENT only the delayed acknowledgement is looked at. -/
  | ack (e : ConnEvent) {c : Conn}
      (hst : c.tcb.state = .synSent → c.tcb.delackDeadline ≠ 0) : Heard e c (tcpSendCtl c tcpAck)
  /-- An unacceptable acknowledgement during the handshake. -/
  | reset (now : Nat) (lroom : Option Bool) (g : Seg) {c : Conn}
      (hst : c.tcb.state = .synSent ∨ c.tcb.state = .synRcvd) (hack : g.has tcpAck = true) :
      Heard (.segment now lroom g) c (tcpSendResetFor c g)
  /-- Text at `rcv_nxt`, trimmed to our window. -/
  | text (now : Nat) (lroom : Option Bool) (g : Seg) {c : Conn} (data : List UInt8)
      (hst : c.tcb.state.takesData = true) (hpos : data ≠ [])
      (hfit : data.length ≤ (tcpRcvWindow c.tcb).toNat) :
      Heard (.segment now lroom g) c (tcpDelayAck (tcpOooDrain (rcvAppend c data)) now)
  /-- Text behind a hole, trimmed to our window. -/
  | park (now : Nat) (lroom : Option Bool) (g : Seg) {c : Conn} (seq : UInt32) (data : List UInt8)
      (hst : c.tcb.state.takesData = true) (hpos : data ≠ []) (hgap : seq ≠ c.tcb.rcvNxt)
      (hfit : (seq - c.tcb.rcvNxt).toNat + data.length ≤ (tcpRcvWindow c.tcb).toNat) :
      Heard (.segment now lroom g) c (tcpSendCtl (tcpOooInsert c seq data) tcpAck)
  | recv (cap : Nat) {c : Conn} (hlen : c.tcb.rcvLen > 0) :
      Heard (.recv cap) c (announceWindow (rcvRelease (recvAmount c.tcb cap) c))

/-- The actions that leave the send engine nothing to do. -/
inductive Quiet : ConnEvent → Conn → Conn → Prop where
  | heard {e : ConnEvent} {c d : Conn} (h : Heard e c d) : Quiet e c d
  /-- SYN_SENT: our SYN is acknowledged by the peer's. -/
  | opened (now : Nat) (lroom : Option Bool) (g : Seg) {c : Conn} (hout : c.out = [])
      (hst : c.tcb.state = .synSent) (hlo : seqLe g.ack c.tcb.iss = false)
      (hhi : seqGt g.ack c.tcb.sndNxt = false) :
      Quiet (.segment now lroom g) c
        (tcpSendCtl (tcpEstablish ((tcpTakeSyn g c).setUna g.ack) g) tcpAck)
  | crossed (now : Nat) (lroom : Option Bool) (g : Seg) {c : Conn} (hst : c.tcb.state = .synSent) :
      Quiet (.segment now lroom g) c (tcpSimultaneousOpen now (tcpTakeSyn g c))
  /-- SYN_RCVD: our SYN is acknowledged. -/
  | answered (now : Nat) (lroom : Option Bool) (g : Seg) {c : Conn} (queued : Bool)
      (hout : c.out = []) (hst : c.tcb.state = .synRcvd) (hlo : seqLt c.tcb.sndUna g.ack = true)
      (hhi : seqLe g.ack c.tcb.sndNxt = true) (hq : lroom.isSome = true → queued = true) :
      Quiet (.segment now lroom g) c { tcpEstablish (c.setUna g.ack) g with queued := queued }
  | rxFin (now : Nat) (lroom : Option Bool) (g : Seg) {c : Conn}
      (hfin : finInOrder c.tcb g = true) :
      Quiet (.segment now lroom g) c (tcpTakeFin now (g.seq + g.paylen) c)
  | probe (now : Nat) {c : Conn} (hprobe : wantsProbe c.tcb = true) :
      Quiet (.tick now) c (tcpProbed now c)
  | nodelay (on : Bool) {c : Conn} :
      Quiet (.nodelay on) c { c with tcb := { c.tcb with nodelay := on } }
  | attach (sock : Option (Fin pfSockMax)) {c : Conn} :
      Quiet (.attach sock) c { c with tcb := { c.tcb with sockIdx := sock, listener := none } }

inductive Act : ConnEvent → Conn → Conn → Prop where
  | quiet {e : ConnEvent} {c d : Conn} (h : Quiet e c d) : Act e c d
  /-- The congestion state, and the counters. -/
  | tune (e : ConnEvent) {c : Conn} (cwnd ssthresh dup : UInt32) (st : Stats) :
      Act e c
        { c with
          stats := st
          tcb := { c.tcb with cwnd := cwnd, ssthresh := ssthresh, dupacks := dup } }
  /-- One round of the loop of `tcp_output`. -/
  | chunk {e : ConnEvent} (now : Nat) {c : Conn} (wnd : UInt32) (chunk : UInt16)
      (hnow : e.time = some now) (hst : c.tcb.state.sends = true)
      (hwnd : wnd.toNat ≤ c.tcb.sndWnd.toNat) (hnext : tcpNextChunk c.tcb wnd = some chunk) :
      Act e c (tcpOutputChunk now c chunk)
  | fin {e : ConnEvent} (now : Nat) {c : Conn} (hnow : e.time = some now)
      (hst : c.tcb.state.sends = true) (hq : c.tcb.finQueued = true) (hfin : c.tcb.finSent = false)
      (hall : c.tcb.sndLen = tcpDataInFlight c.tcb) : Act e c (tcpSendFin now c)
  | resend (e : ConnEvent) {c : Conn} : Act e c (tcpRetransmit c)
  | acked (now : Nat) (lroom : Option Bool) (g : Seg) {c : Conn} (hsync : Synced c.tcb)
      (hout : c.out = []) (hgt : seqGt g.ack c.tcb.sndUna = true)
      (hle : seqGt g.ack c.tcb.sndNxt = false)
      (hlast : ¬ (finAcked c.tcb g.ack = true ∧ c.tcb.state = .lastAck)) :
      Act (.segment now lroom g) c (tcpFinAcked now (finAcked c.tcb g.ack) (ackNew now g.ack c))
  | window (now : Nat) (lroom : Option Bool) (g : Seg) {c : Conn}
      (hlo : seqLe c.tcb.sndUna g.ack = true) (hhi : seqLe g.ack c.tcb.sndNxt = true) :
      Act (.segment now lroom g) c (takeWnd g c)
  /-- The retransmission timer went off. -/
  | backoff (now : Nat) {c : Conn} (cwnd ssthresh dup rtx rto : UInt32) (st : Stats)
      (hrtx : rtx = c.tcb.rtxCount + 1) (hrto : rto = pfMin (c.tcb.rtoMs * 2) 60000) :
      Act (.tick now) c
        { c with
          stats := st
          tcb :=
            { c.tcb with
              rtxCount := rtx
              rtoMs := rto
              cwnd := cwnd
              ssthresh := ssthresh
              dupacks := dup } }
  | rearm (now : Nat) {c : Conn} (harmed : c.tcb.rtoDeadline ≠ 0) :
      Act (.tick now) c { c with tcb := { c.tcb with rtoDeadline := now + c.tcb.rtoMs.toNat } }
  | append (now : Nat) (data : List UInt8) {c : Conn} (hout : c.out = [])
      (hcan : canAppend c.tcb = true) :
      Act (.send now data) c (sndAppend (data.take (sendAmount c.tcb data).toNat) c)
  | close (now : Nat) {c : Conn} (st : TcpState) (hout : c.out = [])
      (hst : ClosesTo c.tcb.state st) : Act (.close now) c (queueFin st c)

inductive Stage : ConnEvent → Conn → Conn → Prop where
  | quiet {e : ConnEvent} {c d : Conn} (h : Quiet e c d) : Stage e c d
  | newAck (now : Nat) (lroom : Option Bool) (g : Seg) {c : Conn} (hsync : Synced c.tcb)
      (hout : c.out = []) (hgt : seqGt g.ack c.tcb.sndUna = true)
      (hle : seqGt g.ack c.tcb.sndNxt = false)
      (hlast : ¬ (finAcked c.tcb g.ack = true ∧ c.tcb.state = .lastAck)) :
      Stage (.segment now lroom g) c
        (tcpOutput now (tcpFinAcked now (finAcked c.tcb g.ack) (ackNew now g.ack c)))
  | dupAck (now : Nat) (lroom : Option Bool) (g : Seg) {c : Conn} (hdup : isDupAck c.tcb g = true) :
      Stage (.segment now lroom g) c (tcpInputDupAck now c)
  | window (now : Nat) (lroom : Option Bool) (g : Seg) {c : Conn} :
      Stage (.segment now lroom g) c (tcpInputWnd now g c)
  | timeout (now : Nat) {c : Conn} (harmed : c.tcb.rtoDeadline ≠ 0) :
      Stage (.tick now) c (tcpRtoRetransmit now (countTimeout c))
  | send (now : Nat) (data : List UInt8) {c : Conn} (hout : c.out = [])
      (hcan : canAppend c.tcb = true) :
      Stage (.send now data) c
        (tcpOutput now (sndAppend (data.take (sendAmount c.tcb data).toNat) c))
  | close (now : Nat) {c : Conn} (st : TcpState) (hout : c.out = [])
      (hst : ClosesTo c.tcb.state st) :
      Stage (.close now) c (tcpOutput now (queueFin st c))

abbrev Stages (e : ConnEvent) : Conn → Conn → Prop := Relation.ReflTransGen (Stage e)

abbrev Acts (e : ConnEvent) : Conn → Conn → Prop := Relation.ReflTransGen (Act e)

section Acts

variable {e : ConnEvent} {c d : Conn} {now : Nat}

/-- The sending side is left as it is. -/
theorem Heard.noRecv (h : Heard e c d) : d.noRecv = c.noRecv := by
  cases h with
  | stat st => rfl
  | ack => exact tcpSendCtl_noRecv c _
  | reset now lroom g hst hack => exact tcpSendResetFor_noRecv c g
  | text now lroom g data hst hpos hfit =>
    rw [tcpDelayAck_noRecv, tcpOooDrain, oooDrainLoop_noRecv, rcvAppend_noRecv]
  | park now lroom g seq data hst hpos hgap hfit =>
    exact (tcpSendCtl_noRecv _ _).trans (tcpOooInsert_noRecv c seq data)
  | recv cap hlen =>
    have hread : (rcvRelease (recvAmount c.tcb cap) c).noRecv = c.noRecv :=
      Conn.recv_noRecv c
    unfold announceWindow
    split
    · exact (tcpSendCtl_noRecv _ _).trans hread
    · exact hread

theorem Heard.onlyCtl (h : Heard e c d) : OnlyCtl c.send d.send := by
  cases h with
  | stat st => exact OnlyCtl.refl _
  | ack => exact ackSent_onlyCtl rfl
  | reset now lroom g hst hack => exact tcpSendResetFor_onlyCtl c g
  | text now lroom g data hst hpos hfit =>
    apply (tcpDelayAck_onlyCtl _ now).of_view
    rw [tcpOooDrain, oooDrainLoop_send, rcvAppend_send]
  | park now lroom g seq data hst hpos hgap hfit =>
    exact ackSent_onlyCtl (tcpOooInsert_send c seq data)
  | recv cap hlen =>
    have h := pfRecvCopy_onlyCtl cap c
    rw [pfRecvCopy, if_pos hlen] at h
    exact h

theorem tcpTakeSyn_fate (g : Seg) (c : Conn) : (tcpTakeSyn g c).fate = c.fate := by
  unfold tcpTakeSyn tcpTakeMss
  simp only
  split <;> rfl

theorem tcpSendCtl_fate (c : Conn) (flags : UInt8) : (tcpSendCtl c flags).fate = c.fate :=
  Conn.rest_fate (tcpSendCtl_rest c flags)

theorem ackNew_fate (now : Nat) (ack : UInt32) (c : Conn) : (ackNew now ack c).fate = c.fate := by
  obtain ⟨st, srtt, rttvar, rto, rtx, cwnd, dup, dl, timing, heq, -⟩ := ackNew_eq now ack c
  rw [heq]

theorem tcpFinAcked_fate (now : Nat) (fin : Bool) (c : Conn) :
    (tcpFinAcked now fin c).fate = c.fate := by
  obtain ⟨rto, tw, dl, heq⟩ := tcpFinAcked_eq now fin c
  rw [heq]

/-- No action frees the block. -/
theorem Act.fate (h : Act e c d) : d.fate = c.fate := by
  cases h with
  | quiet h =>
    cases h with
    | heard h => exact Conn.fate_of_noRecv h.noRecv
    | opened now lroom g | crossed now lroom g =>
      exact (tcpSendCtl_fate _ _).trans (tcpTakeSyn_fate g c)
    | rxFin now lroom g =>
      have hack := Conn.fate_of_noRecv (finAck_noRecv (g.seq + g.paylen) c)
      exact hack
    | probe =>
      have hsent := Conn.rest_fate (tcpSendProbe_rest (c.count .tcpZeroWndProbes))
      exact hsent
    | answered | nodelay | attach => rfl
  | chunk now wnd chunk => exact Conn.rest_fate (tcpOutputChunk_rest now c chunk)
  | fin now => exact Conn.rest_fate (tcpSendFin_rest now c)
  | resend => exact Conn.rest_fate (tcpRetransmit_rest c)
  | acked now lroom g => exact (tcpFinAcked_fate now _ _).trans (ackNew_fate now g.ack c)
  | append =>
    have hring (xs : List UInt8) : (sndAppend xs c).fate = c.fate := rfl
    exact hring _
  | tune | window | backoff | rearm | close => rfl

theorem Acts.invariant {P : Conn → Prop} (hact : ∀ c d, Act e c d → P c → P d)
    (h : Acts e c d) (hc : P c) : P d := by
  induction h with
  | refl => exact hc
  | tail _ hlast ih => exact hact _ _ hlast ih

theorem tcpOutput_acts (hnow : e.time = some now) (c : Conn) : Acts e c (tcpOutput now c) :=
  tcpOutput_rule (P := Acts e c)
    (fun _ wnd chunk hst hwnd hnext hd => hd.tail (.chunk now wnd chunk hnow hst hwnd hnext))
    (fun _ hst hq hfin hall hd => hd.tail (.fin now hnow hst hq hfin hall)) .refl

theorem tcpInputDupAck_acts (hnow : e.time = some now) (c : Conn) :
    Acts e c (tcpInputDupAck now c) := by
  have hset (d : Conn) (n : UInt32) : Act e d (d.setCwnd n) := .tune e _ _ _ _
  have hcounted (d : Conn) : Acts e d (tcpDupAckCounted now d) := by
    unfold tcpDupAckCounted
    split
    · have hthresh (n : UInt32) : Act e d (d.setSsthresh n) := .tune e _ _ _ _
      have hfast (x : Conn) (n : UInt32) : Act e x ((x.count .tcpFastRtx).setCwnd n) :=
        .tune e _ _ _ _
      exact .tail (.tail (.single (hthresh _)) (.resend e)) (hfast _ _)
    split
    · exact .head (hset d _) (tcpOutput_acts hnow _)
    · exact .refl
  exact .head (.tune e _ _ _ _) (hcounted _)

theorem tcpInputWnd_acts (lroom : Option Bool) (g : Seg) (c : Conn) :
    Acts (.segment now lroom g) c (tcpInputWnd now g c) := by
  unfold tcpInputWnd
  split
  · rename_i hin
    rw [Bool.and_eq_true] at hin
    have htake := Act.window now lroom g hin.1 hin.2
    split
    · split
      · exact .head htake (tcpOutput_acts rfl _)
      · exact .single htake
    · exact .refl
  · exact .refl

theorem tcpRtoRetransmit_acts (harmed : c.tcb.rtoDeadline ≠ 0) :
    Acts (.tick now) c (tcpRtoRetransmit now (countTimeout c)) := by
  obtain ⟨cwnd, ssthresh, dup, hback⟩ := rtoBackoff_eq (countTimeout c).tcb
  rw [tcpRtoRetransmit, hback]
  refine .tail (.tail (.single (.backoff now cwnd ssthresh dup _ _ _ rfl rfl)) (.resend _))
    (.rearm now ?_)
  have hkeep (x : Conn) : (tcpRetransmit x).tcb.rtoDeadline = x.tcb.rtoDeadline :=
    (Conn.of_noRecv (fun d => d.tcb.rtoDeadline) (fun _ => rfl) (tcpRetransmit_noRecv x)).trans rfl
  rw [hkeep]
  exact harmed

theorem Stage.acts (h : Stage e c d) : Acts e c d := by
  cases h with
  | quiet h => exact .single (.quiet h)
  | newAck now lroom g hsync hout hgt hle hlast =>
    exact .head (.acked now lroom g hsync hout hgt hle hlast) (tcpOutput_acts rfl _)
  | dupAck now lroom g hdup => exact tcpInputDupAck_acts rfl c
  | window now lroom g => exact tcpInputWnd_acts lroom g c
  | timeout now harmed => exact tcpRtoRetransmit_acts harmed
  | send now data hout hcan => exact .head (.append now data hout hcan) (tcpOutput_acts rfl _)
  | close now st hout hst => exact .head (.close now st hout hst) (tcpOutput_acts rfl _)

end Acts

namespace Stages

variable {e : ConnEvent} {c d : Conn}

theorem heard (h : Heard e c d) : Stages e c d := .single (.quiet (.heard h))

theorem quiet (h : Quiet e c d) : Stages e c d := .single (.quiet h)

theorem invariant {P : Conn → Prop} (hstage : ∀ c d, Stage e c d → P c → P d)
    (h : Stages e c d) (hc : P c) : P d := by
  induction h with
  | refl => exact hc
  | tail _ hlast ih => exact hstage _ _ hlast ih

theorem acts (h : Stages e c d) : Acts e c d := by
  induction h with
  | refl => exact .refl
  | tail _ hlast ih => exact ih.trans hlast.acts

theorem fate (h : Stages e c d) : d.fate = c.fate :=
  Acts.invariant (P := fun x => x.fate = c.fate) (fun _ _ hact hx => hact.fate.trans hx) h.acts rfl

theorem countAck (e : ConnEvent) (c : Conn) (x : Stat) (hst : c.tcb.state ≠ .synSent) :
    Stages e c (tcpSendCtl (c.count x) tcpAck) :=
  (heard (.stat e _)).tail (.quiet (.heard (.ack e (fun h => absurd h hst))))

end Stages

/-! ### Text -/

section Text

variable {now : Nat} {lroom : Option Bool} {g : Seg} {c : Conn}

/-- The distance from the end of the window, by the offset from its start. -/
theorem sub_rcvWndEnd (t : Tcb) (seq : UInt32) : (seq - rcvWndEnd t).toNat =
    (2 ^ 32 - (tcpRcvWindow t).toNat + (seq - t.rcvNxt).toNat) % 2 ^ 32 := by
  have hrev : seq - rcvWndEnd t = (seq - t.rcvNxt) - (tcpRcvWindow t).toUInt32 := by
    unfold rcvWndEnd
    grind
  rw [hrev, UInt32.toNat_sub, UInt16.toNat_toUInt32]

theorem seqGe_rcvWndEnd {t : Tcb} {seq : UInt32} (hlo : (seq - t.rcvNxt).toNat < 2 ^ 31) :
    seqGe seq (rcvWndEnd t) = true ↔ (tcpRcvWindow t).toNat ≤ (seq - t.rcvNxt).toNat := by
  have hw := (tcpRcvWindow t).toNat_lt
  rw [seqGe_iff, sub_rcvWndEnd]
  omega

/-- The tail of a segment that starts inside the window is cut at its end. -/
theorem trimTail_eq {t : Tcb} {seq : UInt32} {data : List UInt8} (hlen : data.length < 2 ^ 16)
    (hin : (seq - t.rcvNxt).toNat < (tcpRcvWindow t).toNat) :
    trimTail t seq data = data.take ((tcpRcvWindow t).toNat - (seq - t.rcvNxt).toNat) := by
  have hw := (tcpRcvWindow t).toNat_lt
  have hroom : (rcvWndEnd t - seq).toNat = (tcpRcvWindow t).toNat - (seq - t.rcvNxt).toNat := by
    have hend : rcvWndEnd t - seq = (tcpRcvWindow t).toUInt32 - (seq - t.rcvNxt) := by
      unfold rcvWndEnd
      grind
    have hle : seq - t.rcvNxt ≤ (tcpRcvWindow t).toUInt32 := by
      rw [UInt32.le_iff_toNat_le, UInt16.toNat_toUInt32]
      exact hin.le
    rw [hend, UInt32.toNat_sub_of_le _ _ hle, UInt16.toNat_toUInt32]
  have hover : (seq + UInt32.ofNat data.length - rcvWndEnd t).toNat =
      (2 ^ 32 - (rcvWndEnd t - seq).toNat + data.length) % 2 ^ 32 := by
    have hsum : seq + UInt32.ofNat data.length - rcvWndEnd t =
        UInt32.ofNat data.length - (rcvWndEnd t - seq) := by grind
    rw [hsum, UInt32.toNat_sub, UInt32.toNat_ofNat',
      Nat.mod_eq_of_lt (by omega : data.length < 2 ^ 32)]
  unfold trimTail
  split
  · rw [hroom]
  · rename_i hgt
    rw [seqGt_iff, hover, hroom] at hgt
    exact (List.take_of_length_le (by omega)).symm

theorem trimTail_fits {t : Tcb} {seq : UInt32} {data : List UInt8} (hlen : data.length < 2 ^ 16)
    (hlo : (seq - t.rcvNxt).toNat < 2 ^ 31) (hhi : seqGe seq (rcvWndEnd t) = false) :
    (seq - t.rcvNxt).toNat + (trimTail t seq data).length ≤ (tcpRcvWindow t).toNat := by
  rw [← Bool.not_eq_true, seqGe_rcvWndEnd hlo] at hhi
  rw [trimTail_eq hlen (Nat.lt_of_not_le hhi), List.length_take]
  omega

theorem tcpRxInWindow_stages (hst : c.tcb.state.takesData = true) {seq : UInt32} {data : List UInt8}
    (hfit : (seq - c.tcb.rcvNxt).toNat + data.length ≤ (tcpRcvWindow c.tcb).toNat) :
    Stages (.segment now lroom g) c (tcpRxInWindow c seq data now) := by
  unfold tcpRxInWindow
  split
  · exact .refl
  · rename_i hlen
    have hpos : data ≠ [] := fun h => hlen (by rw [h]; rfl)
    split
    · exact Stages.heard (.text now lroom g data hst hpos (by omega))
    · rename_i hgap
      exact Stages.heard (.park now lroom g seq data hst hpos hgap hfit)

theorem tcpRxTrimmed_stages (hst : c.tcb.state.takesData = true) {seq : UInt32} {data : List UInt8}
    (hlen : data.length < 2 ^ 16) (hlo : (seq - c.tcb.rcvNxt).toNat < 2 ^ 31) :
    Stages (.segment now lroom g) c (tcpRxTrimmed c seq data now) := by
  unfold tcpRxTrimmed
  split
  · exact .refl
  · rename_i hin
    exact tcpRxInWindow_stages hst (trimTail_fits hlen hlo (by simpa using hin))

theorem tcpInputText_stages (now : Nat) (lroom : Option Bool) (g : Seg) (c : Conn) :
    Stages (.segment now lroom g) c (tcpInputText now g c) := by
  unfold tcpInputText
  split
  · split
    · rename_i hst
      simp only [tcpRxPayload]
      split
      · split
        · exact Stages.heard (.ack _ (fun h => absurd h (takesData_sync hst).1))
        · apply tcpRxTrimmed_stages hst
          · have hlen := g.payload_lt
            rw [List.length_drop]
            omega
          · rw [UInt32.sub_self]
            decide
      · rename_i hge
        apply tcpRxTrimmed_stages hst g.payload_lt
        rw [seqLt_iff] at hge
        omega
    · exact Stages.heard (.stat _ _)
  · exact .refl

end Text

end PacketForge
