import PacketForge.Tcp.Flight

/-!
The retransmission timer is armed exactly while something is in flight, and the
2MSL timer runs in TIME_WAIT. This holds of every block the code opens, whatever is
then done with it.
-/

namespace PacketForge

/-! ### The timer -/

structure ClockView where
  mss : UInt16
  rtoMs : UInt32
  una : UInt32
  nxt : UInt32
  deadline : Nat

def Tcb.clock (t : Tcb) : ClockView where
  mss := t.mss
  rtoMs := t.rtoMs
  una := t.sndUna
  nxt := t.sndNxt
  deadline := t.rtoDeadline

/-- The timer is armed exactly while something is in flight. -/
structure Armed (v : ClockView) : Prop where
  mss : v.mss ≠ 0
  rto_pos : 0 < v.rtoMs.toNat
  rto_le : v.rtoMs.toNat ≤ tcpRtoMaxMs
  timer : v.una = v.nxt ↔ v.deadline = 0

/-- `snd_nxt` moves over `n` sequence numbers just sent, and the timer starts
unless it is running. -/
def ClockView.advance (v : ClockView) (now : Nat) (n : UInt32) : ClockView :=
  { v with
    nxt := v.nxt + n
    deadline := if v.deadline = 0 then now + v.rtoMs.toNat else v.deadline }

theorem Armed.advance {v : ClockView} (h : Armed v) (now : Nat) {n : UInt32}
    (hne : v.una ≠ v.nxt + n) : Armed (v.advance now n) := by
  refine ⟨h.mss, h.rto_pos, h.rto_le, ?_⟩
  have hpos := h.rto_pos
  simp only [ClockView.advance]
  refine ⟨fun heq => absurd heq hne, fun hz => ?_⟩
  split at hz
  · omega
  · rename_i hrun
    exact absurd hz hrun

theorem Conn.clock_of_noRecv {c d : Conn} (h : d.noRecv = c.noRecv) : d.tcb.clock = c.tcb.clock :=
  of_noRecv (fun x => x.tcb.clock) (fun _ => rfl) h

theorem Armed.of_noRecv {c d : Conn} (h : Armed c.tcb.clock) (heq : d.noRecv = c.noRecv) :
    Armed d.tcb.clock := by
  rw [Conn.clock_of_noRecv heq]
  exact h

theorem tcpArmRto_clock (t : Tcb) (now : Nat) :
    (tcpArmRto t now).clock = t.clock.advance now 0 := by
  rw [tcpArmRto_eq, ClockView.advance, UInt32.add_zero]
  rfl

/-- The fields a transmission writes, as the timer sees them. -/
theorem advance_clock (t : Tcb) (now : Nat) (n : UInt32) (fin timing : Bool) (rseq : UInt32)
    (rstart dl : Nat) (adv : UInt16) (pend : UInt8) :
    ({ t with
        sndNxt := t.sndNxt + n
        finSent := fin
        rttTiming := timing
        rttSeq := rseq
        rttStartMs := rstart
        rtoDeadline := if t.rtoDeadline = 0 then now + t.rtoMs.toNat else t.rtoDeadline
        delackPending := pend
        delackDeadline := dl
        rcvWndAdvertised := adv } : Tcb).clock = t.clock.advance now n := rfl

theorem tcpOutputChunk_clock (now : Nat) (c : Conn) (chunk : UInt16) :
    (tcpOutputChunk now c chunk).tcb.clock = c.tcb.clock.advance now chunk.toUInt32 := by
  obtain ⟨st, pend, dl, adv, heq⟩ := tcpOutputChunk_eq now c chunk
  rw [heq]
  exact advance_clock c.tcb now _ _ _ _ _ _ _ _

theorem tcpSendFin_clock (now : Nat) (c : Conn) :
    (tcpSendFin now c).tcb.clock = c.tcb.clock.advance now 1 := by
  obtain ⟨st, pend, dl, adv, heq⟩ := tcpSendFin_eq now c
  rw [heq]
  exact advance_clock c.tcb now 1 _ _ _ _ _ _ _

theorem tcpProbed_clock (now : Nat) (c : Conn) :
    (tcpProbed now c).tcb.clock = c.tcb.clock.advance now 1 := by
  obtain ⟨st, pend, dl, adv, heq⟩ := tcpSendProbe_eq (c.count .tcpZeroWndProbes)
  simp only [tcpProbed]
  rw [heq, tcpArmRto_eq]
  exact advance_clock c.tcb now 1 _ _ _ _ _ _ _

theorem tcpRetransmit_clock (c : Conn) : (tcpRetransmit c).tcb.clock = c.tcb.clock := by
  have hkarn : ({ c.tcb with rttTiming := false } : Tcb).clock = c.tcb.clock := rfl
  exact (Conn.clock_of_noRecv (tcpResend_noRecv _)).trans hkarn

variable (now : Nat) (g : Seg) (ack : UInt32) {c : Conn}

/-! ### Acknowledgements and the handshake -/

/-- The RTO a sample computes lies between its two bounds. -/
theorem tcpRttSample_rto (c : Conn) (r : UInt32) :
    0 < (tcpRttSample c r).tcb.rtoMs.toNat ∧ (tcpRttSample c r).tcb.rtoMs.toNat ≤ tcpRtoMaxMs := by
  have hclamp (x : Int) :
      0 < (UInt32.ofNat (if (if x < tcpRtoMinMs then tcpRtoMinMs else x) > tcpRtoMaxMs then
        (tcpRtoMaxMs : Int) else if x < tcpRtoMinMs then tcpRtoMinMs else x).toNat).toNat ∧
      (UInt32.ofNat (if (if x < tcpRtoMinMs then tcpRtoMinMs else x) > tcpRtoMaxMs then
        (tcpRtoMaxMs : Int) else if x < tcpRtoMinMs then tcpRtoMinMs else x).toNat).toNat ≤
        tcpRtoMaxMs := by
    have hmin : tcpRtoMinMs = 200 := rfl
    have hmax : tcpRtoMaxMs = 60000 := rfl
    rw [UInt32.toNat_ofNat']
    split <;> split <;> omega
  exact hclamp _

/-- An acknowledgement restarts the timer or stops it. -/
theorem ackNew_armed (h : Armed c.tcb.clock) : Armed (ackNew now ack c).tcb.clock := by
  obtain ⟨st, srtt, rttvar, rto, rtx, cwnd, dup, dl, timing, heq, -, -, hdl, hrto⟩ :=
    ackNew_eq now ack c
  have hrange : 0 < rto.toNat ∧ rto.toNat ≤ tcpRtoMaxMs := by
    rcases hrto with rfl | ⟨d, r, rfl⟩
    · exact ⟨h.rto_pos, h.rto_le⟩
    · exact tcpRttSample_rto d r
  have hclock : (ackNew now ack c).tcb.clock = ⟨c.tcb.mss, rto, ack, c.tcb.sndNxt, dl⟩ := by
    rw [heq]
    rfl
  rw [hclock]
  refine ⟨h.mss, hrange.1, hrange.2, ?_⟩
  change ack = c.tcb.sndNxt ↔ dl = 0
  rw [hdl]
  split
  · rename_i hidle
    exact ⟨fun _ => rfl, fun _ => hidle⟩
  · rename_i hbusy
    exact ⟨fun hidle => absurd hidle hbusy, fun hz => by omega⟩

/-- Entering TIME_WAIT on the acknowledgement of our FIN finds nothing in
flight. -/
theorem tcpFinAcked_armed (h : Armed c.tcb.clock) :
    Armed (tcpFinAcked now (finAcked c.tcb g.ack) (ackNew now g.ack c)).tcb.clock := by
  have hnew := ackNew_armed now g.ack h
  have hview := ackNew_send now g.ack c
  unfold tcpFinAcked
  split
  · exact hnew
  split
  · rename_i hfin
    simp only [Bool.and_eq_true, finAcked, decide_eq_true_eq] at hfin
    have hidle : (ackNew now g.ack c).tcb.sndUna = (ackNew now g.ack c).tcb.sndNxt := by
      have huna := congrArg SendView.una hview
      have hnxt := congrArg SendView.nxt hview
      exact huna.trans (hfin.1.2.trans hnxt.symm)
    exact ⟨hnew.mss, hnew.rto_pos, hnew.rto_le, fun _ => rfl, fun _ => hidle⟩
  · exact hnew

theorem tcpTakeMss_tcb (c : Conn) (g : Seg) :
    (tcpTakeMss c g).tcb = tcpApplyMss c.tcb (tcpParseMss g.opts).1 := by
  unfold tcpTakeMss
  simp only
  split <;> rfl

theorem tcpApplyMss_ne_zero (t : Tcb) (mss : UInt16) : (tcpApplyMss t mss).mss ≠ 0 := by
  unfold tcpApplyMss
  simp only
  split
  · rename_i hne
    split
    · exact hne
    · decide
  · decide

theorem tcpApplyMss_armed {t : Tcb} (h : Armed t.clock) (mss : UInt16) :
    Armed (tcpApplyMss t mss).clock :=
  ⟨tcpApplyMss_ne_zero t mss, h.rto_pos, h.rto_le, h.timer⟩

theorem tcpTakeSyn_armed (h : Armed c.tcb.clock) : Armed (tcpTakeSyn g c).tcb.clock := by
  have hsyn : Armed ({ c.tcb with irs := g.seq, rcvNxt := g.seq + 1 } : Tcb).clock := h
  unfold tcpTakeSyn
  rw [tcpTakeMss_tcb]
  exact tcpApplyMss_armed hsyn _

/-- The handshake is over: nothing is in flight. -/
theorem tcpEstablish_armed {g : Seg} (h : Armed c.tcb.clock) (hack : g.ack = c.tcb.sndNxt) :
    Armed (tcpEstablish (c.setUna g.ack) g).tcb.clock :=
  ⟨h.mss, h.rto_pos, h.rto_le, fun _ => rfl, fun _ => hack⟩

theorem tcpSimultaneousOpen_armed (h : Armed c.tcb.clock) (hbusy : c.tcb.sndUna ≠ c.tcb.sndNxt) :
    Armed (tcpSimultaneousOpen now c).tcb.clock := by
  have hclock : (tcpSimultaneousOpen now c).tcb.clock = c.tcb.clock.advance now 0 := by
    have hstate : (c.setState .synRcvd).tcb.clock = c.tcb.clock := rfl
    simp only [tcpSimultaneousOpen]
    rw [tcpArmRto_clock, Conn.clock_of_noRecv (tcpSendCtl_noRecv _ _), hstate]
  rw [hclock]
  apply h.advance now
  rw [UInt32.add_zero]
  exact hbusy

/-! ### The remaining actions -/

/-- The doubled RTO stays in range. -/
theorem backoff_toNat {rto : UInt32} (hle : rto.toNat ≤ 60000) :
    (pfMin (rto * 2) 60000).toNat = min (rto.toNat * 2) 60000 := by
  rw [pfMin_toNat, UInt32.toNat_mul]
  change min (rto.toNat * 2 % 4294967296) 60000 = _
  rw [Nat.mod_eq_of_lt (by omega)]

theorem isDupAck_busy {t : Tcb} {g : Seg} (hdup : isDupAck t g = true) : t.sndUna ≠ t.sndNxt := by
  intro hidle
  simp only [isDupAck, Bool.and_eq_true] at hdup
  have hlt := (seqLt_iff _ _).mp hdup.2
  rw [hidle, UInt32.sub_self] at hlt
  simp at hlt

theorem tcpTakeFin_armed (finSeq : UInt32) {c : Conn} (hf : Flight c.send) (h : Armed c.tcb.clock) :
    Armed (tcpTakeFin now finSeq c).tcb.clock := by
  unfold tcpTakeFin
  set x := tcpSendCtl (consumeFin finSeq c) tcpAck with hx
  have hrest : x.noRecv = c.noRecv := finAck_noRecv finSeq c
  have hclock : x.tcb.clock = c.tcb.clock := Conn.clock_of_noRecv hrest
  have hax : Armed x.tcb.clock := hclock ▸ h
  have hst : x.tcb.state = c.tcb.state := Conn.state_of_noRecv hrest
  simp only [tcpFinState]
  cases hstate : x.tcb.state with
  | finWait2 =>
    -- our FIN is acknowledged, so there is nothing the timer would be for
    have hdone := hf.done (Or.inl (hst.symm.trans hstate))
    have huna := congrArg ClockView.una hclock
    have hnxt := congrArg ClockView.nxt hclock
    have hidle : x.tcb.sndUna = x.tcb.sndNxt := huna.trans (hdone.trans hnxt.symm)
    exact ⟨hax.mss, hax.rto_pos, hax.rto_le, fun _ => rfl, fun _ => hidle⟩
  | established | finWait1 | timeWait | closed | listen | synSent | synRcvd | closeWait | closing
    | lastAck => exact hax

/-- Every action keeps the timer in step with what is in flight. -/
theorem Act.armed {e : ConnEvent} {c d : Conn} (h : Act e c d) (hf : Flight c.send)
    (ha : Armed c.tcb.clock) : Armed d.tcb.clock := by
  cases h with
  | quiet h =>
    cases h with
    | heard h => exact ha.of_noRecv h.noRecv
    | opened now lroom g hout hst hlo hhi =>
      have hnxt : (tcpTakeSyn g c).tcb.sndNxt = c.tcb.sndNxt :=
        congrArg SendView.nxt (tcpTakeSyn_send g c)
      have hest := tcpEstablish_armed (g := g) (tcpTakeSyn_armed g ha)
        ((hf.opened_ack hst hlo hhi).trans hnxt.symm)
      exact hest.of_noRecv (tcpSendCtl_noRecv _ _)
    | crossed now lroom g hst =>
      have hview := tcpTakeSyn_send g c
      have huna := congrArg SendView.una hview
      have hnxt := congrArg SendView.nxt hview
      have hbusy : (tcpTakeSyn g c).tcb.sndUna ≠ (tcpTakeSyn g c).tcb.sndNxt :=
        fun heq => hf.opening_busy (Or.inl hst) (huna.symm.trans (heq.trans hnxt))
      exact tcpSimultaneousOpen_armed now (tcpTakeSyn_armed g ha) hbusy
    | answered now lroom g queued hout hst hlo hhi =>
      exact tcpEstablish_armed ha (hf.answered_ack hst hlo hhi)
    | rxFin now lroom g hfin => exact tcpTakeFin_armed now _ hf ha
    | probe now hprobe =>
      rw [tcpProbed_clock]
      exact ha.advance now hf.next_ne
    | nodelay on => exact ha
    | attach sock => exact ha
  | tune | window => exact ha
  | chunk now wnd chunk hnow hst hwnd hnext =>
    obtain ⟨-, hpos, -, -, hfit⟩ := tcpNextChunk_some hnext
    rw [UInt32.lt_iff_toNat_lt, UInt32.toNat_zero] at hpos
    have hlt := wnd.toNat_lt
    rw [tcpOutputChunk_clock]
    refine ha.advance now (una_ne_of_flight hpos ?_)
    rw [UInt16.toNat_toUInt32]
    exact Nat.lt_of_le_of_lt hfit hlt
  | fin now =>
    rw [tcpSendFin_clock]
    exact ha.advance now hf.next_ne
  | resend =>
    rw [tcpRetransmit_clock]
    exact ha
  | acked now lroom g => exact tcpFinAcked_armed now g ha
  | backoff now cwnd ssthresh dup rtx rto st hrtx hrto =>
    have hpos : 0 < c.tcb.rtoMs.toNat := ha.rto_pos
    have hval : rto.toNat = min (c.tcb.rtoMs.toNat * 2) 60000 := hrto ▸ backoff_toNat ha.rto_le
    refine ⟨ha.mss, ?_, ?_, ha.timer⟩
    · change 0 < rto.toNat
      omega
    · change rto.toNat ≤ 60000
      omega
  | rearm now harmed =>
    have hpos : 0 < c.tcb.rtoMs.toNat := ha.rto_pos
    refine ⟨ha.mss, ha.rto_pos, ha.rto_le, fun hidle => absurd (ha.timer.mp hidle) harmed, ?_⟩
    intro hz
    change now + c.tcb.rtoMs.toNat = 0 at hz
    omega
  | append now data =>
    have hring (buf : Nat → UInt8) (len : UInt32) :
        Armed ({ c.tcb with sndbuf := buf, sndLen := len } : Tcb).clock := ha
    exact hring _ _
  | close => exact ha

/-! ### Opening a connection -/

theorem tcpStartSyn_armed (flags : UInt8) {c : Conn} (hmss : c.tcb.mss ≠ 0)
    (hrto : c.tcb.rtoMs = tcpRtoInitialMs) (hoff : c.tcb.rtoDeadline = 0)
    (hnxt : c.tcb.sndNxt = c.tcb.sndUna + 1) : Armed (tcpStartSyn now flags c).tcb.clock := by
  have hclock : (tcpStartSyn now flags c).tcb.clock = c.tcb.clock.advance now 0 := by
    simp only [tcpStartSyn]
    rw [tcpArmRto_clock, Conn.clock_of_noRecv (tcpSendCtl_noRecv _ _)]
  have hms : c.tcb.rtoMs.toNat = 1000 := by
    rw [hrto]
    rfl
  have hne : c.tcb.sndUna ≠ c.tcb.sndNxt + 0 := by
    rw [hnxt, UInt32.add_zero]
    exact self_ne_add_one _
  rw [hclock]
  refine ⟨hmss, ?_, ?_, ?_⟩
  · change 0 < c.tcb.rtoMs.toNat
    omega
  · change c.tcb.rtoMs.toNat ≤ 60000
    omega
  · change c.tcb.sndUna = c.tcb.sndNxt + 0 ↔
      (if c.tcb.rtoDeadline = 0 then now + c.tcb.rtoMs.toNat else c.tcb.rtoDeadline) = 0
    rw [if_pos hoff]
    exact ⟨fun heq => absurd heq hne, fun hz => by omega⟩

theorem Opened.armed (h : Opened c) : Armed c.tcb.clock := by
  cases h with
  | active now sock lip lport rip rport iss st =>
    have hmss : tcpDefaultMss ≠ 0 := by decide
    exact tcpStartSyn_armed now _ hmss rfl rfl rfl
  | passive now l lport iss g st =>
    have htcb :=
      tcpTakeMss_tcb ((Conn.start (passiveTcb l lport iss g) st).count .tcpPassiveOpens) g
    have hset (d : Conn) : (d.setState .synRcvd).tcb = { d.tcb with state := .synRcvd } := rfl
    apply tcpStartSyn_armed <;> rw [hset, htcb]
    · exact tcpApplyMss_ne_zero (passiveTcb l lport iss g) _
    all_goals rfl

/-! ### TIME_WAIT -/

/-- In TIME_WAIT the 2MSL timer is running. -/
def Lingers (t : Tcb) : Prop := t.state = .timeWait → t.timewaitDeadline ≠ 0

namespace Lingers

variable {c d : Conn}

theorem of_state {t : Tcb} (st : TcpState) (hst : t.state = st) (hne : st ≠ .timeWait) :
    Lingers t := by
  intro hwait
  exact absurd (hst.symm.trans hwait) hne

theorem of_rest (h : Lingers c.tcb) (heq : d.rest = c.rest) : Lingers d.tcb :=
  (Conn.of_rest (fun x => Lingers x.tcb) (fun _ => rfl) heq).mpr h

theorem of_noRecv (h : Lingers c.tcb) (heq : d.noRecv = c.noRecv) : Lingers d.tcb :=
  (Conn.of_noRecv (fun x => Lingers x.tcb) (fun _ => rfl) heq).mpr h

theorem entered (t : Tcb) (now : Nat) : Lingers (tcpEnterTimewait t now) := by
  intro _
  change now + 2 * 5000 ≠ 0
  omega

end Lingers

theorem tcpFinAcked_lingers (now : Nat) (fin : Bool) {c : Conn} (h : Lingers c.tcb) :
    Lingers (tcpFinAcked now fin c).tcb := by
  unfold tcpFinAcked
  split
  · exact Lingers.of_state .finWait2 rfl (by decide)
  split
  · exact Lingers.entered _ now
  · exact h

theorem tcpTakeFin_lingers (now : Nat) (finSeq : UInt32) {c : Conn} (h : Lingers c.tcb) :
    Lingers (tcpTakeFin now finSeq c).tcb := by
  unfold tcpTakeFin
  set x := tcpSendCtl (consumeFin finSeq c) tcpAck with hx
  have hlx : Lingers x.tcb := h.of_noRecv (finAck_noRecv finSeq c)
  simp only [tcpFinState]
  cases hstate : x.tcb.state with
  | established => exact Lingers.of_state .closeWait rfl (by decide)
  | finWait1 => exact Lingers.of_state .closing rfl (by decide)
  | finWait2 => exact Lingers.entered _ now
  | timeWait =>
    intro _
    change now + 2 * 5000 ≠ 0
    omega
  | closed | listen | synSent | synRcvd | closeWait | closing | lastAck => exact hlx

theorem Act.lingers {e : ConnEvent} {c d : Conn} (h : Act e c d) (hl : Lingers c.tcb) :
    Lingers d.tcb := by
  cases h with
  | quiet h =>
    cases h with
    | heard h => exact hl.of_noRecv h.noRecv
    | opened now lroom g hout hst hlo hhi =>
      have hest : Lingers (tcpEstablish ((tcpTakeSyn g c).setUna g.ack) g).tcb :=
        Lingers.of_state .established rfl (by decide)
      exact hest.of_rest (tcpSendCtl_rest _ _)
    | crossed now lroom g hst =>
      have hst' : (tcpSimultaneousOpen now (tcpTakeSyn g c)).tcb.state = .synRcvd :=
        congrArg RecvView.state (tcpSimultaneousOpen_recv now _)
      exact Lingers.of_state _ hst' (by decide)
    | answered => exact Lingers.of_state .established rfl (by decide)
    | rxFin now lroom g hfin => exact tcpTakeFin_lingers now _ hl
    | probe now hprobe =>
      have hcount : Lingers (c.count .tcpZeroWndProbes).tcb := hl
      exact hcount.of_rest ((tcpArmRto_rest _ _ now).trans (tcpSendProbe_rest _))
    | nodelay on => exact hl
    | attach sock => exact hl
  | tune | window | backoff | rearm => exact hl
  | chunk now wnd chunk => exact hl.of_rest (tcpOutputChunk_rest now c chunk)
  | fin now => exact hl.of_rest (tcpSendFin_rest now c)
  | resend => exact hl.of_rest (tcpRetransmit_rest c)
  | acked now lroom g =>
    have hnew : Lingers (ackNew now g.ack c).noSend.tcb := by
      rw [ackNew_noSend]
      exact hl
    exact tcpFinAcked_lingers now (finAcked c.tcb g.ack) hnew
  | append now data =>
    have hring (buf : Nat → UInt8) (len : UInt32) :
        Lingers ({ c.tcb with sndbuf := buf, sndLen := len } : Tcb) := hl
    exact hring _ _
  | close now st hout hst =>
    refine Lingers.of_state st rfl ?_
    rcases hst.target with rfl | rfl <;> decide

theorem Opened.lingers {c : Conn} (h : Opened c) : Lingers c.tcb := by
  rcases h.state with hst | hst
  · exact Lingers.of_state _ hst (by decide)
  · exact Lingers.of_state _ hst (by decide)

/-! ### Events -/

/-- The timers of a block and what they watch over, between events. -/
structure Clocked (t : Tcb) : Prop where
  flight : Flight (Conn.start t Stats.zero).send
  armed : Armed t.clock
  lingers : Lingers t

theorem Opened.clocked {c : Conn} (h : Opened c) : Clocked c.tcb :=
  ⟨h.flight.quiet _, h.armed, h.lingers⟩

/-- What every action keeps, an event keeps unless it frees the block. -/
theorem Clocked.keeps {P : Conn → Prop} {t : Tcb} {st : Stats} {e : ConnEvent} (h : Clocked t)
    (hact : ∀ c d, Act e c d → Flight c.send → P c → P d) (hstart : P (Conn.start t st))
    (hend : (connHandle (Conn.start t st) e).fate = .alive) :
    Flight (connHandle (Conn.start t st) e).send ∧ P (connHandle (Conn.start t st) e) := by
  have hflight : Flight (Conn.start t st).send :=
    Flight.quiet (c := Conn.start t Stats.zero) h.flight st
  refine Acts.invariant (P := fun c => Flight c.send ∧ P c) ?_
    (connHandle_stages (t := t) hflight.synWaits hend).acts ⟨hflight, hstart⟩
  rintro c d hcd ⟨hf, hp⟩
  exact ⟨hcd.flight hf, hact c d hcd hf hp⟩

/-- Every event leaves the timer armed exactly while something is in flight. -/
theorem connHandle_clocked {t : Tcb} {st : Stats} {e : ConnEvent} (h : Clocked t)
    (hend : (connHandle (Conn.start t st) e).fate = .alive) :
    Clocked (connHandle (Conn.start t st) e).tcb := by
  have hall := h.keeps (P := fun c => Armed c.tcb.clock ∧ Lingers c.tcb)
    (fun c d hcd hf hp => ⟨hcd.armed hf hp.1, hcd.lingers hp.2⟩) ⟨h.armed, h.lingers⟩ hend
  exact ⟨hall.1.quiet _, hall.2.1, hall.2.2⟩

end PacketForge
