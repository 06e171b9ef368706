import PacketForge.Lib.Run
import PacketForge.Tcp.Ends
import PacketForge.Tcp.StageViews

/-!
When `tcp_tick` gives a connection up. The retry counter goes up with every
expiry of the retransmission timer and is cleared only where `snd_una` moves.
A zero-window probe is ordinary data in flight, so a peer that answers each
probe with the same acknowledgement and a window of zero does not clear it:
such a connection is aborted at the eleventh expiry, however alive its peer
is.
-/

namespace PacketForge

/-- The event is a tick at which the retransmission timer goes off. -/
def rtoExpires (c : Conn) : ConnEvent → Bool
  | .tick now =>
    c.fate = .alive && c.tcb.state ≠ .timeWait && c.tcb.rtoDeadline ≠ 0 &&
      c.tcb.rtoDeadline ≤ now
  | _ => false

/-- The event is an acceptable acknowledgement of `snd_una` that advertises a
window of zero. -/
def answersProbe (c : Conn) : ConnEvent → Bool
  | .segment _ _ g =>
    c.fate = .alive && reachesAck c.tcb g && g.ack = c.tcb.sndUna && g.wnd = 0
  | _ => false

/-! ### What clears the counter -/

def Tcb.retry (t : Tcb) : UInt32 × UInt32 := (t.sndUna, t.rtxCount)

section Frames

variable {c d : Conn}

theorem Conn.retry_of_rest (h : d.rest = c.rest) : d.tcb.retry = c.tcb.retry :=
  of_rest (fun x => x.tcb.retry) (fun _ => rfl) h

theorem Conn.retry_of_noRecv (h : d.noRecv = c.noRecv) : d.tcb.retry = c.tcb.retry :=
  of_noRecv (fun x => x.tcb.retry) (fun _ => rfl) h

end Frames

variable {c : Conn} (now : Nat)

theorem tcpFinState_retry (t : Tcb) : (tcpFinState now t).retry = t.retry := by
  unfold tcpFinState
  split <;> rfl

theorem tcpFinAckedNew_retry (fin : Bool) (ack : UInt32) (c : Conn) :
    (tcpFinAcked now fin (ackNew now ack c)).tcb.retry = (ack, 0) := by
  obtain ⟨st, srtt, rttvar, rto, rtx, cwnd, dup, dl, timing, heq, rfl, -⟩ := ackNew_eq now ack c
  obtain ⟨rto', tw, dl', hfin⟩ := tcpFinAcked_eq now fin (ackNew now ack c)
  rw [hfin, heq]
  rfl

theorem tcpTakeSyn_retry (g : Seg) (c : Conn) : (tcpTakeSyn g c).tcb.retry = c.tcb.retry := by
  unfold tcpTakeSyn tcpTakeMss
  simp only
  split <;> rfl

/-- What an action does to `snd_una` and the counter. -/
inductive Retry (e : ConnEvent) (c d : Conn) : Prop where
  | same (h : d.tcb.retry = c.tcb.retry)
  /-- Something new was acknowledged. -/
  | progress (now : Nat) (lroom : Option Bool) (g : Seg) (he : e = .segment now lroom g)
      (hne : SynWaits c.send → g.ack ≠ c.tcb.sndUna) (h : d.tcb.retry = (g.ack, 0))
  | ticked (now : Nat) (he : e = .tick now)

theorem Act.retry {e : ConnEvent} {c d : Conn} (h : Act e c d) : Retry e c d := by
  have hnew {x : UInt32} (hpos : 0 < (x - c.tcb.sndUna).toNat) : x ≠ c.tcb.sndUna := by
    rintro rfl
    rw [UInt32.sub_self] at hpos
    exact absurd hpos (by decide)
  cases h with
  | quiet h =>
    cases h with
    | heard h => exact .same (Conn.retry_of_noRecv h.noRecv)
    | opened now lroom g hout hst hlo hhi =>
      refine .progress now lroom g rfl ?_ ?_
      · intro hw
        have huna : c.tcb.sndUna = c.tcb.iss := hw hst
        exact hnew (huna ▸ (synSent_ack_pos hlo).1)
      · rw [Conn.retry_of_rest (tcpSendCtl_rest _ _)]
        rfl
    | crossed now lroom g hst =>
      have hstate (x : Conn) : (x.setState .synRcvd).tcb.retry = x.tcb.retry := rfl
      refine .same ?_
      simp only [tcpSimultaneousOpen]
      rw [Conn.retry_of_rest (tcpArmRto_rest _ _ now), Conn.retry_of_rest (tcpSendCtl_rest _ _),
        hstate, tcpTakeSyn_retry]
    | answered now lroom g queued hout hst hlo hhi =>
      exact .progress now lroom g rfl (fun _ => hnew ((seqLt_iff_rev _ _).mp hlo).1) rfl
    | rxFin now lroom g hfin =>
      refine .same ?_
      simp only [tcpTakeFin]
      rw [tcpFinState_retry, Conn.retry_of_noRecv (finAck_noRecv _ c)]
    | probe now hprobe => exact .ticked now rfl
    | nodelay on => exact .same rfl
    | attach sock => exact .same rfl
  | tune | window => exact .same rfl
  | chunk now wnd chunk => exact .same (Conn.retry_of_rest (tcpOutputChunk_rest now c chunk))
  | fin now => exact .same (Conn.retry_of_rest (tcpSendFin_rest now c))
  | resend => exact .same (Conn.retry_of_rest (tcpRetransmit_rest c))
  | acked now lroom g hsync hout hgt hle hlast =>
    exact .progress now lroom g rfl (fun _ => hnew ((seqGt_iff _ _).mp hgt).1)
      (tcpFinAckedNew_retry now _ g.ack c)
  | backoff now => exact .ticked now rfl
  | rearm now => exact .ticked now rfl
  | append now data =>
    have hring (buf : Nat → UInt8) (len : UInt32) :
        ({ c.tcb with sndbuf := buf, sndLen := len } : Tcb).retry = c.tcb.retry := rfl
    exact .same (hring _ _)
  | close => exact .same rfl

/-! ### Events -/

/-- An event other than a tick leaves `snd_una` and the counter alone, or moves
the one and clears the other. -/
theorem connStep_retry {e : ConnEvent} (hnotick : ∀ now, e ≠ .tick now) (halive : c.fate = .alive)
    (hw : SynWaits c.send) (hend : (connStep c e).fate = .alive) :
    (connStep c e).tcb.retry = c.tcb.retry ∨
      (connStep c e).tcb.sndUna ≠ c.tcb.sndUna ∧ (connStep c e).tcb.rtxCount = 0 := by
  -- all actions of one event look at the same acknowledgement, which is new at most once
  have hall := connStep_keeps (c := c) (e := e)
    (P := fun x => x.tcb.retry = c.tcb.retry ∨
      ∃ now lroom g, e = .segment now lroom g ∧ g.ack ≠ c.tcb.sndUna ∧ x.tcb.retry = (g.ack, 0))
    (by
      intro x y hxy hwx hp
      cases hxy.retry with
      | same h =>
        rw [h]
        exact hp
      | progress now lroom g he hne h =>
        refine Or.inr ⟨now, lroom, g, he, ?_, h⟩
        rcases hp with hp | ⟨now', lroom', g', he', hne', hp⟩
        · have huna : x.tcb.sndUna = c.tcb.sndUna := congrArg Prod.fst hp
          rw [← huna]
          exact hne hwx
        · rw [he] at he'
          cases he'
          exact hne'
      | ticked now he => exact absurd he (hnotick now))
    halive hw (Or.inl rfl) hend
  rcases hall.1 with h | ⟨now, lroom, g, he, hne, h⟩
  · exact Or.inl h
  · have huna : (connStep c e).tcb.sndUna = g.ack := congrArg Prod.fst h
    have hrtx : (connStep c e).tcb.rtxCount = 0 := congrArg Prod.snd h
    exact Or.inr ⟨by rw [huna]; exact hne, hrtx⟩

theorem connStep_tick (halive : c.fate = .alive) (now : Nat) :
    connStep c (.tick now) = tcpTickConn now (Conn.start c.tcb c.stats) := by
  simp only [connStep, halive, connHandle]

theorem rtoExpires_iff {now : Nat} (halive : c.fate = .alive) :
    rtoExpires c (.tick now) = true ↔
      c.tcb.state ≠ .timeWait ∧ c.tcb.rtoDeadline ≠ 0 ∧ c.tcb.rtoDeadline ≤ now := by
  simp [rtoExpires, halive, and_assoc]

/-- A tick at which the timer goes off counts, and gives up at the eleventh. -/
theorem connStep_expiry {now : Nat} (halive : c.fate = .alive)
    (hexp : rtoExpires c (.tick now) = true) :
    if c.tcb.rtxCount + 1 > tcpMaxRtx then (connStep c (.tick now)).fate = .freed .timedOut
    else (connStep c (.tick now)).fate = .alive ∧
      (connStep c (.tick now)).tcb.retry = (c.tcb.sndUna, c.tcb.rtxCount + 1) := by
  obtain ⟨hst, hrun, hdue⟩ := (rtoExpires_iff halive).mp hexp
  rw [connStep_tick halive]
  set x := Conn.start c.tcb c.stats
  have hst' : ¬ x.tcb.state = .timeWait := hst
  have hdue' : x.tcb.rtoDeadline ≠ 0 ∧ now ≥ x.tcb.rtoDeadline := ⟨hrun, hdue⟩
  rw [tcpTickConn, if_neg hst', if_pos hdue']
  have hcount : (countTimeout x).tcb.rtxCount = c.tcb.rtxCount + 1 := rfl
  unfold tcpRtoFire
  rw [hcount]
  by_cases hmax : c.tcb.rtxCount + 1 > tcpMaxRtx
  · rw [if_pos hmax, if_pos hmax]
    rfl
  · rw [if_neg hmax, if_neg hmax]
    obtain ⟨cwnd, ssthresh, dup, rto, hsent⟩ := tcpRtoRetransmit_noRecv now (countTimeout x)
    exact ⟨Conn.fate_of_noRecv hsent, Conn.retry_of_noRecv hsent⟩

/-- Any other tick neither counts nor gives up. -/
theorem connStep_quiet_tick {now : Nat} (halive : c.fate = .alive)
    (hexp : rtoExpires c (.tick now) = false) :
    (connStep c (.tick now)).fate ≠ .freed .timedOut ∧
      (connStep c (.tick now)).tcb.retry = c.tcb.retry := by
  rw [connStep_tick halive]
  set x := Conn.start c.tcb c.stats with hx
  have hne : ¬ (c.tcb.state ≠ .timeWait ∧ c.tcb.rtoDeadline ≠ 0 ∧ c.tcb.rtoDeadline ≤ now) := by
    rw [← rtoExpires_iff halive, hexp]
    exact Bool.false_ne_true
  unfold tcpTickConn
  split
  · split <;> exact ⟨by simp [Conn.free, hx, Conn.start], rfl⟩
  · rename_i hst
    rw [if_neg (fun hdue => hne ⟨hst, hdue.1, hdue.2⟩)]
    have hprobe : (tcpTickProbe now x).rest = x.rest := by
      unfold tcpTickProbe
      split
      · exact (tcpArmRto_rest _ _ now).trans
          ((tcpSendProbe_rest _).trans (Conn.count_rest x .tcpZeroWndProbes))
      · rfl
    have hdelack (d : Conn) : (tcpTickDelack now d).rest = d.rest := by
      unfold tcpTickDelack
      split
      · exact tcpSendCtl_rest d _
      · rfl
    have hrest := (hdelack (tcpTickProbe now x)).trans hprobe
    have hretry := Conn.retry_of_rest hrest
    refine ⟨?_, hretry⟩
    rw [Conn.rest_fate hrest]
    simp [hx, Conn.start]

/-! ### Runs -/

/-- A connection, the expiries of its timer since `snd_una` last moved, and
whether the peer has answered with a zero window since the last expiry. -/
structure RetryHist where
  conn : Conn
  expiries : Nat
  answered : Bool

namespace RetryHist

def step (h : RetryHist) (e : ConnEvent) : RetryHist where
  conn := connStep h.conn e
  expiries :=
    if rtoExpires h.conn e then h.expiries + 1
    else if (connStep h.conn e).tcb.sndUna = h.conn.tcb.sndUna then h.expiries
    else 0
  answered := if rtoExpires h.conn e then false else h.answered || answersProbe h.conn e

def Opens (h : RetryHist) : Prop := Opened h.conn ∧ h.expiries = 0 ∧ h.answered = true

abbrev Reach : RetryHist → Prop := Run.Reach Opens (fun _ _ => True) step

/-- The peer has answered since the previous expiry. -/
def Answered (h : RetryHist) (e : ConnEvent) : Prop :=
  rtoExpires h.conn e = true → h.answered = true

instance (h : RetryHist) (e : ConnEvent) : Decidable (h.Answered e) :=
  inferInstanceAs (Decidable (_ → _))

/-- The runs in which the peer answers every probe. -/
abbrev AnsweredReach : RetryHist → Prop := Run.Reach Opens Answered step

end RetryHist

theorem tcpStartSyn_retry (now : Nat) (flags : UInt8) (c : Conn) :
    (tcpStartSyn now flags c).tcb.retry = c.tcb.retry :=
  Conn.retry_of_rest ((tcpArmRto_rest _ _ now).trans (tcpSendCtl_rest c flags))

theorem Opened.rtxCount {c : Conn} (h : Opened c) : c.tcb.rtxCount = 0 := by
  cases h with
  | active now sock lip lport rip rport iss st =>
    exact congrArg Prod.snd (tcpStartSyn_retry now tcpSyn
      ((Conn.start (activeTcb sock lip lport rip rport iss) st).count .tcpActiveOpens))
  | passive now l lport iss g st =>
    have hmss : (tcpTakeMss ((Conn.start (passiveTcb l lport iss g) st).count .tcpPassiveOpens)
        g).tcb.rtxCount = 0 := by
      unfold tcpTakeMss
      simp only
      split <;> rfl
    exact (congrArg Prod.snd (tcpStartSyn_retry now _ _)).trans hmss

/-- The counter is the number of expiries since `snd_una` moved, and a live
connection has seen at most ten. -/
structure Counted (h : RetryHist) : Prop where
  count : h.conn.fate = .alive → h.conn.tcb.rtxCount.toNat = h.expiries ∧ h.expiries ≤ 10
  waits : h.conn.fate = .alive → SynWaits h.conn.send

theorem Counted.step {h : RetryHist} (hc : Counted h) (e : ConnEvent) : Counted (h.step e) := by
  -- a freed block stays freed, so only live connections matter
  cases hfate : h.conn.fate with
  | freed err =>
    have hdead : (h.step e).conn.fate ≠ .alive := by
      simp [RetryHist.step, connStep, hfate]
    exact ⟨fun hlive => absurd hlive hdead, fun hlive => absurd hlive hdead⟩
  | alive =>
    obtain ⟨hcount, hle⟩ := hc.count hfate
    have hw := hc.waits hfate
    refine ⟨?_, fun hlive =>
      (connStep_keeps (P := fun _ => True) (fun _ _ _ _ _ => trivial) hfate hw trivial hlive).2⟩
    intro hlive
    have hsame (hexp : rtoExpires h.conn e = false)
        (hr : (connStep h.conn e).tcb.retry = h.conn.tcb.retry) :
        (connStep h.conn e).tcb.rtxCount.toNat = (h.step e).expiries ∧
          (h.step e).expiries ≤ 10 := by
      have huna : (connStep h.conn e).tcb.sndUna = h.conn.tcb.sndUna := congrArg Prod.fst hr
      have hrtx : (connStep h.conn e).tcb.rtxCount = h.conn.tcb.rtxCount := congrArg Prod.snd hr
      simp only [RetryHist.step, hexp, huna, hrtx, if_true, Bool.false_eq_true, if_false]
      exact ⟨hcount, hle⟩
    cases e with
    | tick now =>
      cases hexp : rtoExpires h.conn (.tick now) with
      | false => exact hsame hexp (connStep_quiet_tick hfate hexp).2
      | true =>
        have hfire := connStep_expiry hfate hexp
        split at hfire
        · have hlive' : (connStep h.conn (.tick now)).fate = .alive := hlive
          rw [hfire] at hlive'
          cases hlive'
        · rename_i hmax
          have hrtx : (connStep h.conn (.tick now)).tcb.rtxCount = h.conn.tcb.rtxCount + 1 :=
            congrArg Prod.snd hfire.2
          have hval : (h.conn.tcb.rtxCount + 1).toNat = h.expiries + 1 := by
            rw [UInt32.toNat_add, hcount]
            change (h.expiries + 1) % 2 ^ 32 = _
            exact Nat.mod_eq_of_lt (by omega)
          have hten : h.expiries + 1 ≤ 10 := by
            rw [gt_iff_lt, UInt32.not_lt, UInt32.le_iff_toNat_le, hval] at hmax
            exact hmax
          simp only [RetryHist.step, hexp, hrtx, hval, if_true]
          exact ⟨trivial, hten⟩
    | segment | send | recv | close | nodelay | attach =>
      rcases connStep_retry (by simp) hfate hw hlive with hr | ⟨hne, hzero⟩
      · exact hsame rfl hr
      · simp only [RetryHist.step, rtoExpires, hne, hzero, if_false, Bool.false_eq_true]
        exact ⟨rfl, Nat.zero_le _⟩

theorem RetryHist.Reach.counted {h : RetryHist} (hr : RetryHist.Reach h) : Counted h := by
  refine Run.Reach.invariant Counted ?_ ?_ hr
  · rintro h ⟨hopen, hzero, -⟩
    refine ⟨fun _ => ?_, fun _ => hopen.synWaits⟩
    rw [hopen.rtxCount, hzero]
    exact ⟨rfl, Nat.zero_le _⟩
  · exact fun h e _ hc => hc.step e

/-- In every run a tick gives a live connection up exactly when it is the
eleventh expiry of the timer since `snd_una` last moved. Whether the peer
answered in between makes no difference. -/
theorem times_out_iff_eleventh_expiry {h : RetryHist} (hr : RetryHist.Reach h) (now : Nat) :
    h.conn.fate = .alive ∧ (connStep h.conn (.tick now)).fate = .freed .timedOut ↔
      rtoExpires h.conn (.tick now) = true ∧ h.expiries = 10 := by
  have hc := RetryHist.Reach.counted hr
  have hmax (halive : h.conn.fate = .alive) :
      h.conn.tcb.rtxCount + 1 > tcpMaxRtx ↔ h.expiries = 10 := by
    obtain ⟨hcount, hle⟩ := hc.count halive
    have hval : (h.conn.tcb.rtxCount + 1).toNat = h.expiries + 1 := by
      rw [UInt32.toNat_add, hcount]
      change (h.expiries + 1) % 2 ^ 32 = _
      exact Nat.mod_eq_of_lt (by omega)
    have hten : tcpMaxRtx.toNat = 10 := rfl
    rw [gt_iff_lt, UInt32.lt_iff_toNat_lt, hval, hten]
    omega
  constructor
  · rintro ⟨halive, hout⟩
    have hexp : rtoExpires h.conn (.tick now) = true := by
      by_contra hno
      exact (connStep_quiet_tick halive (by simpa using hno)).1 hout
    refine ⟨hexp, (hmax halive).mp ?_⟩
    by_contra hless
    have hfire := connStep_expiry halive hexp
    rw [if_neg hless, hout] at hfire
    cases hfire.1
  · rintro ⟨hexp, hten⟩
    have halive : h.conn.fate = .alive := by
      simp only [rtoExpires, Bool.and_eq_true, decide_eq_true_eq] at hexp
      exact hexp.1.1.1
    have hfire := connStep_expiry halive hexp
    rw [if_pos ((hmax halive).mpr hten)] at hfire
    exact ⟨halive, hfire⟩

/-! ### A peer that keeps answering -/

/-- A connection opened with ISS 100, its SYN answered with a window of zero,
one byte written and probed. -/
def probedStart : List ConnEvent :=
  [.segment 1 none (peerSeg (tcpSyn ||| tcpAck) 300 101 0), .send 2 [7], .tick 3]

/-- Expiry number `k` and the peer's answer to it. -/
def probeRound (k : Nat) : List ConnEvent :=
  [.tick (100000 * k), .segment (100000 * k + 1) none (peerSeg tcpAck 301 101 0)]

def openedRetry : RetryHist where
  conn := tcpOpenActiveConn 0 none 1 5000 2 80 100 Stats.zero
  expiries := 0
  answered := true

/-- The probe is answered ten times. -/
def tenAnswers : List ConnEvent := probedStart ++ (List.range' 1 10).flatMap probeRound

theorem tenAnswers_reach :
    RetryHist.AnsweredReach (tenAnswers.foldl RetryHist.step openedRetry) := by
  refine Run.Reach.foldl (.start ⟨.active 0 none 1 5000 2 80 100 Stats.zero, rfl, rfl⟩) _ ?_
  decide +kernel

/-- A peer that has answered every expiry with an acknowledgement of `snd_una`
and a window of zero is given up at the eleventh. -/
theorem answered_probes_time_out :
    RetryHist.AnsweredReach (tenAnswers.foldl RetryHist.step openedRetry) ∧
      (tenAnswers.foldl RetryHist.step openedRetry).Answered (.tick 1100000) ∧
      (connStep (tenAnswers.foldl RetryHist.step openedRetry).conn (.tick 1100000)).fate =
        .freed .timedOut :=
  ⟨tenAnswers_reach, by decide +kernel, by decide +kernel⟩

theorem times_out_iff_eleventh_expiry_ten_answers :
    rtoExpires (tenAnswers.foldl RetryHist.step openedRetry).conn (.tick 1100000) = true ∧
      (tenAnswers.foldl RetryHist.step openedRetry).expiries = 10 :=
  (times_out_iff_eleventh_expiry (tenAnswers_reach.mono (fun _ _ _ => trivial)) 1100000).mp
    ⟨by decide +kernel, by decide +kernel⟩

end PacketForge
