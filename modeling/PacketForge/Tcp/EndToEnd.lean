import PacketForge.Tcp.ReceiverRun

/-!
Two endpoints and a network between them. One side opens a connection, the
other listens; the network keeps every segment ever emitted and delivers any of
them at any time, any number of times, in any order, or never. It delivers
nothing that was not emitted, and there is one connection: a block that has been
freed is not opened again, its side answers with resets.

What one side emits are pieces of the stream its application wrote, and what is
delivered to the other side keeps that on the stream; so what an application
reads is always a prefix of what the other one wrote.
-/

namespace PacketForge

open SeqSpace (pos)
open Stream (slice)

/-! ### The two endpoints -/

inductive Side where
  | active | passive
deriving DecidableEq

def Side.other : Side → Side
  | .active => .passive
  | .passive => .active

/-- One side: its connection, if it is not still listening, what its
application has written and read, whether it has closed, and the segments it
has emitted. -/
structure Endpoint where
  conn : Option Conn
  written : List UInt8
  read : List UInt8
  closed : Bool
  log : List Seg

/-- What the rest of the stack contributes when a segment arrives: the time, the
room in the accept queue and in the table, and the ISS of a new connection. -/
structure Arrival where
  now : Nat
  room : Option Bool
  accepts : Bool
  listener : Fin tcpMaxConns
  iss : UInt32
  stats : Stats

def ConnEvent.isClose : ConnEvent → Bool
  | .close _ => true
  | _ => false

namespace Endpoint

/-- A side that listens, and has not yet emitted anything. -/
def idle : Endpoint where
  conn := none
  written := []
  read := []
  closed := false
  log := []

def run (p : Endpoint) (c : Conn) (e : ConnEvent) : Endpoint where
  conn := some (connStep c e)
  written := p.written ++ appended c e
  read := p.read ++ returned c e
  closed := p.closed || e.isClose
  log := p.log ++ (connStep c e).out

/-- A segment without a control block, or one that LISTEN refuses. -/
def reset (p : Endpoint) (g : Seg) : Endpoint := { p with log := p.log ++ (tcpResetFor g).toList }

def listen (p : Endpoint) (x : Arrival) (g : Seg) : Endpoint :=
  if g.has tcpRst then p
  else if g.has tcpAck then p.reset g
  else if !g.has tcpSyn then p
  else if !x.accepts then p
  else
    let c := tcpOpenPassiveConn x.now x.listener g.dport x.iss g x.stats
    { p with conn := some c, log := p.log ++ c.out }

def deliver (p : Endpoint) (x : Arrival) (g : Seg) : Endpoint :=
  match p.conn with
  | none => p.listen x g
  | some c => if c.fate = .alive then p.run c (.segment x.now x.room g) else p.reset g

def call (p : Endpoint) (e : ConnEvent) : Endpoint :=
  match p.conn with
  | none => p
  | some c => p.run c e

end Endpoint

/-- Both endpoints. What one has emitted is what the network may deliver to the
other. -/
abbrev Net := Side → Endpoint

inductive NetEvent where
  | call (s : Side) (e : ConnEvent)
  | deliver (s : Side) (x : Arrival) (g : Seg)

namespace Net

def step (n : Net) : NetEvent → Net
  | .call s e => Function.update n s ((n s).call e)
  | .deliver s x g => Function.update n s ((n s).deliver x g)

/-- The network does not forge segments, applications close only after the
handshake, and each of them writes less than 2^30 bytes. -/
def Allowed (n : Net) (ev : NetEvent) : Prop :=
  (match ev with
    | .call s e =>
      (∀ now lroom g, e ≠ .segment now lroom g) ∧
        ∀ c, (n s).conn = some c → CloseAfterHandshake c e
    | .deliver s _ g => g ∈ (n s.other).log) ∧
    ∀ s, (n.step ev s).written.length < 2 ^ 30

/-- One side has just sent its SYN and the other one listens. -/
def Opens (n : Net) : Prop :=
  (∃ now sock lip lport rip rport iss st,
    let c := tcpOpenActiveConn now sock lip lport rip rport iss st
    n .active = { Endpoint.idle with conn := some c, log := c.out }) ∧
    n .passive = Endpoint.idle

abbrev Reach : Net → Prop := Run.Reach Opens Allowed step

end Net

/-! ### The stream grows -/

theorem Parked.extend {S xs : List UInt8} {base : UInt32} {hi lo : Nat} {qs : List OooPkt}
    (h : Parked S base hi lo qs) : Parked (S ++ xs) base hi lo qs := by
  induction qs generalizing lo with
  | nil => trivial
  | cons q qs ih =>
    obtain ⟨p, hlo, hseq, hpos, hdata, hS, hhi, hrest⟩ := h
    refine ⟨p, hlo, hseq, hpos, ?_, ?_, hhi, ih hrest⟩
    · rw [Stream.slice_append hS]
      exact hdata
    · rw [List.length_append]
      omega

/-- A receiving side on a stream is on every extension of it, unless the stream
has ended. -/
theorem RecvOk.extend {S D xs : List UInt8} {v : RecvView} (h : RecvOk S D v)
    (hend : v.eof = true → xs = []) : RecvOk (S ++ xs) D v := by
  rcases h with h | h
  · exact Or.inl h
  · refine Or.inr ⟨⟨h.head_lt, h.len_le, h.bytes.trans (List.prefix_append _ _), h.nxt, h.started,
      h.eof_state, fun heof => ?_⟩, h.parked.extend⟩
    rw [hend heof, List.append_nil]
    exact h.eof_end heof

/-! ### The invariant -/

/-- A segment without text, SYN and FIN. -/
def Seg.Plain (g : Seg) : Prop := g.payload = [] ∧ g.has tcpFin = false ∧ g.has tcpSyn = false

/-- The sending side of an endpoint. -/
inductive SendsOk (p : Endpoint) : Prop where
  | listening (hconn : p.conn = none) (hwritten : p.written = []) (hread : p.read = [])
      (hlog : ∀ g ∈ p.log, g.Plain)
  | connected (c : Conn) (hconn : p.conn = some c) (hok : SendOk p.written c.send)
      (hlog : SendHist.LogOk ⟨c, p.written, p.log⟩)
      (hclosed : c.tcb.finQueued = true → p.closed = true)

/-- What is known of an endpoint `p` whose peer is `q`. -/
structure Agrees (p q : Endpoint) : Prop where
  sends : SendsOk p
  receives : ∀ c, p.conn = some c → RecvOk q.written p.read c.recv
  begins : ∀ c, p.conn = some c → c.tcb.state ≠ .synSent →
    ∃ c', q.conn = some c' ∧ c.tcb.irs = c'.tcb.iss
  ends : ∀ c, p.conn = some c → c.tcb.rcvEof = true →
    ∃ c', q.conn = some c' ∧ c'.tcb.finQueued = true

/-- What an endpoint's own step means to its peer: the stream grows, if it has
not ended, and its first sequence number stays. -/
structure Grows (p p' : Endpoint) : Prop where
  written : ∃ xs, p'.written = p.written ++ xs ∧
    ∀ c, p.conn = some c → c.tcb.finQueued = true → xs = []
  conn : ∀ c, p.conn = some c → ∃ c', p'.conn = some c' ∧ c'.tcb.iss = c.tcb.iss ∧
    (c.tcb.finQueued = true → c'.tcb.finQueued = true)

theorem Agrees.of_grows {p q q' : Endpoint} (h : Agrees p q) (hg : Grows q q') : Agrees p q' := by
  obtain ⟨xs, hxs, hquiet⟩ := hg.written
  refine ⟨h.sends, fun c hc => ?_, fun c hc hst => ?_, fun c hc heof => ?_⟩
  · rw [hxs]
    refine (h.receives c hc).extend fun heof => ?_
    obtain ⟨c', hc', hfin⟩ := h.ends c hc heof
    exact hquiet c' hc' hfin
  · obtain ⟨c', hc', hirs⟩ := h.begins c hc hst
    obtain ⟨c'', hc'', hiss, -⟩ := hg.conn c' hc'
    exact ⟨c'', hc'', hirs.trans hiss.symm⟩
  · obtain ⟨c', hc', hfin⟩ := h.ends c hc heof
    obtain ⟨c'', hc'', -, hkeep⟩ := hg.conn c' hc'
    exact ⟨c'', hc'', hkeep hfin⟩

/-! ### One side acts -/

theorem mem_resetFor {g r : Seg} (h : r ∈ (tcpResetFor g).toList) : r.Plain :=
  tcpResetFor_plain (by simpa using h)

theorem LogOk.add_plain {c : Conn} {W : List UInt8} {log log' : List Seg}
    (h : SendHist.LogOk ⟨c, W, log⟩) (hlog : ∀ g ∈ log', g ∈ log ∨ g.Plain) :
    SendHist.LogOk ⟨c, W, log'⟩ := by
  refine ⟨fun g hg hpay => ?_, fun g hg hfin => ?_, fun g hg hsyn => ?_⟩ <;>
    rcases hlog g hg with hg | hplain
  · exact h.data g hg hpay
  · exact absurd hplain.1 hpay
  · exact h.fin g hg hfin
  · rw [hplain.2.1] at hfin
    cases hfin
  · exact h.syn g hg hsyn
  · rw [hplain.2.2] at hsyn
    cases hsyn

theorem Grows.refl (p : Endpoint) : Grows p p :=
  ⟨⟨[], (List.append_nil _).symm, fun _ _ _ => rfl⟩, fun c hc => ⟨c, hc, rfl, id⟩⟩

theorem Agrees.reset {p q : Endpoint} (h : Agrees p q) (g : Seg) :
    Agrees (p.reset g) q ∧ Grows p (p.reset g) := by
  refine ⟨⟨?_, h.receives, h.begins, h.ends⟩, (Grows.refl p).written, (Grows.refl p).conn⟩
  cases h.sends with
  | listening hconn hwritten hread hlog =>
    refine .listening hconn hwritten hread fun r hr => ?_
    rcases List.mem_append.mp hr with hr | hr
    · exact hlog r hr
    · exact mem_resetFor hr
  | connected c hconn hok hlog hclosed =>
    exact .connected c hconn hok
      (LogOk.add_plain hlog fun r hr => (List.mem_append.mp hr).imp_right mem_resetFor) hclosed

/-- A FIN is queued by a close only. -/
theorem connStep_finQueued {W : List UInt8} {c : Conn} (h : SendOk W c.send) (e : ConnEvent)
    (hq : (connStep c e).tcb.finQueued = true) : c.tcb.finQueued = true ∨ e.isClose = true := by
  cases hfate : c.fate with
  | freed err =>
    simp only [connStep, hfate] at hq
    exact Or.inl hq
  | alive =>
    have hm := (connStep_moves c e hfate (fun hst => (h.unopened (Or.inl hst)).2.una)).fixed.2
    have hview : (eventView c e).finQueued = true := hm.symm.trans hq
    cases e with
    | close now => exact Or.inr rfl
    | segment | tick | send | recv | nodelay | attach => exact Or.inl hview

/-- What is known of a segment that reaches an endpoint from its peer `q`. -/
structure FromPeer (q : Endpoint) (D : List UInt8) (c : Conn) (g : Seg) : Prop where
  carries : c.tcb.state ≠ .synSent → Carries q.written D c.recv g
  syn : g.has tcpSyn = true → ∃ c', q.conn = some c' ∧ g.seq = c'.tcb.iss
  fin : g.has tcpFin = true → ∃ c', q.conn = some c' ∧ c'.tcb.finQueued = true

theorem Agrees.run {p q : Endpoint} (h : Agrees p q) {c : Conn} (hc : p.conn = some c)
    (e : ConnEvent) (hclose : CloseAfterHandshake c e)
    (hpeer : ∀ now lroom g, e = .segment now lroom g → FromPeer q p.read c g) :
    Agrees (p.run c e) q ∧ Grows p (p.run c e) := by
  cases h.sends with
  | listening hconn =>
    rw [hconn] at hc
    cases hc
  | connected c' hconn hok hlog hclosed =>
    obtain rfl : c' = c := by
      rw [hconn] at hc
      exact Option.some.inj hc
    have hrecv := connStep_recvOk (h.receives c' hconn) e
      (fun now lroom g he _ hst _ => (hpeer now lroom g he).carries hst)
    refine ⟨⟨?_, ?_, ?_, ?_⟩, ?_, ?_⟩
    · refine .connected (connStep c' e) rfl (connStep_sendOk hok e hclose)
        (hlog.step hok e hclose) fun hq => ?_
      change (p.closed || e.isClose) = true
      rcases connStep_finQueued hok e hq with hold | hnew
      · rw [hclosed hold, Bool.true_or]
      · rw [hnew, Bool.or_true]
    · rintro _ ⟨⟩
      exact hrecv
    · rintro _ ⟨⟩ hst
      by_cases hold : c'.recv.state = .synSent
      · rcases (connStep_begins c' e hold).syn with hsame | ⟨now, lroom, g, he, hsyn, hirs⟩
        · exact absurd hsame hst
        · obtain ⟨d, hd, hseq⟩ := (hpeer now lroom g he).syn hsyn
          exact ⟨d, hd, hirs.trans hseq⟩
      · obtain ⟨d, hd, hirs⟩ := h.begins c' hconn hold
        exact ⟨d, hd, (connStep_continues c' e hold).2.1.trans hirs⟩
    · rintro _ ⟨⟩ heof
      by_cases hold : c'.recv.state = .synSent
      · have hsame := (connStep_begins c' e hold).eof
        exact h.ends c' hconn (hsame.symm.trans heof)
      · rcases (connStep_continues c' e hold).2.2 heof with hbefore | ⟨now, lroom, g, he, hfin⟩
        · exact h.ends c' hconn hbefore
        · exact (hpeer now lroom g he).fin hfin
    · refine ⟨appended c' e, rfl, fun d hd hq => ?_⟩
      rw [hconn] at hd
      cases hd
      exact appended_of_finQueued hok hq e
    · intro d hd
      rw [hconn] at hd
      cases hd
      obtain ⟨hiss, hq⟩ := connStep_fixed hok e
      exact ⟨_, rfl, hiss, hq⟩

/-! ### A segment from the other side -/

/-- Whatever the peer has emitted is a piece of what its application wrote. -/
theorem Agrees.fromPeer {p q : Endpoint} (hp : Agrees p q) (hq : SendsOk q)
    (hsmall : q.written.length < 2 ^ 30) {g : Seg} (hg : g ∈ q.log) {c : Conn}
    (hc : p.conn = some c) : FromPeer q p.read c g := by
  cases hq with
  | listening hconn hwritten hread hlog =>
    obtain ⟨hpay, hfin, hsyn⟩ := hlog g hg
    refine ⟨fun _ htext => ?_, fun h => ?_, fun h => ?_⟩
    · rcases htext with h | h
      · exact absurd hpay h
      · rw [hfin] at h
        cases h
    · rw [hsyn] at h
      cases h
    · rw [hfin] at h
      cases h
  | connected d hconn hok hlog hclosed =>
    refine ⟨fun hst htext => ?_, fun hsyn => ⟨d, hconn, hlog.syn g hg hsyn⟩,
      fun hfin => ⟨d, hconn, (hlog.fin g hg hfin).1⟩⟩
    obtain ⟨d', hd', hirs⟩ := hp.begins c hc hst
    obtain rfl : d' = d := Option.some.inj (hd'.symm.trans hconn)
    have hrec : Received q.written p.read c.recv := by
      rcases hp.receives c hc with hblank | hrec
      · exact absurd hblank.state hst
      · exact hrec
    have hle := hrec.length_le
    have hone := Bool.toNat_le c.recv.eof
    have hbase : c.recv.irs + 1 = d'.tcb.iss + 1 := congrArg (· + 1) hirs
    cases hfin : g.has tcpFin with
    | true =>
      obtain ⟨-, hpay, hseq⟩ := hlog.fin g hg hfin
      refine ⟨q.written.length, ?_, ?_, ?_, fun _ => ?_, by omega, by omega⟩
      · rw [hbase]
        exact hseq
      · rw [hpay]
        simp [slice]
      · simp [hpay]
      · simp [hpay]
    | false =>
      have hpay : g.payload ≠ [] := by
        rcases htext with h | h
        · exact h
        · rw [hfin] at h
          cases h
      obtain ⟨k, hseq, hfit, hdata⟩ := hlog.data g hg hpay
      change k + g.payload.length ≤ q.written.length at hfit
      refine ⟨k, ?_, hdata, hfit, fun h => absurd h Bool.false_ne_true, by omega, by omega⟩
      rw [hbase]
      exact hseq

/-- A connection is opened on a side that had none. -/
theorem Agrees.opened {p q : Endpoint} (hp : Agrees p q) (hnone : p.conn = none) {c : Conn}
    (hopen : Opened c) (heof : c.recv.eof = false)
    (hbegin : c.recv.state ≠ .synSent → ∃ d, q.conn = some d ∧ c.recv.irs = d.tcb.iss) :
    Agrees { p with conn := some c, log := p.log ++ c.out } q ∧
      Grows p { p with conn := some c, log := p.log ++ c.out } := by
  cases hp.sends with
  | connected d hconn =>
    rw [hnone] at hconn
    cases hconn
  | listening hconn hwritten hread hlog =>
    have hok := hopen.sendOk
    refine ⟨⟨.connected c rfl ?_ ?_ ?_, ?_, ?_, ?_⟩, (Grows.refl p).written, ?_⟩
    · rw [hwritten]
      exact hok
    · rw [hwritten]
      exact LogOk.add_plain (SendHist.LogOk.of_emitted (h := ⟨c, [], c.out⟩) hok rfl) fun r hr =>
        (List.mem_append.mp hr).symm.imp_right (hlog r)
    · intro hq
      have hnq : c.tcb.finQueued = false := (hok.unopened hopen.state).2.queued
      rw [hnq] at hq
      cases hq
    · rintro _ ⟨⟩
      rw [hread]
      exact hopen.recvOk q.written
    · rintro _ ⟨⟩ hst
      exact hbegin hst
    · rintro _ ⟨⟩ h
      exact absurd (heof.symm.trans h) Bool.false_ne_true
    · intro d hd
      rw [hnone] at hd
      cases hd

theorem Agrees.listen {p q : Endpoint} (hp : Agrees p q) (hq : SendsOk q) (hnone : p.conn = none)
    (x : Arrival) {g : Seg} (hg : g ∈ q.log) :
    Agrees (p.listen x g) q ∧ Grows p (p.listen x g) := by
  unfold Endpoint.listen
  split
  · exact ⟨hp, Grows.refl p⟩
  split
  · exact hp.reset g
  split
  · exact ⟨hp, Grows.refl p⟩
  rename_i hsyn
  split
  · exact ⟨hp, Grows.refl p⟩
  · refine hp.opened hnone (.passive ..) ?_ fun _ => ?_ <;> rw [tcpOpenPassiveConn_recv]
    · rfl
    · cases hq with
      | listening _ _ _ hplain =>
        have hno := (hplain g hg).2.2
        simp [hno] at hsyn
      | connected d hd _ hlogq _ => exact ⟨d, hd, hlogq.syn g hg (by simpa using hsyn)⟩

/-! ### Runs -/

def Net.Ok (n : Net) : Prop :=
  ∀ s, Agrees (n s) (n s.other) ∧ (n s).written.length < 2 ^ 30

theorem Side.other_ne (s : Side) : s.other ≠ s := by
  cases s <;> decide

theorem Side.eq_or_other (s t : Side) : t = s ∨ t = s.other := by
  cases s <;> cases t <;> decide

theorem Side.other_other (s : Side) : s.other.other = s := by
  cases s <;> rfl

/-- One side moves and the other one is told. -/
theorem Net.Ok.update {n : Net} (h : n.Ok) (s : Side) {p' : Endpoint}
    (hmove : Agrees p' (n s.other) ∧ Grows (n s) p')
    (hsmall : ∀ t, (Function.update n s p' t).written.length < 2 ^ 30) :
    Net.Ok (Function.update n s p') := by
  intro t
  refine ⟨?_, hsmall t⟩
  rcases s.eq_or_other t with rfl | rfl
  · rw [Function.update_self, Function.update_of_ne (Side.other_ne t)]
    exact hmove.1
  · rw [Side.other_other, Function.update_self, Function.update_of_ne (Side.other_ne s)]
    have hother := (h s.other).1
    rw [Side.other_other] at hother
    exact hother.of_grows hmove.2

theorem Net.Ok.step {n : Net} (h : n.Ok) (ev : NetEvent) (hev : n.Allowed ev) : (n.step ev).Ok := by
  obtain ⟨hallowed, hsmall⟩ := hev
  cases ev with
  | call s e =>
    obtain ⟨hlocal, hclose⟩ := hallowed
    refine h.update s ?_ hsmall
    unfold Endpoint.call
    split
    · exact ⟨(h s).1, Grows.refl _⟩
    · rename_i c hc
      exact (h s).1.run hc e (hclose c hc) fun now lroom g he => absurd he (hlocal now lroom g)
  | deliver s x g =>
    have hpeer := (h s.other).1.sends
    refine h.update s ?_ hsmall
    unfold Endpoint.deliver
    split
    · rename_i hnone
      exact (h s).1.listen hpeer hnone x hallowed
    · rename_i c hc
      split
      · refine (h s).1.run hc _ (CloseAfterHandshake.segment c x.now x.room g) ?_
        rintro _ _ _ ⟨⟩
        exact (h s).1.fromPeer hpeer (h s.other).2 hallowed hc
      · exact (h s).1.reset g

theorem Agrees.idle (q : Endpoint) : Agrees Endpoint.idle q := by
  have hnone {P : Conn → Prop} : ∀ c, Endpoint.idle.conn = some c → P c := by
    intro c hc
    cases hc
  exact ⟨.listening rfl rfl rfl (fun _ hg => absurd hg List.not_mem_nil), hnone, hnone, hnone⟩

theorem Net.Opens.ok {n : Net} (h : n.Opens) : n.Ok := by
  obtain ⟨⟨now, sock, lip, lport, rip, rport, iss, st, hactive⟩, hpassive⟩ := h
  intro s
  cases s with
  | active =>
    have hview : (tcpOpenActiveConn now sock lip lport rip rport iss st).recv =
        (Conn.start (activeTcb sock lip lport rip rport iss) st).recv := by
      rw [tcpOpenActiveConn, tcpStartSyn_recv]
      rfl
    rw [Side.other, hactive]
    refine ⟨((Agrees.idle _).opened rfl (.active ..) ?_ fun hst => absurd ?_ hst).1,
      by simp [Endpoint.idle]⟩ <;>
      rw [hview] <;> rfl
  | passive =>
    rw [hpassive]
    exact ⟨Agrees.idle _, by simp [Endpoint.idle]⟩

theorem Net.Reach.ok {n : Net} (hr : Net.Reach n) : n.Ok :=
  Run.Reach.invariant Net.Ok (fun _ h => h.ok) (fun _ ev hev h => h.step ev hev) hr

/-- `pf_recv` reports the end of the stream: the ring is empty and the peer's
FIN was consumed. -/
def Endpoint.ReportsEof (p : Endpoint) : Prop :=
  ∃ c, p.conn = some c ∧ c.fate = .alive ∧ c.tcb.rcvLen = 0 ∧ c.tcb.rcvEof = true

/-- End-to-end agreement. Whatever the network does with the segments, the bytes
one application has read are a prefix of those the other has written, and the
end of file is reported only when the other application has closed and all it
wrote has been read. -/
theorem end_to_end {n : Net} (hr : Net.Reach n) (s : Side) :
    (n s).read <+: (n s.other).written ∧
      ((n s).ReportsEof → (n s.other).closed = true ∧ (n s).read = (n s.other).written) := by
  obtain ⟨hagree, -⟩ := hr.ok s
  have hpeer := (hr.ok s.other).1.sends
  refine ⟨?_, ?_⟩
  · cases hagree.sends with
    | listening _ _ hread =>
      rw [hread]
      exact List.nil_prefix
    | connected c hconn => exact (hagree.receives c hconn).reads_stream
  · rintro ⟨c, hconn, -, hempty, heof⟩
    obtain ⟨d, hd, hfin⟩ := hagree.ends c hconn heof
    refine ⟨?_, ?_⟩
    · cases hpeer with
      | listening hnone =>
        rw [hnone] at hd
        cases hd
      | connected d' hd' _ _ hclosed =>
        obtain rfl : d' = d := Option.some.inj (hd'.symm.trans hd)
        exact hclosed hfin
    · rcases hagree.receives c hconn with hblank | hrec
      · have hnot : c.tcb.rcvEof = false := hblank.eof
        rw [hnot] at heof
        cases heof
      · have hlen : c.recv.len.toNat = 0 := by
          change c.tcb.rcvLen.toNat = 0
          rw [hempty]
          rfl
        have hall := hrec.eof_end heof
        have hpre := (hagree.receives c hconn).reads_stream
        rw [hlen, Nat.add_zero] at hall
        exact hpre.eq_of_length hall

def calm : Arrival where
  now := 1
  room := none
  accepts := true
  listener := 0
  iss := 300
  stats := Stats.zero

/-- The last segment a side has emitted. -/
def Net.last (n : Net) (s : Side) : Seg := (n s).log.getLastD (peerSeg 0 0 0 0)

/-- The last segment of one side is delivered to the other. -/
def Net.pass (n : Net) (s : Side) : Net := n.step (.deliver s calm (n.last s.other))

def opening : Net
  | .active =>
    let c := tcpOpenActiveConn 0 none 1 5000 2 80 100 Stats.zero
    { Endpoint.idle with conn := some c, log := c.out }
  | .passive => Endpoint.idle

def handshake : Net := ((opening.pass .passive).pass .active).pass .passive

/-- Three bytes are written, delivered and read, and the writer closes. -/
def transfer : Net :=
  ((((handshake.step (.call .active (.send 2 [1, 2, 3]))).pass .passive).step
    (.call .passive (.recv 10))).step (.call .active (.close 3))).pass .passive

theorem Net.Reach.pass {n : Net} (h : Net.Reach n) (s : Side)
    (hlog : (n s.other).log.isEmpty = false)
    (hsmall : ∀ t, (n.pass s t).written.length < 2 ^ 30) : Net.Reach (n.pass s) := by
  refine .next h _ ⟨?_, hsmall⟩
  have hne : (n s.other).log ≠ [] := by simpa using hlog
  change (n s.other).log.getLastD _ ∈ _
  rw [List.getLastD_eq_getLast?, List.getLast?_eq_some_getLast hne]
  exact List.getLast_mem hne

theorem opening_reach : Net.Reach opening :=
  .start ⟨⟨0, none, 1, 5000, 2, 80, 100, Stats.zero, rfl⟩, rfl⟩

theorem handshake_reach : Net.Reach handshake := by
  refine ((opening_reach.pass .passive rfl ?_).pass .active ?_ ?_).pass .passive ?_ ?_ <;>
    first | decide +kernel | (intro t; cases t <;> decide +kernel)

/-- The handshake of the connection is complete. -/
def Endpoint.synced (p : Endpoint) : Bool :=
  p.conn.all fun c => c.tcb.state ≠ .synSent && c.tcb.state ≠ .synRcvd

theorem Net.Reach.call {n : Net} (h : Net.Reach n) (s : Side) (e : ConnEvent)
    (hlocal : ∀ now lroom g, e ≠ .segment now lroom g) (hsync : (n s).synced = true)
    (hsmall : ∀ t, (n.step (.call s e) t).written.length < 2 ^ 30) :
    Net.Reach (n.step (.call s e)) := by
  refine .next h _ ⟨⟨hlocal, fun c hc now _ => ?_⟩, hsmall⟩
  rw [Endpoint.synced, hc] at hsync
  simpa using hsync

theorem transfer_reach : Net.Reach transfer := by
  have hsend := handshake_reach.call .active (.send 2 [1, 2, 3]) nofun (by decide +kernel)
    (by intro t; cases t <;> decide +kernel)
  have hgot := hsend.pass .passive (by decide +kernel) (by intro t; cases t <;> decide +kernel)
  have hread := hgot.call .passive (.recv 10) nofun (by decide +kernel)
    (by intro t; cases t <;> decide +kernel)
  have hclose := hread.call .active (.close 3) nofun (by decide +kernel)
    (by intro t; cases t <;> decide +kernel)
  exact hclose.pass .passive (by decide +kernel) (by intro t; cases t <;> decide +kernel)

/-- The reader has read all three bytes and is told that the stream has ended. -/
theorem end_to_end_transfer :
    (transfer .passive).read = [1, 2, 3] ∧ (transfer .passive).ReportsEof ∧
      (transfer .active).closed = true ∧ (transfer .passive).read = (transfer .active).written := by
  have heof : (transfer .passive).ReportsEof := by
    have hconn : (transfer .passive).conn.isSome = true := by decide +kernel
    have hstate : (transfer .passive).conn.all
        (fun c => c.fate = .alive && c.tcb.rcvLen = 0 && c.tcb.rcvEof) = true := by decide +kernel
    obtain ⟨c, hc⟩ := Option.isSome_iff_exists.mp hconn
    rw [hc] at hstate
    simp only [Option.all_some, Bool.and_eq_true, decide_eq_true_eq] at hstate
    exact ⟨c, hc, hstate.1.1, hstate.1.2, hstate.2⟩
  exact ⟨by decide +kernel, heof, (end_to_end transfer_reach .passive).2 heof⟩

end PacketForge
