import PacketForge.Tcp.Stage

/-!
What an event comes to. `Ends` lists the ways in which a block is freed, each with
its guard and with what the connection looks like then. An event is one of these, or
it is a sequence of stages and the block stays in use.
-/

namespace PacketForge

/-- The segment is a reset that is obeyed: it is acceptable and stands exactly
at `rcv_nxt`. -/
def resetAt (t : Tcb) (g : Seg) : Bool :=
  segAcceptable t g && g.has tcpRst && g.seq = t.rcvNxt

inductive Ends : ConnEvent → Conn → Conn → Prop where
  /-- SYN_SENT: the peer refuses our SYN. -/
  | refused (now : Nat) (lroom : Option Bool) (g : Seg) {c : Conn}
      (hst : c.tcb.state = .synSent) (hrst : g.has tcpRst = true) :
      Ends (.segment now lroom g) c (tcpConnError (c.count .tcpRstRx) .connRefused)
  | reset (now : Nat) (lroom : Option Bool) (g : Seg) {c : Conn} (err : PfErr)
      (hst : c.tcb.state ≠ .synSent) (hrst : resetAt c.tcb g = true) {d : Conn}
      (hd : d = tcpInputRst g c) (hfate : d.fate = .freed err) (htcb : d.tcb = c.tcb)
      (hout : d.out = c.out) (hqueued : d.queued = c.queued) : Ends (.segment now lroom g) c d
  /-- SYN_RCVD: the accept queue is full. -/
  | full (now : Nat) (g : Seg) {c : Conn} (hst : c.tcb.state = .synRcvd) :
      Ends (.segment now (some false) g) c
        (tcpAppAbort ((tcpEstablish (c.setUna g.ack) g).count .tcpAcceptDrops))
  /-- LAST_ACK: our FIN is acknowledged. -/
  | lastAck (now : Nat) (lroom : Option Bool) (g : Seg) {c : Conn} (hst : c.tcb.state = .lastAck)
      (hrst : g.has tcpRst = false) (hfin : finAcked c.tcb g.ack = true) :
      Ends (.segment now lroom g) c ((ackNew now g.ack c).free .none)
  | timeWait (now : Nat) {c : Conn} (hst : c.tcb.state = .timeWait)
      (hdue : now ≥ c.tcb.timewaitDeadline) : Ends (.tick now) c (c.free .none)
  | timedOut (now : Nat) {c : Conn} (hst : c.tcb.state ≠ .timeWait)
      (harmed : c.tcb.rtoDeadline ≠ 0) (hdue : now ≥ c.tcb.rtoDeadline)
      (hmax : (countTimeout c).tcb.rtxCount > tcpMaxRtx) :
      Ends (.tick now) c
        (tcpConnError (tcpSendCtl ((countTimeout c).count .tcpConnTimeouts) (tcpRst ||| tcpAck))
          .timedOut)
  | closed (now : Nat) {c : Conn} (hst : c.tcb.state = .listen ∨ c.tcb.state = .synSent) :
      Ends (.close now) c (c.free .none)

theorem Ends.fate {e : ConnEvent} {c d : Conn} (h : Ends e c d) : d.fate ≠ .alive := by
  cases h with
  | reset _ _ _ _ _ _ _ hfate =>
    rw [hfate]
    exact Fate.noConfusion
  | refused | full | lastAck | timeWait | timedOut | closed => exact Fate.noConfusion

/-- The block stays in use. In SYN_SENT the stages are those of a connection whose SYN
is not acknowledged yet. -/
structure Goes (e : ConnEvent) (c d : Conn) : Prop where
  stages : (c.tcb.state = .synSent → c.tcb.sndUna = c.tcb.iss) → Stages e c d
  fate : d.fate = c.fate

def Outcome (e : ConnEvent) (c d : Conn) : Prop := Goes e c d ∨ Ends e c d

theorem Outcome.of_stages {e : ConnEvent} {c d : Conn} (h : Stages e c d) : Outcome e c d :=
  Or.inl ⟨fun _ => h, h.fate⟩

theorem Outcome.refl (e : ConnEvent) (c : Conn) : Outcome e c c := .of_stages .refl

/-! ### Segments past the handshake -/

variable (now : Nat) (lroom : Option Bool) (g : Seg) (c : Conn)

/-- Unless it ends a connection in LAST_ACK, an acknowledgement of new data
runs the send engine. -/
theorem tcpInputNewAck_eq (hlast : ¬ (finAcked c.tcb g.ack = true ∧ c.tcb.state = .lastAck)) :
    tcpInputNewAck now g c =
      tcpOutput now (tcpFinAcked now (finAcked c.tcb g.ack) (ackNew now g.ack c)) := by
  simp only [tcpInputNewAck, ackNew_state now g.ack c, Bool.and_eq_true, decide_eq_true_eq]
  rw [if_neg hlast]

theorem tcpInputFin_stages : Stages (.segment now lroom g) c (tcpInputFin now g c) := by
  unfold tcpInputFin
  split
  · rename_i hfin
    exact Stages.quiet (.rxFin now lroom g hfin)
  · exact .refl

theorem tcpInputAck_stages (hsync : Synced c.tcb) (hout : c.out = [])
    (hle : seqGt g.ack c.tcb.sndNxt = false) :
    Stages (.segment now lroom g) c (tcpInputAck now g c) ∨
      c.tcb.state = .lastAck ∧ finAcked c.tcb g.ack = true ∧
        tcpInputAck now g c = (ackNew now g.ack c).free .none := by
  unfold tcpInputAck
  split
  · rename_i hgt
    by_cases hlast : finAcked c.tcb g.ack = true ∧ c.tcb.state = .lastAck
    · refine Or.inr ⟨hlast.2, hlast.1, ?_⟩
      simp only [tcpInputNewAck, hlast.1, ackNew_state now g.ack c, hlast.2, decide_true,
        Bool.and_self, if_true]
    · rw [tcpInputNewAck_eq now g c hlast]
      exact Or.inl (.single (.newAck now lroom g hsync hout hgt hle hlast))
  · left
    split
    · rename_i hdup
      exact .single (.dupAck now lroom g hdup)
    · exact .refl

/-- Past the handshake only the acknowledgement of our FIN in LAST_ACK ends the
connection. -/
theorem tcpInputSynced_stages (hsync : Synced c.tcb) (hout : c.out = [])
    (halive : c.fate = .alive) : Stages (.segment now lroom g) c (tcpInputSynced now g c) ∨
      c.tcb.state = .lastAck ∧ finAcked c.tcb g.ack = true ∧
        tcpInputSynced now g c = (ackNew now g.ack c).free .none := by
  unfold tcpInputSynced
  split
  · exact Or.inl (Stages.countAck _ _ _ hsync.1)
  rename_i hle
  rcases tcpInputAck_stages now lroom g c hsync hout (by simpa using hle)
    with hack | ⟨hst, hfin, heq⟩
  · have hsend : tcpInputSend now g c = tcpInputWnd now g (tcpInputAck now g c) :=
      if_pos (hack.fate.trans halive)
    have hwnd : Stages (.segment now lroom g) c (tcpInputSend now g c) := by
      rw [hsend]
      exact hack.tail (.window now lroom g)
    simp only [if_pos (hwnd.fate.trans halive)]
    exact Or.inl (hwnd.trans
      ((tcpInputText_stages now lroom g _).trans (tcpInputFin_stages now lroom g _)))
  · have hsend : tcpInputSend now g c = (ackNew now g.ack c).free .none := by
      simp only [tcpInputSend, heq, Conn.free, reduceCtorEq, if_false]
    refine Or.inr ⟨hst, hfin, ?_⟩
    simp only [hsend, Conn.free, reduceCtorEq, if_false]

/-! ### The handshake -/

theorem tcpInputSynRcvd_runs (hst : c.tcb.state = .synRcvd) (hout : c.out = [])
    (halive : c.fate = .alive) (hack : g.has tcpAck = true) :
    Outcome (.segment now lroom g) c (tcpInputSynRcvd now lroom g c) := by
  unfold tcpInputSynRcvd
  split
  · rename_i hin
    rw [Bool.and_eq_true] at hin
    -- the connection is in ESTABLISHED then, not in LAST_ACK
    have hgo (q : Bool) (hq : lroom.isSome = true → q = true) : Outcome (.segment now lroom g) c
        (tcpInputSynced now g { tcpEstablish (c.setUna g.ack) g with queued := q }) := by
      have hsync : Synced { tcpEstablish (c.setUna g.ack) g with queued := q }.tcb :=
        ⟨TcpState.noConfusion, TcpState.noConfusion⟩
      rcases tcpInputSynced_stages now lroom g _ hsync hout halive with h | ⟨hlast, -⟩
      · exact .of_stages (.head (.quiet (.answered now lroom g q hout hst hin.1 hin.2 hq)) h)
      · cases hlast
    cases lroom with
    | none => exact hgo c.queued Bool.noConfusion
    | some room =>
      cases room with
      | true => exact hgo true fun _ => rfl
      | false => exact Or.inr (.full now g hst)
  · exact .of_stages (Stages.heard (.reset now lroom g (Or.inr hst) hack))

theorem tcpInputSynSent_runs (hout : c.out = []) (hst : c.tcb.state = .synSent) :
    Outcome (.segment now lroom g) c (tcpInputSynSent now g c) := by
  unfold tcpInputSynSent
  split
  · rename_i hbad
    split
    · exact .refl _ _
    · rw [Bool.and_eq_true] at hbad
      exact .of_stages (Stages.heard (.reset now lroom g (Or.inl hst) hbad.1))
  rename_i hgood
  split
  · rename_i hrst
    split
    · exact Or.inr (.refused now lroom g hst hrst)
    · exact .of_stages (Stages.heard (.stat _ _))
  split
  · refine Or.inl ⟨fun huna => ?_, ?_⟩
    · have hack : g.has tcpAck = true → seqLe g.ack c.tcb.iss = false ∧
          seqGt g.ack c.tcb.sndNxt = false := by
        intro ha
        simpa [ha] using hgood
      rw [tcpSynSentSyn_eq now g c (huna hst) (fun ha => (hack ha).1)]
      split
      · rename_i ha
        exact Stages.quiet (.opened now lroom g hout hst (hack ha).1 (hack ha).2)
      · exact Stages.quiet (.crossed now lroom g hst)
    · have hboth (x : Conn) :
          (if seqGt x.tcb.sndUna x.tcb.iss then tcpSendCtl (tcpEstablish x g) tcpAck
            else tcpSimultaneousOpen now x).fate = x.fate := by
        split <;> exact tcpSendCtl_fate _ _
      simp only [tcpSynSentSyn]
      rw [hboth]
      split <;> exact tcpTakeSyn_fate g c
  · exact .refl _ _

theorem tcpInputRst_runs (hst : c.tcb.state ≠ .synSent) (hacc : segAcceptable c.tcb g = true)
    (hrst : g.has tcpRst = true) : Outcome (.segment now lroom g) c (tcpInputRst g c) := by
  have hfree {d : Conn} {err : PfErr} (hseq : g.seq = c.tcb.rcvNxt) (hd : tcpInputRst g c = d)
      (hf : d.fate = .freed err) (ht : d.tcb = c.tcb) (ho : d.out = c.out)
      (hq : d.queued = c.queued) : Outcome (.segment now lroom g) c d :=
    Or.inr (.reset now lroom g err hst (by simp [resetAt, hacc, hrst, hseq]) hd.symm hf ht ho hq)
  generalize hd : tcpInputRst g c = d
  have heq := hd
  unfold tcpInputRst at hd
  simp only at hd
  split at hd
  · rename_i hseq
    split at hd <;> subst hd <;> exact hfree hseq heq rfl rfl rfl rfl
  · subst hd
    exact .of_stages ((Stages.heard (.stat _ _)).trans (Stages.countAck _ _ _ hst))

/-! ### Events -/

theorem tcpInputConn_runs (hout : c.out = []) (halive : c.fate = .alive) :
    Outcome (.segment now lroom g) c (tcpInputConn now lroom g c) := by
  unfold tcpInputConn
  split
  · rename_i hst
    exact tcpInputSynSent_runs now lroom g c hout hst
  rename_i hsent
  split
  · simp only
    split
    · exact .of_stages (Stages.heard (.stat _ _))
    · exact .of_stages (Stages.countAck _ _ _ hsent)
  rename_i hacc
  split
  · rename_i hrst
    exact tcpInputRst_runs now lroom g c hsent (by simpa using hacc) hrst
  rename_i hrst
  split
  · exact .of_stages (Stages.countAck _ _ _ hsent)
  split
  · exact .refl _ _
  rename_i hack
  split
  · rename_i hst
    exact tcpInputSynRcvd_runs now lroom g c hst hout halive (by simpa using hack)
  · rename_i hst
    rcases tcpInputSynced_stages now lroom g c ⟨hsent, hst⟩ hout halive with h | ⟨hlast, hfin, heq⟩
    · exact .of_stages h
    · rw [heq]
      exact Or.inr (.lastAck now lroom g hlast (by simpa using hrst) hfin)

theorem tcpTickConn_runs : Outcome (.tick now) c (tcpTickConn now c) := by
  unfold tcpTickConn
  split
  · rename_i hst
    split
    · rename_i hdue
      exact Or.inr (.timeWait now hst hdue)
    · exact .refl _ _
  rename_i hst
  split
  · rename_i hdue
    unfold tcpRtoFire
    split
    · rename_i hmax
      exact Or.inr (.timedOut now hst hdue.1 hdue.2 hmax)
    · exact .of_stages (.single (.timeout now hdue.1))
  · have hprobe : Stages (.tick now) c (tcpTickProbe now c) := by
      unfold tcpTickProbe
      split
      · rename_i hp
        exact Stages.quiet (.probe now hp)
      · exact .refl
    refine .of_stages (hprobe.trans ?_)
    unfold tcpTickDelack
    split
    · rename_i hdue
      exact Stages.heard (.ack _ (fun _ => hdue.1))
    · exact .refl

theorem tcpAppClose_runs (hout : c.out = []) : Outcome (.close now) c (tcpAppClose now c) := by
  have hclose (st : TcpState) (h : ClosesTo c.tcb.state st) :
      Outcome (.close now) c (tcpOutput now (queueFin st c)) :=
    .of_stages (.single (.close now st hout h))
  unfold tcpAppClose
  cases hst : c.tcb.state with
  | listen => exact Or.inr (.closed now (Or.inl hst))
  | synSent => exact Or.inr (.closed now (Or.inr hst))
  | synRcvd => exact hclose _ (hst ▸ ClosesTo.synRcvd)
  | established => exact hclose _ (hst ▸ ClosesTo.established)
  | closeWait => exact hclose _ (hst ▸ ClosesTo.closeWait)
  | closed | finWait1 | finWait2 | closing | lastAck | timeWait => exact .refl _ _

theorem pfSendCopy_stages (data : List UInt8) (c : Conn) (hout : c.out = []) :
    Stages (.send now data) c (pfSendCopy now data c) := by
  unfold pfSendCopy
  split
  · exact .refl
  · rename_i hgo
    simp only [Bool.or_eq_true, Bool.not_eq_true', not_or, Bool.not_eq_false] at hgo
    exact .single (.send now data hout hgo.1.2)

theorem pfRecvCopy_stages (cap : Nat) (c : Conn) : Stages (.recv cap) c (pfRecvCopy cap c) := by
  unfold pfRecvCopy
  split
  · rename_i hlen
    exact Stages.heard (.recv cap hlen)
  · exact .refl

theorem connHandle_runs (e : ConnEvent) (hout : c.out = []) (halive : c.fate = .alive) :
    Outcome e c (connHandle c e) := by
  cases e with
  | segment now lroom g => exact tcpInputConn_runs now lroom g c hout halive
  | tick now => exact tcpTickConn_runs now c
  | send now data => exact .of_stages (pfSendCopy_stages now data c hout)
  | recv cap => exact .of_stages (pfRecvCopy_stages cap c)
  | close now => exact tcpAppClose_runs now c hout
  | nodelay on => exact .of_stages (Stages.quiet (.nodelay on))
  | attach sock => exact .of_stages (Stages.quiet (.attach sock))

variable {t : Tcb} {st : Stats} {e : ConnEvent}

/-- An event that does not free the block is a sequence of stages. -/
theorem connHandle_stages (huna : t.state = .synSent → t.sndUna = t.iss)
    (hend : (connHandle (Conn.start t st) e).fate = .alive) :
    Stages e (Conn.start t st) (connHandle (Conn.start t st) e) :=
  (connHandle_runs (Conn.start t st) e rfl rfl).elim (fun h => h.stages huna)
    (fun h => absurd hend h.fate)

/-- An event that frees the block ends the connection in one of these ways. -/
theorem connHandle_ends (hend : (connHandle (Conn.start t st) e).fate ≠ .alive) :
    Ends e (Conn.start t st) (connHandle (Conn.start t st) e) :=
  (connHandle_runs (Conn.start t st) e rfl rfl).resolve_left (fun h => hend (h.fate.trans rfl))

end PacketForge
