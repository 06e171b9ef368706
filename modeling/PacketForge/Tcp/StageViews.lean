import PacketForge.Tcp.RecvView
import PacketForge.Tcp.Ends

/-!
The actions of an event as the two sides of the connection see them. On the
sending side every action is a sequence of moves, except that `pf_send`
appends and a close queues the FIN. So an invariant of whole runs only has to be
shown for one action. The receiving side is the same after most of them.
-/

namespace PacketForge

/-- What a segment offers the sending side when its acknowledgement brings
nothing new. -/
def quietCause (g : Seg) : SendCause where
  seg := some g
  ackAt := fun _ => False
  finAt := fun _ => True

/-- Before its SYN is answered a connection waits for the acknowledgement of
that SYN. -/
def SynWaits (s : SendView) : Prop := s.state = .synSent → s.una = s.iss

/-- The sending side an action leaves behind. -/
inductive SendStage : ConnEvent → Conn → Conn → Prop where
  /-- Nothing new was acknowledged, appended or closed. -/
  | quiet {c d : Conn} (e : ConnEvent) (κ : SendCause) (hquiet : ∀ s, ¬ κ.ackAt s)
      (hmoves : SendMoves κ c.send d.send) : SendStage e c d
  | acked {c : Conn} (now : Nat) (lroom : Option Bool) (g : Seg) (hsync : Synced c.tcb)
      (hout : c.out = []) (hgt : seqGt g.ack c.tcb.sndUna = true)
      (hle : seqGt g.ack c.tcb.sndNxt = false)
      (hlast : ¬ (finAcked c.tcb g.ack = true ∧ c.tcb.state = .lastAck)) :
      SendStage (.segment now lroom g) c
        (tcpFinAcked now (finAcked c.tcb g.ack) (ackNew now g.ack c))
  | append {c : Conn} (now : Nat) (data : List UInt8) (hout : c.out = [])
      (hcan : canAppend c.tcb = true) :
      SendStage (.send now data) c (sndAppend (data.take (sendAmount c.tcb data).toNat) c)
  | close {c : Conn} (now : Nat) (st : TcpState) (hout : c.out = [])
      (hst : ClosesTo c.tcb.state st) : SendStage (.close now) c (queueFin st c)

/-! ### Every action -/

theorem tcpProbed_moves {κ : SendCause} (now : Nat) (c : Conn) (hseg : κ.seg = none)
    (hprobe : wantsProbe c.tcb = true) : SendMoves κ c.send (tcpProbed now c).send := by
  have h := tcpTickProbe_moves now c hseg
  rw [tcpTickProbe, if_pos hprobe] at h
  exact h

theorem tcpTakeFin_moves {κ : SendCause} (now : Nat) (g : Seg) (c : Conn) (hat : ∀ s, κ.finAt s)
    (hfin : finInOrder c.tcb g = true) :
    SendMoves κ c.send (tcpTakeFin now (g.seq + g.paylen) c).send := by
  have h := tcpInputFin_moves (κ := κ) now g c (fun _ => hat _)
  rw [tcpInputFin, if_pos hfin] at h
  exact h

theorem Act.sendStage {e : ConnEvent} {c d : Conn} (h : Act e c d) (hw : SynWaits c.send) :
    SendStage e c d := by
  have hinternal (h : SendMoves .internal c.send d.send) : SendStage e c d :=
    .quiet _ .internal (fun _ => id) h
  have hquiet (g : Seg) (h : SendMoves (quietCause g) c.send d.send) : SendStage e c d :=
    .quiet _ (quietCause g) (fun _ => id) h
  cases h with
  | quiet h =>
    cases h with
    | heard h => exact hinternal (SendMoves.of_onlyCtl h.onlyCtl)
    | opened now lroom g hout hst hlo hhi =>
      exact hquiet g (opened_moves rfl hout hst (hw hst) hlo hhi)
    | crossed now lroom g hst =>
      have hview := tcpTakeSyn_send g c
      have hst' : (tcpTakeSyn g c).tcb.state = .synSent := (congrArg SendView.state hview).trans hst
      exact hinternal ((tcpSimultaneousOpen_moves now _ hst').of_view hview)
    | answered now lroom g queued hout hst hlo hhi =>
      exact hquiet g (SendMoves.single (answered_move rfl hout hst hlo hhi))
    | rxFin now lroom g hfin => exact hquiet g (tcpTakeFin_moves now g c (fun _ => trivial) hfin)
    | probe now hprobe => exact hinternal (tcpProbed_moves now c rfl hprobe)
    | nodelay on => exact hinternal .refl
    | attach sock => exact hinternal .refl
  | tune cwnd ssthresh dup st => exact hinternal .refl
  | chunk now wnd chunk hnow hst hwnd hnext =>
    exact hinternal
      (SendMoves.single (.output (tcpOutputChunk_move now c wnd chunk hst hwnd hnext)))
  | fin now hnow hst hq hfin hall =>
    exact hinternal (SendMoves.single (.output (tcpSendFin_move now c hst hq hfin hall)))
  | resend => exact hinternal (tcpRetransmit_moves c)
  | acked now lroom g hsync hout hgt hle hlast => exact .acked now lroom g hsync hout hgt hle hlast
  | window now lroom g hlo hhi => exact hquiet g (SendMoves.single (.wnd c.send g rfl hlo hhi))
  | backoff | rearm => exact hinternal .refl
  | append now data hout hcan => exact .append now data hout hcan
  | close now st hout hst => exact .close now st hout hst

theorem finAckedNew_send (now : Nat) (g : Seg) (c : Conn) :
    (tcpFinAcked now (finAcked c.tcb g.ack) (ackNew now g.ack c)).send =
      { c.send.acked g.ack with state := ackedState (c.send.finAcked g.ack) c.send.state } := by
  rw [tcpFinAcked_send, ackNew_send]
  rfl

namespace SendStage

variable {e : ConnEvent} {c d : Conn}

/-- What every move keeps, every action keeps. -/
theorem keeps {P : SendView → Prop} (hmove : ∀ κ s s', SendMove κ s s' → P s → P s')
    (hring : ∀ s buf len, P s → P { s with buf := buf, len := len })
    (hfin : ∀ now s st, e = .close now → ClosesTo s.state st → P s →
      P { s with state := st, finQueued := true })
    (h : SendStage e c d) (hc : P c.send) : P d.send := by
  cases h with
  | quiet e κ _ hm => exact SendMoves.invariant (hmove κ) hm hc
  | acked now lroom g hsync hout hgt hle hlast =>
    have hack := SendMove.ack (κ := ackCause g) c.send g rfl trivial hout hsync hgt hle
    rw [← finAckedNew_send now] at hack
    exact hmove _ _ _ hack hc
  | append now data hout hcan => exact hring c.send _ _ hc
  | close now st hout hst => exact hfin now c.send st rfl hst hc

theorem synWaits (h : SendStage e c d) (hc : SynWaits c.send) : SynWaits d.send := by
  refine h.keeps (P := SynWaits) ?_ ?_ ?_ hc
  · intro κ s s' hmove hs
    cases hmove with
    | ack g _ _ _ hsync => exact fun hst => absurd hst (ackedState_sync hsync).1
    | rxFin _ ht => exact fun hst => absurd hst (rxFinState_sync (takesData_sync ht)).1
    | synRcvd => exact fun hst => absurd hst (by simp)
    | establish => exact fun hst => absurd hst (by simp)
    | output hout => cases hout <;> exact hs
    | _ => exact hs
  · exact fun s buf len hs => hs
  · exact fun _ s st _ hst _ hsent => absurd hsent hst.synced.1

end SendStage

/-! ### The receiving side -/

variable {P : Conn → Prop} (now : Nat) (c : Conn)

/-- The receiving side an action leaves behind. -/
inductive RecvStage (c : Conn) : RecvView → Prop where
  | same : RecvStage c c.recv
  | syn (st : TcpState) (g : Seg) (hst : c.tcb.state = .synSent)
      (hst' : st = .established ∨ st = .synRcvd) :
      RecvStage c { c.recv with state := st, irs := g.seq, nxt := g.seq + 1 }
  | answered (hst : c.tcb.state = .synRcvd) : RecvStage c { c.recv with state := .established }
  | acked (g : Seg) (hsync : Synced c.tcb) (hgt : seqGt g.ack c.tcb.sndUna = true)
      (hle : seqGt g.ack c.tcb.sndNxt = false)
      (hlast : ¬ (finAcked c.tcb g.ack = true ∧ c.tcb.state = .lastAck)) :
      RecvStage c { c.recv with state := ackedState (finAcked c.tcb g.ack) c.tcb.state }
  | text (data : List UInt8) (hst : c.tcb.state.takesData = true) (hpos : data ≠ [])
      (hfit : data.length ≤ (tcpRcvWindow c.tcb).toNat) :
      RecvStage c (tcpOooDrain (rcvAppend c data)).recv
  | park (seq : UInt32) (data : List UInt8) (hst : c.tcb.state.takesData = true) (hpos : data ≠ [])
      (hgap : seq ≠ c.tcb.rcvNxt)
      (hfit : (seq - c.tcb.rcvNxt).toNat + data.length ≤ (tcpRcvWindow c.tcb).toNat)
      (hfree : c.tcb.ooo.any (oooOverlaps seq data) = false) :
      RecvStage c { c.recv with ooo := oooInsertSorted ⟨seq, data⟩ c.recv.ooo }
  | fin (g : Seg) (hfin : finInOrder c.tcb g = true) :
      RecvStage c
        { c.recv with
          state := rxFinState c.recv.state
          nxt := if c.recv.state ≠ .timeWait then g.seq + g.paylen + 1 else c.recv.nxt
          eof := true }
  | close (st : TcpState) (hst : ClosesTo c.tcb.state st) : RecvStage c { c.recv with state := st }
  | read (n : UInt32) (hn : n ≤ c.tcb.rcvLen) : RecvStage c (rcvRelease n c).recv

theorem RecvStage.of_eq {c : Conn} {v : RecvView} (h : v = c.recv) : RecvStage c v := h ▸ .same

theorem tcpProbed_recv : (tcpProbed now c).recv = c.recv := by
  have hcount : (c.count .tcpZeroWndProbes).recv = c.recv := rfl
  unfold tcpProbed
  simp only
  rw [Conn.recv_of_rest (tcpArmRto_rest _ _ now), Conn.recv_of_rest (tcpSendProbe_rest _), hcount]

theorem tcpTakeSyn_recv (g : Seg) (c : Conn) :
    (tcpTakeSyn g c).recv = { c.recv with irs := g.seq, nxt := g.seq + 1 } :=
  tcpTakeMss_recv _ g

theorem tcpSimultaneousOpen_recv :
    (tcpSimultaneousOpen now c).recv = { c.recv with state := .synRcvd } := by
  have hset : (c.setState .synRcvd).recv = { c.recv with state := .synRcvd } := rfl
  unfold tcpSimultaneousOpen
  simp only
  rw [Conn.recv_of_rest (tcpArmRto_rest _ _ now), tcpSendCtl_recv, hset]

theorem tcpFinAcked_recv_state (fin : Bool) (c : Conn) :
    (tcpFinAcked now fin c).recv = { c.recv with state := ackedState fin c.tcb.state } := by
  obtain ⟨rto, tw, dl, heq⟩ := tcpFinAcked_eq now fin c
  rw [heq]
  rfl

theorem announceWindow_recv : (announceWindow c).recv = c.recv := by
  unfold announceWindow
  split
  · exact tcpSendCtl_recv c _
  · rfl

theorem sndAppend_recv (xs : List UInt8) (c : Conn) : (sndAppend xs c).recv = c.recv := by
  have hring (buf : Nat → UInt8) (len : UInt32) :
      { c with tcb := { c.tcb with sndbuf := buf, sndLen := len } }.recv = c.recv := rfl
  exact hring _ _

theorem Act.recvStage {e : ConnEvent} {c d : Conn} (h : Act e c d) : RecvStage c d.recv := by
  cases h with
  | quiet h =>
    cases h with
    | heard h =>
      cases h with
      | stat st => exact .same
      | ack => exact .of_eq (tcpSendCtl_recv c _)
      | reset now lroom g hst hack => exact .of_eq (tcpSendResetFor_recv c g)
      | text now lroom g data hst hpos hfit =>
        rw [tcpDelayAck_recv]
        exact .text data hst hpos hfit
      | park now lroom g seq data hst hpos hgap hfit =>
        rw [tcpSendCtl_recv]
        rcases tcpOooInsert_recv c seq data with heq | ⟨hfree, heq⟩
        · exact .of_eq heq
        · rw [heq]
          exact .park seq data hst hpos hgap hfit hfree
      | recv cap =>
        rw [announceWindow_recv]
        refine .read _ ?_
        rw [UInt32.le_iff_toNat_le, recvAmount, pfMin_toNat]
        exact Nat.min_le_right _ _
    | opened now lroom g hout hst hlo hhi =>
      have huna (x : UInt32) : ((tcpTakeSyn g c).setUna x).recv = (tcpTakeSyn g c).recv := rfl
      rw [tcpSendCtl_recv, tcpEstablish_recv, huna, tcpTakeSyn_recv]
      exact .syn .established g hst (Or.inl rfl)
    | crossed now lroom g hst =>
      rw [tcpSimultaneousOpen_recv, tcpTakeSyn_recv]
      exact .syn .synRcvd g hst (Or.inr rfl)
    | answered now lroom g queued hout hst hlo hhi => exact .answered hst
    | rxFin now lroom g hfin =>
      rw [tcpTakeFin_recv]
      exact .fin g hfin
    | probe now hprobe => exact .of_eq (tcpProbed_recv now c)
    | nodelay on => exact .same
    | attach sock => exact .same
  | tune | window | backoff | rearm => exact .same
  | chunk now wnd chunk => exact .of_eq (Conn.recv_of_rest (tcpOutputChunk_rest now c chunk))
  | fin now => exact .of_eq (Conn.recv_of_rest (tcpSendFin_rest now c))
  | resend => exact .of_eq (Conn.recv_of_rest (tcpRetransmit_rest c))
  | acked now lroom g hsync hout hgt hle hlast =>
    rw [tcpFinAcked_recv_state, ackNew_state, Conn.recv_of_noSend (ackNew_noSend now g.ack c)]
    exact .acked g hsync hgt hle hlast
  | append now data hout hcan => exact .of_eq (sndAppend_recv _ c)
  | close now st hout hst => exact .close st hst

/-! ### Events and runs -/

theorem Opened.synWaits {c : Conn} (h : Opened c) : SynWaits c.send :=
  fun hst => (h.sendOk.unopened (Or.inl hst)).2.una

theorem connStep_keeps {c : Conn} {e : ConnEvent}
    (hact : ∀ c d, Act e c d → SynWaits c.send → P c → P d) (halive : c.fate = .alive)
    (hw : SynWaits c.send) (hstart : P (Conn.start c.tcb c.stats))
    (hend : (connStep c e).fate = .alive) : P (connStep c e) ∧ SynWaits (connStep c e).send := by
  have heq : connStep c e = connHandle (Conn.start c.tcb c.stats) e := by
    simp only [connStep, halive]
  rw [heq] at hend ⊢
  refine Acts.invariant (P := fun x => P x ∧ SynWaits x.send) ?_
    (connHandle_stages hw hend).acts ⟨hstart, hw⟩
  rintro x y hxy ⟨hp, hx⟩
  exact ⟨hact x y hxy hx hp, (hxy.sendStage hx).synWaits hx⟩

end PacketForge
