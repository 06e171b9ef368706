import PacketForge.Host.Entry
import PacketForge.Tcp.Ends

/-!
A connection that no socket has accepted yet. The application cannot reach it,
so nothing is ever queued for sending and nothing but its SYN is ever in
flight. Once the handshake is over its retransmission timer is off for good,
and the only thing that can free it is a reset from the peer.
-/

namespace PacketForge

/-- The handshake is over and there is nothing to send or to wait for. -/
structure Settled (t : Tcb) : Prop where
  state : t.state = .established ∨ t.state = .closeWait
  len : t.sndLen = 0
  finQueued : t.finQueued = false
  finSent : t.finSent = false
  idle : t.sndUna = t.sndNxt
  timer : t.rtoDeadline = 0

/-- Our SYN is in flight and nothing else. -/
structure Embryonic (t : Tcb) : Prop where
  state : t.state = .synRcvd
  len : t.sndLen = 0
  finQueued : t.finQueued = false
  finSent : t.finSent = false
  syn : t.sndNxt = t.sndUna + 1

/-! ### After the handshake -/

theorem Settled.ne_listen {t : Tcb} (h : Settled t) : t.state ≠ .listen := by
  rcases h.state with hst | hst <;> simp [hst]

theorem Settled.ne_synSent {t : Tcb} (h : Settled t) : t.state ≠ .synSent := by
  rcases h.state with hst | hst <;> simp [hst]

theorem Settled.ne_synRcvd {t : Tcb} (h : Settled t) : t.state ≠ .synRcvd := by
  rcases h.state with hst | hst <;> simp [hst]

theorem Settled.of_noRecv {c c' : Conn} (h : Settled c.tcb) (heq : c'.noRecv = c.noRecv) :
    Settled c'.tcb := by
  have hn : Settled c'.noRecv.tcb := by
    rw [heq]
    exact ⟨h.state, h.len, h.finQueued, h.finSent, h.idle, h.timer⟩
  exact ⟨hn.state, hn.len, hn.finQueued, hn.finSent, hn.idle, hn.timer⟩

variable {e : ConnEvent} {c d : Conn}

/-- Events from outside; the others are calls of the application. -/
def ConnEvent.arrives : ConnEvent → Bool
  | .segment .. | .tick _ => true
  | _ => false

/-- The peer's FIN is all that changes the state. -/
theorem Settled.takeFin (h : Settled c.tcb) (now : Nat) {g : Seg}
    (hfin : finInOrder c.tcb g = true) : Settled (tcpTakeFin now (g.seq + g.paylen) c).tcb := by
  have hack := finAck_noRecv (g.seq + g.paylen) c
  have hs := h.of_noRecv hack
  have hst : c.tcb.state = .established := by
    rcases h.state with hst | hst
    · exact hst
    · simp [finInOrder, hst, TcpState.takesData] at hfin
  have hstate : (tcpSendCtl (consumeFin (g.seq + g.paylen) c) tcpAck).tcb.state = .established :=
    (Conn.state_of_noRecv hack).trans hst
  simp only [tcpTakeFin, tcpFinState, hstate]
  exact ⟨Or.inr rfl, hs.len, hs.finQueued, hs.finSent, hs.idle, hs.timer⟩

/-- There is nothing to send, and nothing an acknowledgement could cover. -/
theorem Settled.act (h : Settled c.tcb) (he : e.arrives = true) (hact : Act e c d) :
    Settled d.tcb ∧ d.queued = c.queued := by
  cases hact with
  | quiet hquiet =>
    cases hquiet with
    | heard hh => exact ⟨h.of_noRecv hh.noRecv, Conn.queued_of_noRecv hh.noRecv⟩
    | opened _ _ _ _ hst | crossed _ _ _ hst => exact absurd hst h.ne_synSent
    | answered _ _ _ _ _ hst => exact absurd hst h.ne_synRcvd
    | rxFin now lroom g hfin =>
      have hq := Conn.queued_of_noRecv (finAck_noRecv (g.seq + g.paylen) c)
      exact ⟨h.takeFin now hfin, hq⟩
    | probe now hprobe => simp [wantsProbe, h.len] at hprobe
    | nodelay | attach => cases he
  | tune | window | backoff =>
    exact ⟨⟨h.state, h.len, h.finQueued, h.finSent, h.idle, h.timer⟩, rfl⟩
  | chunk now wnd chunk hnow hst hwnd hnext =>
    simp [tcpNextChunk, tcpDataInFlight, h.len, h.finSent, h.idle] at hnext
  | fin now hnow hst hq =>
    rw [h.finQueued] at hq
    cases hq
  | resend =>
    have hsent := tcpRetransmit_noRecv c
    have hq := Conn.queued_of_noRecv hsent
    refine ⟨Settled.of_noRecv ?_ hsent, hq⟩
    exact ⟨h.state, h.len, h.finQueued, h.finSent, h.idle, h.timer⟩
  | acked now lroom g hsync hout hgt hle =>
    rw [h.idle, hle] at hgt
    cases hgt
  | rearm now harmed => exact absurd h.timer harmed
  | append | close => cases he

theorem Settled.acts (h : Settled c.tcb) (he : e.arrives = true) (hacts : Acts e c d) :
    Settled d.tcb ∧ d.queued = c.queued :=
  Acts.invariant (P := fun x => Settled x.tcb ∧ x.queued = c.queued)
    (fun _ _ hact hx => (hx.1.act he hact).imp_right fun hq => hq.trans hx.2) hacts ⟨h, rfl⟩

/-- A reset is all that frees a connection that waits to be accepted. -/
theorem Settled.alive {t : Tcb} (h : Settled t) (he : e.arrives = true)
    (hmiss : ∀ now lroom g, e = .segment now lroom g → resetAt t g = false) (st : Stats) :
    (connHandle (Conn.start t st) e).fate = .alive := by
  by_contra hend
  have hends := connHandle_ends hend
  generalize connHandle (Conn.start t st) e = d at hends
  cases hends with
  | refused now lroom g hst => exact h.ne_synSent hst
  | reset now lroom g err hst hrst =>
    have hno : resetAt t g = false := hmiss now lroom g rfl
    rw [show resetAt t g = true from hrst] at hno
    cases hno
  | full now g hst => exact h.ne_synRcvd hst
  | lastAck now lroom g hst | timeWait now hst =>
    rcases h.state with hs | hs <;> exact absurd (hs.symm.trans hst) (by simp)
  | timedOut now hst harmed => exact harmed h.timer
  | closed => cases he

/-- Every other event leaves it waiting. -/
theorem Settled.event {t : Tcb} (h : Settled t) (he : e.arrives = true)
    (hmiss : ∀ now lroom g, e = .segment now lroom g → resetAt t g = false) (st : Stats) :
    Settled (connHandle (Conn.start t st) e).tcb ∧
      (connHandle (Conn.start t st) e).queued = false :=
  h.acts (c := Conn.start t st) he
    (connHandle_stages (fun hst => absurd hst h.ne_synSent) (h.alive he hmiss st)).acts

/-! ### During the handshake -/

theorem Embryonic.of_noRecv {c c' : Conn} (h : Embryonic c.tcb) (heq : c'.noRecv = c.noRecv) :
    Embryonic c'.tcb := by
  have hn : Embryonic c'.noRecv.tcb := by
    rw [heq]
    exact ⟨h.state, h.len, h.finQueued, h.finSent, h.syn⟩
  exact ⟨hn.state, hn.len, hn.finQueued, hn.finSent, hn.syn⟩

/-- The acknowledgement of our SYN covers everything that was sent. -/
theorem Embryonic.tcpEstablish (h : Embryonic c.tcb) (g : Seg)
    (hlo : seqLt c.tcb.sndUna g.ack = true) (hhi : seqLe g.ack c.tcb.sndNxt = true) :
    Settled (tcpEstablish (c.setUna g.ack) g).tcb := by
  have hack : g.ack = c.tcb.sndNxt := by
    have hnxt : c.tcb.sndNxt = SeqSpace.pos c.tcb.sndUna 1 := h.syn
    rw [seqLt_iff_rev] at hlo
    rw [SeqSpace.eq_pos g.ack c.tcb.sndUna, hnxt, seqLe_pos _ (by omega) (by omega)] at hhi
    rw [SeqSpace.eq_pos g.ack c.tcb.sndUna, hnxt]
    congr 1
    omega
  exact ⟨Or.inl rfl, h.len, h.finQueued, h.finSent, hack, rfl⟩

/-- The child stays in SYN_RCVD, or the handshake is complete and it is handed to the
accept queue. -/
theorem Embryonic.act (h : Embryonic c.tcb) (he : e.arrives = true)
    (hroom : ∀ now g, e ≠ .segment now none g) (hact : Act e c d) :
    Embryonic d.tcb ∧ d.queued = c.queued ∨ Settled d.tcb ∧ d.queued = true := by
  cases hact with
  | quiet hquiet =>
    cases hquiet with
    | heard hh => exact Or.inl ⟨h.of_noRecv hh.noRecv, Conn.queued_of_noRecv hh.noRecv⟩
    | opened _ _ _ _ hst | crossed _ _ _ hst =>
      rw [h.state] at hst
      cases hst
    | answered now lroom g q hout hst hlo hhi hq =>
      refine Or.inr ⟨h.tcpEstablish g hlo hhi, hq ?_⟩
      cases lroom with
      | none => exact absurd rfl (hroom now g)
      | some => rfl
    | rxFin now lroom g hfin => simp [finInOrder, h.state, TcpState.takesData] at hfin
    | probe now hprobe => simp [wantsProbe, h.len] at hprobe
    | nodelay | attach => cases he
  | tune | window | backoff | rearm =>
    exact Or.inl ⟨⟨h.state, h.len, h.finQueued, h.finSent, h.syn⟩, rfl⟩
  | chunk now wnd chunk hnow hst =>
    rw [h.state] at hst
    cases hst
  | fin now hnow hst hq =>
    rw [h.finQueued] at hq
    cases hq
  | resend =>
    have hsent := tcpRetransmit_noRecv c
    have hq := Conn.queued_of_noRecv hsent
    refine Or.inl ⟨Embryonic.of_noRecv ?_ hsent, hq⟩
    exact ⟨h.state, h.len, h.finQueued, h.finSent, h.syn⟩
  | acked now lroom g hsync => exact absurd h.state hsync.2
  | append | close => cases he

theorem Embryonic.event {t : Tcb} (h : Embryonic t) (he : e.arrives = true)
    (hroom : ∀ now g, e ≠ .segment now none g) {st : Stats}
    (halive : (connHandle (Conn.start t st) e).fate = .alive) :
    Embryonic (connHandle (Conn.start t st) e).tcb ∧
        (connHandle (Conn.start t st) e).queued = false ∨
      Settled (connHandle (Conn.start t st) e).tcb ∧
        (connHandle (Conn.start t st) e).queued = true := by
  have hstages := connHandle_stages (fun hst => by rw [h.state] at hst; cases hst) halive
  refine Acts.invariant (P := fun x => Embryonic x.tcb ∧ x.queued = false ∨
    Settled x.tcb ∧ x.queued = true) ?_ hstages.acts (Or.inl ⟨h, rfl⟩)
  rintro c d hact (⟨hc, hq⟩ | ⟨hc, hq⟩)
  · exact (hc.act he hroom hact).imp_left (And.imp_right fun hd => hd.trans hq)
  · exact Or.inr ((hc.act he hact).imp_right fun hd => hd.trans hq)

theorem tcpOpenPassiveConn_embryonic (now : Nat) (l : Fin tcpMaxConns) (lport : UInt16)
    (iss : UInt32) (g : Seg) (st : Stats) :
    Embryonic (tcpOpenPassiveConn now l lport iss g st).tcb := by
  have harm {t : Tcb} (h : Embryonic t) : Embryonic (tcpArmRto t now) := by
    unfold tcpArmRto
    split
    · exact ⟨h.state, h.len, h.finQueued, h.finSent, h.syn⟩
    · exact h
  have hstart (c : Conn) (hlen : c.tcb.sndLen = 0) (hfin : c.tcb.finQueued = false)
      (hsent : c.tcb.finSent = false) (hsyn : c.tcb.sndNxt = c.tcb.sndUna + 1) :
      Embryonic ((tcpTakeMss c g).setState .synRcvd).tcb := by
    unfold tcpTakeMss
    simp only
    split <;> exact ⟨rfl, hlen, hfin, hsent, hsyn⟩
  have hchild := hstart ((Conn.start (passiveTcb l lport iss g) st).count .tcpPassiveOpens)
    rfl rfl rfl rfl
  unfold tcpOpenPassiveConn tcpStartSyn
  exact harm (hchild.of_noRecv (tcpSendCtl_noRecv _ _))

theorem resetAt_frees {g : Seg} (hst : c.tcb.state ≠ .synSent) (h : resetAt c.tcb g = true)
    (now : Nat) (lroom : Option Bool) : ∃ err, (tcpInputConn now lroom g c).fate = .freed err := by
  simp only [resetAt, Bool.and_eq_true, decide_eq_true_eq] at h
  obtain ⟨⟨hacc, hrst⟩, hseq⟩ := h
  unfold tcpInputConn
  rw [if_neg hst, if_neg (by simp [hacc]), if_pos hrst]
  unfold tcpInputRst
  simp only
  rw [if_pos (show g.seq = (c.count .tcpRstRx).tcb.rcvNxt from hseq)]
  split
  · exact ⟨_, rfl⟩
  · exact ⟨_, rfl⟩

end PacketForge
