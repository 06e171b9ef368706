import PacketForge.Host.Bookkeeping
import PacketForge.Tcp.Deadline

/-!
Connections that outlive their socket. Every one of them has a timer running or is
probing a closed window, as long as no segment strands one. After that the block may be
held for good: nothing but the peer ends a connection in FIN_WAIT_2.
-/

namespace PacketForge

open Function (update_self update_of_ne)

/-- A connection whose owner has closed it. -/
def Orphan (t : Tcb) : Prop :=
  t.active = true ∧ t.state ≠ .listen ∧ t.sockIdx = none ∧ t.listener = none

instance : DecidablePred Orphan := fun _ => inferInstanceAs (Decidable (_ ∧ _))

theorem Orphan.of_entry {t t' : Tcb} (h : t'.entry = t.entry) : Orphan t' ↔ Orphan t := by
  have hact : t'.active = t.active := congrArg Entry.active h
  have hlis : t'.listener = t.listener := congrArg Entry.listener h
  unfold Orphan
  rw [hact, hlis, Tcb.sockIdx_of_entry h, Ne, Tcb.listen_of_entry h]

/-! ### Blocks -/

/-- A block in use is in order and not in FIN_WAIT_2, and one without an owner was
closed by it. -/
structure Attended (t : Tcb) : Prop where
  orderly : t.active = true → t.state ≠ .listen → Orderly t
  waits : t.active = true → t.state ≠ .finWait2
  shut : Orphan t → t.state.shut = true

theorem Attended.idle {t : Tcb} (h : t.active = false) : Attended t := by
  have hno : ¬ t.active = true := by simp [h]
  exact ⟨fun hact => absurd hact hno, fun hact => absurd hact hno, fun ho => absurd ho.1 hno⟩

theorem Attended.hasDeadline {t : Tcb} (h : Attended t) (ho : Orphan t) : HasDeadline t :=
  (h.orderly ho.1 ho.2.1).hasDeadline (h.shut ho) (h.waits ho.1)

/-- A block with an owner need not be closed. -/
theorem Attended.owned {t : Tcb} (h : t.active = true → t.state ≠ .listen → Orderly t)
    (hst : t.active = true → t.state ≠ .finWait2)
    (howned : t.sockIdx ≠ none ∨ t.listener ≠ none) : Attended t := by
  refine ⟨h, hst, ?_⟩
  rintro ⟨-, -, hsock, hlis⟩
  rcases howned with hs | hl
  · exact absurd hsock hs
  · exact absurd hlis hl

section Block

variable {t : Tcb} {st : Stats}

/-- An event that strands nothing keeps a block in order. -/
theorem Attended.of_handle {v : ConnEvent} {d : Conn}
    (horder : t.active = true → t.state ≠ .listen → Orderly t)
    (hwaits : t.active = true → t.state ≠ .finWait2) (hd : d = connHandle (Conn.start t st) v)
    (hentry : d.tcb.entry = t.entry) (halive : d.fate = .alive)
    (hgood : ∀ now lroom g, v = .segment now lroom g → ¬ SegStrands t g)
    (hshut : Orphan t → d.tcb.state.shut = true) : Attended d.tcb := by
  have hact : d.tcb.active = t.active := congrArg Entry.active hentry
  have hlisten := Tcb.listen_of_entry hentry
  subst hd
  refine ⟨?_, ?_, fun ho => hshut ((Orphan.of_entry hentry).mp ho)⟩
  · intro ha hst
    exact (horder (hact ▸ ha) (fun hl => hst (hlisten.mpr hl))).handle hgood halive
  · intro ha hbad
    have hst : t.state ≠ .listen := by
      intro hl
      rw [hlisten.mpr hl] at hbad
      cases hbad
    exact (horder (hact ▸ ha) hst).not_finWait2 (hwaits (hact ▸ ha)) hgood halive hbad

theorem Attended.handle {v : ConnEvent} {d : Conn} (h : Attended t)
    (hd : d = connHandle (Conn.start t st) v) (hentry : d.tcb.entry = t.entry)
    (halive : d.fate = .alive)
    (hgood : ∀ now lroom g, v = .segment now lroom g → ¬ SegStrands t g)
    (hv : ∀ now, v ≠ .close now) : Attended d.tcb := by
  refine Attended.of_handle h.orderly h.waits hd hentry halive hgood ?_
  intro ho
  rw [hd]
  exact ((h.orderly ho.1 ho.2.1).handle_shut hv).trans (h.shut ho)

theorem Attended.close {now : Nat} {d : Conn} (h : Attended t)
    (hd : d = tcpAppClose now (Conn.start { t with sockIdx := none } st))
    (halive : d.fate = .alive) : Attended d.tcb := by
  refine Attended.of_handle (v := .close now) (t := { t with sockIdx := none })
    (fun hact hst => (h.orderly hact hst).owned _ _ _) h.waits hd ?_ halive ?_ ?_
  · rw [hd]
    exact tcpAppClose_entry now _
  · exact fun _ _ _ heq => ConnEvent.noConfusion heq
  · intro _
    rw [hd] at halive ⊢
    exact tcpAppClose_shut halive

theorem isCall_fate {v : ConnEvent} (hv : v.isCall = true) :
    (connHandle (Conn.start t st) v).fate = .alive := by
  by_contra hend
  have hends := connHandle_ends hend
  generalize connHandle (Conn.start t st) v = d at hends
  cases hends <;> cases hv

theorem Attended.setQueue (h : Attended t) (q : List TcbIdx) : Attended { t with acceptq := q } :=
  ⟨fun hact hst => (h.orderly hact hst).owned _ _ _, h.waits, h.shut⟩

theorem Attended.accepted (h : Attended t) (s : SockIdx) :
    Attended { t with sockIdx := some s, listener := none } :=
  Attended.owned (fun hact hst => (h.orderly hact hst).owned _ _ _) h.waits
    (Or.inl (Option.some_ne_none s))

end Block

/-! ### Moves -/

/-- The segment strands the connection it is for. -/
def Strands (h : Host) : HostEvent → Prop
  | .segment _ g => ∃ i, tcbLookup h g.dst g.dport g.src g.sport = some i ∧ SegStrands (h.tcbs i) g
  | _ => False

instance (h : Host) : DecidablePred (Strands h)
  | .segment _ _ => inferInstanceAs (Decidable (∃ _, _))
  | .tick _ | .call _ _ | .resume _ _ => .isFalse id

section Tables

variable {T : Tables}

theorem attended_setTcb {i : TcbIdx} {t : Tcb} (hT : ∀ j, Attended (T.tcbs j)) (ht : Attended t)
    (j : TcbIdx) : Attended ((T.setTcb i t).tcbs j) := by
  change Attended (Function.update T.tcbs i t j)
  rcases eq_or_ne j i with rfl | hne
  · rw [update_self]
    exact ht
  · rw [update_of_ne hne]
    exact hT j

theorem attended_free (hT : ∀ j, Attended (T.tcbs j)) (i : TcbIdx) (err : PfErr) (j : TcbIdx) :
    Attended ((T.free i err).tcbs j) := by
  change Attended (if T.Goes i j then Tcb.zero else T.tcbs j)
  split
  · exact Attended.idle rfl
  · exact hT j

end Tables

variable {h : Host} {e : HostEvent}

theorem SegMove.attended {now : Nat} {g : Seg} {T : Tables} (hmove : SegMove h now g T)
    (hgood : ¬ Strands h (.segment now g)) (hT : ∀ i, Attended (h.tables.tcbs i)) :
    ∀ i, Attended (T.tcbs i) := by
  have hblock {i : TcbIdx} {lroom : Option Bool} {d : Conn} {st : Stats}
      (hfind : tcbLookup h g.dst g.dport g.src g.sport = some i)
      (hd : d = tcpInputConn now lroom g (Conn.start (h.tcbs i) st)) (halive : d.fate = .alive) :
      Attended d.tcb := by
    refine (hT i).handle (v := .segment now lroom g) hd ?_ halive ?_
      (fun _ => ConnEvent.noConfusion)
    · rw [hd]
      exact tcpInputConn_entry _ _ _ _
    · intro _ _ _ heq hbad
      cases heq
      exact hgood ⟨i, hfind, hbad⟩
  cases hmove with
  | same => exact hT
  | @segment i d st hfind hst hd halive hqueued hstats =>
    exact attended_setTcb hT (hblock hfind hd halive)
  | @queue i l d st hfind hst hlistener hroom hd halive hqueued =>
    have hset := attended_setTcb (i := i) hT (hblock hfind hd halive)
    exact attended_setTcb hset ((hset l).setQueue _)
  | segmentEnd => exact attended_free hT _ _
  | @passive l i iss st hfind hst hroom hidle =>
    have hopen := Opened.passive now l (h.tcbs l).localPort iss g st
    refine attended_setTcb hT (Attended.owned (fun _ _ => hopen.orderly) ?_ (Or.inr ?_))
    · intro _ hbad
      rcases hopen.state with hs | hs <;> rw [hs] at hbad <;> cases hbad
    · have hlis := congrArg Entry.listener
        (tcpOpenPassiveConn_entry now l (h.tcbs l).localPort iss g st)
      exact fun hnone => Option.some_ne_none l (hlis.symm.trans hnone)

theorem TickMove.attended {now : Nat} {T T' : Tables} (hmove : TickMove now T T')
    (hT : ∀ i, Attended (T.tcbs i)) : ∀ i, Attended (T'.tcbs i) := by
  cases hmove with
  | @tick i d st hact hd halive =>
    have hentry : d.tcb.entry = (T.tcbs i).entry := by
      rw [hd]
      exact tcpTickConn_entry _ _
    exact attended_setTcb hT ((hT i).handle (v := .tick now) hd hentry halive
      (fun _ _ _ => ConnEvent.noConfusion) (fun _ => ConnEvent.noConfusion))
  | tickEnd => exact attended_free hT _ _

theorem Move.attended {T T' : Tables} (hmove : Move h e T T') (hgood : ¬ Strands h e)
    (hT : ∀ i, Attended (T.tcbs i)) : ∀ i, Attended (T'.tcbs i) := by
  cases hmove with
  | segment hseg => exact hseg.attended hgood hT
  | tick htick => exact htick.attended hT
  | @listen now sock backlog s i hsock hidle =>
    refine attended_setTcb hT (Attended.owned ?_ ?_ (Or.inl (Option.some_ne_none s)))
    · exact fun _ hst => absurd rfl hst
    · exact fun _ hbad => TcpState.noConfusion hbad
  | @connect now sock rip lip rport lport route s i x iss st hsource hidle hx =>
    have hopen := Opened.active now (some s) lip lport rip rport iss st
    refine attended_setTcb hT (Attended.owned (fun _ _ => hopen.orderly) ?_ (Or.inl ?_))
    · intro _ hbad
      rcases hopen.state with hs | hs <;> rw [hs] at hbad <;> cases hbad
    · have hsock := congrArg Entry.sockIdx
        (tcpOpenActiveConn_entry now (some s) lip rip lport rport iss st)
      exact fun hnone => Option.some_ne_none s (hsock.symm.trans hnone)
  | @use _ _ s i v d st hsock hv hd =>
    have hentry : d.tcb.entry = (T.tcbs i).entry := by
      rw [hd]
      exact isCall_entry hv _
    have halive : d.fate = .alive := by
      rw [hd]
      exact isCall_fate hv
    refine attended_setTcb hT ((hT i).handle hd hentry halive ?_ ?_)
    · rintro _ _ _ rfl
      cases hv
    · rintro _ rfl
      cases hv
  | abort => exact attended_free hT _ _
  | @close now sock s i d hget hsock hd halive =>
    have hself : (h.tables.letGo s i).tcbs i = { h.tcbs i with sockIdx := none } :=
      update_self _ _ _
    rw [hself] at hd
    have heq : (h.tables.letGo s i).setTcb i d.tcb =
        (h.tables.setSock s { h.socks s with tcb := none }).setTcb i d.tcb := by
      unfold Tables.letGo Tables.setTcb
      simp only [Function.update_idem]
      rfl
    rw [heq]
    exact attended_setTcb hT ((hT i).close hd halive)
  | @closeEnd now sock s i hget hsock hst =>
    intro j
    change Attended
      (if (h.tables.letGo s i).Goes i j then Tcb.zero else (h.tables.letGo s i).tcbs j)
    split
    · exact Attended.idle rfl
    · rename_i hstays
      have hne : j ≠ i := fun heq => hstays (Or.inl heq)
      have hsame : (h.tables.letGo s i).tcbs j = h.tcbs j := update_of_ne hne _ _
      rw [hsame]
      exact hT j
  | @accept _ _ l child rest s x hq hfree hx =>
    have hpop : ∀ j, Attended ((T.pop l rest).tcbs j) := attended_setTcb hT ((hT l).setQueue rest)
    exact attended_setTcb hpop ((hpop child).accepted s)
  | @acceptDrop _ _ l child rest hq =>
    have hpop : ∀ j, Attended ((T.pop l rest).tcbs j) := attended_setTcb hT ((hT l).setQueue rest)
    exact attended_free hpop _ _
  | sock => exact hT

/-! ### Runs -/

theorem hostStep_attended (ok : ListenersOk h.tables.entries) (hT : ∀ i, Attended (h.tcbs i))
    (hgood : ¬ Strands h e) : ∀ i, Attended ((hostStep h e).tcbs i) := by
  have hmoves (T : Tables) (hm : Moves h e h.tables T) : ∀ i, Attended (T.tcbs i) := by
    induction hm with
    | refl => exact hT
    | tail _ hmove ih => exact hmove.attended hgood ih
  exact hmoves _ (hostStep_moves ok e)

/-- As long as no segment strands a connection, every connection whose owner has closed
it has a deadline. -/
theorem orphans_have_deadline {h : Host} (hr : Host.Reach (fun h e => ¬ Strands h e) h)
    (i : TcbIdx) (ho : Orphan (h.tcbs i)) : HasDeadline (h.tcbs i) := by
  have hall : ∀ i, Attended (h.tcbs i) :=
    hr.keeps (P := fun k => ∀ i, Attended (k.tcbs i)) (fun _ => Attended.idle rfl)
      (fun _ _ hgood ok hk => hostStep_attended ok hk hgood)
  exact (hall i).hasDeadline ho

/-- The server accepts the client of port 4000 and closes. -/
def orphanEvents : List HostEvent :=
  embryoEvents ++ [.segment 2 (clientSeg tcpAck 301 (0x1f2e3d4c + 64000 + 2)), .call 3 (.accept 0),
    .call 4 (.close 1)]

def orphanHost : Host := orphanEvents.foldl hostStep Host.init

theorem orphanHost_reach : Host.Reach (fun h e => ¬ Strands h e) orphanHost := by
  have hstart : Host.Reach (fun h e => ¬ Strands h e) Host.init := .start rfl
  exact hstart.foldl orphanEvents (by decide +kernel)

/-- The server repeats its FIN, and the client answers with its own. -/
def closingEvents : List HostEvent :=
  [.tick 2000, .segment 2001 (clientSeg (tcpFin ||| tcpAck) 301 (0x1f2e3d4c + 64000 + 3))]

/-- In FIN_WAIT_1 and in TIME_WAIT the block in slot 1 has a deadline. -/
theorem orphans_have_deadline_time_wait :
    let k := closingEvents.foldl hostStep orphanHost
    (orphanHost.tcbs 1).state = .finWait1 ∧ HasDeadline (orphanHost.tcbs 1) ∧
      (k.tcbs 1).state = .timeWait ∧ HasDeadline (k.tcbs 1) := by
  intro k
  have hk : Host.Reach (fun h e => ¬ Strands h e) k :=
    orphanHost_reach.foldl closingEvents (by decide +kernel)
  refine ⟨by decide +kernel, ?_, by decide +kernel, ?_⟩
  · exact orphans_have_deadline orphanHost_reach 1 (by decide +kernel)
  · exact orphans_have_deadline hk 1 (by decide +kernel)

/-! ### Forever -/

/-- Nothing is in flight, and no tick will send anything or end the connection. -/
def Stranded (t : Tcb) : Prop :=
  t.sndUna = t.sndNxt ∧ t.state ≠ .timeWait ∧ wantsProbe t = false

instance : DecidablePred Stranded := fun _ => inferInstanceAs (Decidable (_ ∧ _))

theorem Stranded.of_noRecv {c d : Conn} (h : d.noRecv = c.noRecv) (hs : Stranded d.tcb) :
    Stranded c.tcb := by
  have hview : Stranded d.noRecv.tcb := hs
  rw [h] at hview
  exact hview

theorem tcpTickDelack_noRecv (now : Nat) (c : Conn) : (tcpTickDelack now c).noRecv = c.noRecv := by
  unfold tcpTickDelack
  split
  · exact tcpSendCtl_noRecv c _
  · rfl

/-- The block is beyond the reach of every tick. -/
def Pinned (t : Tcb) : Prop := Orphan t ∧ Stranded t ∧ t.rtoDeadline = 0

theorem Pinned.no_deadline {t : Tcb} (h : Pinned t) : ¬ HasDeadline t := by
  obtain ⟨-, hs, hoff⟩ := h
  rintro (hrto | ⟨hwait, -⟩ | hprobe)
  · exact hrto hoff
  · exact hs.2.1 hwait
  · rw [hs.2.2] at hprobe
    cases hprobe

theorem Pinned.tick {t : Tcb} (h : Pinned t) (now : Nat) (st : Stats) :
    (tcpTickConn now (Conn.start t st)).fate = .alive ∧
      Pinned (tcpTickConn now (Conn.start t st)).tcb := by
  obtain ⟨ho, hs, hoff⟩ := h
  have hentry := tcpTickConn_entry now (Conn.start t st)
  have hprobe : tcpTickProbe now (Conn.start t st) = Conn.start t st := by
    refine if_neg ?_
    intro hp
    exact Bool.false_ne_true (hs.2.2.symm.trans hp)
  have htick : tcpTickConn now (Conn.start t st) = tcpTickDelack now (Conn.start t st) := by
    have hst : ¬ (Conn.start t st).tcb.state = .timeWait := hs.2.1
    have hquiet :
        ¬ ((Conn.start t st).tcb.rtoDeadline ≠ 0 ∧ now ≥ (Conn.start t st).tcb.rtoDeadline) :=
      fun hdue => hdue.1 hoff
    unfold tcpTickConn
    rw [if_neg hst, if_neg hquiet, hprobe]
  have hkeep := tcpTickDelack_noRecv now (Conn.start t st)
  refine ⟨htick ▸ Conn.fate_of_noRecv hkeep, (Orphan.of_entry hentry).mpr ho, ?_, ?_⟩
  · rw [htick]
    exact Stranded.of_noRecv hkeep.symm hs
  · rw [htick]
    exact (congrArg ClockView.deadline (Conn.clock_of_noRecv hkeep)).trans hoff

theorem Pinned.hostTick (ok : ListenersOk h.tables.entries) {i : TcbIdx} (hpin : Pinned (h.tcbs i))
    (now : Nat) : Pinned ((hostStep h (.tick now)).tcbs i) := by
  refine tcpTick_invariant (k := { h with out := [] }) (P := fun T => Pinned (T.tcbs i)) ok ?_ hpin
  intro T T' _ hmove hT
  cases hmove with
  | @tick j d st hact hd halive =>
    change Pinned (Function.update T.tcbs j d.tcb i)
    rcases eq_or_ne i j with rfl | hne
    · rw [update_self, hd]
      exact (hT.tick now st).2
    · rw [update_of_ne hne]
      exact hT
  | @tickEnd j d st err hact hd hfate =>
    have hstays : (T.free j err).tcbs i = T.tcbs i := by
      refine if_neg ?_
      rintro (rfl | ⟨-, -, hlis⟩)
      · rw [hd, (hT.tick now st).1] at hfate
        cases hfate
      · rw [hT.1.2.2.2] at hlis
        cases hlis
    rw [hstays]
    exact hT

theorem Pinned.ticks {allowed : Host → HostEvent → Prop} (hr : Host.Reach allowed h) {i : TcbIdx}
    (hpin : Pinned (h.tcbs i)) (times : List Nat) :
    Pinned (((times.map HostEvent.tick).foldl hostStep h).tcbs i) := by
  have hr' : Host.Reach (fun _ _ => True) h := hr.mono (fun _ _ _ => trivial)
  clear hr
  induction times generalizing h with
  | nil => exact hpin
  | cons now times ih =>
    exact ih (hpin.hostTick (Host.Reach.listenersOk hr') now) (.next hr' _ trivial)

/-- The client acknowledges the server's FIN and is never heard of again. -/
def lastAcknowledgement : HostEvent := .segment 5 (clientSeg tcpAck 301 (0x1f2e3d4c + 64000 + 3))

/-- The block in slot 1 stays in FIN_WAIT_2 for good. -/
theorem fin_wait_2_pinned :
    ((hostStep orphanHost lastAcknowledgement).tcbs 1).state = .finWait2 ∧
      ∀ times : List Nat,
        Orphan (((times.map HostEvent.tick).foldl hostStep
          (hostStep orphanHost lastAcknowledgement)).tcbs 1) ∧
        ¬ HasDeadline (((times.map HostEvent.tick).foldl hostStep
          (hostStep orphanHost lastAcknowledgement)).tcbs 1) := by
  have hr : Host.Reach (fun _ _ => True) (hostStep orphanHost lastAcknowledgement) :=
    .next (orphanHost_reach.mono (fun _ _ _ => trivial)) _ trivial
  have hpin : Pinned ((hostStep orphanHost lastAcknowledgement).tcbs 1) := by
    refine ⟨?_, ?_, ?_⟩ <;> decide +kernel
  refine ⟨by decide +kernel, fun times => ?_⟩
  have hlast := Pinned.ticks hr hpin times
  exact ⟨hlast.1, hlast.no_deadline⟩

end PacketForge
