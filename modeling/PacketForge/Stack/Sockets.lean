import PacketForge.Stack.Config
import PacketForge.Udp.Bindings

/-!
What sockets were bound to. A run of the stack is observed by a history that
notes each successful `pf_bind` and each automatic bind of `pf_sendto`. The
table of sockets has no flag for a binding: a socket that was never bound has
port 0 and address 0, the same as a datagram may have.
-/

namespace PacketForge

open Function

open Checked

/-! ### The history -/

/-- The address and port a socket was bound to. -/
structure Bound where
  ip : UInt32
  port : UInt16
deriving DecidableEq

/-- An attempt of `pf_connect`: the address of the interface that the route to the
destination uses, and the source address of the SYN. -/
structure Attempt where
  route : Option UInt32
  used : UInt32

/-- A stack, what its sockets are bound to, and the attempts to connect a socket
that was not bound. -/
structure SockHist where
  stack : Stack
  bound : SockIdx → Option Bound
  tries : List Attempt

/-- A call of `pf_bind` that returns 0 is noted. -/
def noteBind (h : Host) (sock : Int) (ip : UInt32) (port : UInt16)
    (bound : SockIdx → Option Bound) : SockIdx → Option Bound :=
  match pfSockGet h sock, (pfBind sock ip port h).2 with
  | some i, .ret 0 => update bound i (some ⟨ip, port⟩)
  | _, _ => bound

/-- A socket that is closed is bound no more. -/
def noteClose (h : Host) (sock : Int) (bound : SockIdx → Option Bound) : SockIdx → Option Bound :=
  match pfSockGet h sock with
  | some i => update bound i none
  | none => bound

/-- The automatic bind of `pf_sendto` is one to the wildcard. -/
def noteSendto (h : Host) (sock : Int) (len : Nat) (dstPort : UInt16)
    (bound : SockIdx → Option Bound) : SockIdx → Option Bound :=
  match sendtoSock sock len dstPort h with
  | (h', some i) =>
    if (h.socks i).localPort = 0 then update bound i (some ⟨0, (h'.socks i).localPort⟩)
    else bound
  | (_, none) => bound

/-- What is noted of an event in state `s`: nothing while another call waits. -/
def noteBound (s : Stack) (bound : SockIdx → Option Bound) (e : StackEvent) :
    SockIdx → Option Bound :=
  match e, s.pending with
  | .call _ (.bind sock ip port), none => noteBind s.host sock ip port bound
  | .call _ (.close sock), none => noteClose s.host sock bound
  | .sendto _ sock buf _ dstPort, none => noteSendto s.host sock buf.length dstPort bound
  | _, _ => bound

/-- The address of the interface that the FIB selects for a destination. -/
def routeAddr (s : Stack) (dst : UInt32) : Option UInt32 :=
  (ipRouteLookup s dst).map fun r => (s.devs r.1).ip

/-- The attempts that an event makes for sockets that are not bound: the segments
`pf_connect` has TCP send. -/
def noteTries (s : Stack) (bound : SockIdx → Option Bound) : StackEvent → List Attempt
  | .call now (.connect sock dstIp dstPort route) =>
    match tcpSockGet s.host sock with
    | none => []
    | some i =>
      if bound i = none then
        (hostStep s.host (.call now (routedCall s (.connect sock dstIp dstPort route)))).out.map
          fun g => ⟨routeAddr s dstIp, g.src⟩
      else []
  | _ => []

def sockHistStep (a : SockHist) (e : StackEvent) : Except Fault SockHist := do
  let s ← stackStep a.stack e
  return ⟨s, noteBound a.stack a.bound e, a.tries ++ noteTries a.stack a.bound e⟩

/-- A stack that has just started: no socket is bound. -/
def SockHist.Fresh (a : SockHist) : Prop :=
  PacketForge.Fresh a.stack ∧ (∀ i, a.bound i = none) ∧ a.tries = []

/-- The histories that runs of allowed events lead to. -/
def SockHist.Reach (allowed : SockHist → StackEvent → Prop) (a : SockHist) : Prop :=
  Checked.Reach SockHist.Fresh allowed sockHistStep a

/-! ### The table agrees with the history -/

/-- The table shows what UDP sockets were bound to. -/
structure Records (b : Bindings) (bound : SockIdx → Option Bound) : Prop where
  free (i : SockIdx) : (b i).type = .none → bound i = none
  udp (i : SockIdx) : (b i).type = .udp →
    (b i).ip = (bound i).elim 0 Bound.ip ∧ (b i).port = (bound i).elim 0 Bound.port
  port (i : SockIdx) (x : Bound) : bound i = some x → x.port ≠ 0

section Records

variable {b b' : Bindings} {bound : SockIdx → Option Bound}

/-- One socket and what is noted about it change. -/
theorem Records.update (h : Records b bound) (i : SockIdx) (y : Binding) (x : Option Bound)
    (hfree : y.type = .none → x = none)
    (hudp : y.type = .udp → y.ip = x.elim 0 Bound.ip ∧ y.port = x.elim 0 Bound.port)
    (hport : ∀ z, x = some z → z.port ≠ 0) :
    Records (update b i y) (update bound i x) := by
  constructor <;> intro j <;> rcases eq_or_ne j i with rfl | hj
  · rw [update_self, update_self]
    exact hfree
  · rw [update_of_ne hj, update_of_ne hj]
    exact h.free j
  · rw [update_self, update_self]
    exact hudp
  · rw [update_of_ne hj, update_of_ne hj]
    exact h.udp j
  · rw [update_self]
    exact hport
  · rw [update_of_ne hj]
    exact h.port j

theorem Records.opens (h : Records b bound) (hm : OpenMoves b b') : Records b' bound := by
  induction hm with
  | refl => exact h
  | tail _ hmove ih =>
    cases hmove with
    | create i type hfree =>
      have hnone := ih.free i hfree
      have hnew := ih.update i ⟨type, 0, 0⟩ none (fun _ => rfl) (fun _ => ⟨rfl, rfl⟩) nofun
      rwa [← hnone, update_eq_self] at hnew
    | tcp i ip port _ =>
      have hnew := ih.update i ⟨.tcp, ip, port⟩ (bound i) nofun nofun (ih.port i)
      rwa [update_eq_self] at hnew

end Records

/-! ### Steps -/

section Steps

variable {s : Stack}

theorem Stack.bindings_kept (b : Bindings) : Kept (fun s => s.host.bindings = b) where
  rest {s s'} hrest hs := by
    have hbindings : s'.rest.host.bindings = s.rest.host.bindings := by rw [hrest]
    exact hbindings.trans hs
  ctxs _ hs := hs
  queue {s} sk x hs :=
    (s.host.bindings_same (x := { s.socks sk with rxq := (s.socks sk).rxq ++ [x] }) rfl).trans hs
  segment {s} now g hs := (tcpInput_bindings s.host now g).trans hs
  tick {s} now hs := (tcpTick_bindings s.host now).trans hs

theorem runHost_bindings (s : Stack) (now : Nat) (f : Host → Host) :
    Post Fault.inBounds (fun s' => s'.host.bindings = (f s.host).bindings) (s.runHost now f) :=
  (runHost_sent s now f).imp fun _ hs => (Stack.bindings_kept _).rest hs.rest rfl

theorem pfBind_cases (h : Host) (sock : Int) (ip : UInt32) (port : UInt16) :
    pfBind sock ip port h = (h, .ret (-1)) ∨
    ∃ i, pfSockGet h sock = some i ∧ port ≠ 0 ∧ pfBind sock ip port h =
      (h.setSock i { h.socks i with localIp := ip, localPort := port }, .ret 0) := by
  unfold pfBind
  split
  · exact Or.inl rfl
  rename_i i hi
  split
  · exact Or.inl rfl
  rename_i hport
  split
  · exact Or.inl rfl
  · exact Or.inr ⟨i, hi, hport, rfl⟩

/-- `pf_sendto` changes a socket only where it gives it an ephemeral port. -/
theorem sendtoSock_cases (h : Host) (sock : Int) (len : Nat) (dstPort : UInt16) :
    ((sendtoSock sock len dstPort h).1.socks = h.socks ∧
      ∀ i, (sendtoSock sock len dstPort h).2 = some i → (h.socks i).localPort ≠ 0) ∨
    ∃ i port, (sendtoSock sock len dstPort h).2 = some i ∧ (h.socks i).type = .udp ∧
      (h.socks i).localPort = 0 ∧ port ≠ 0 ∧ (sendtoSock sock len dstPort h).1.socks =
        update h.socks i { h.socks i with localPort := port } := by
  unfold sendtoSock
  split
  · exact Or.inl ⟨rfl, nofun⟩
  rename_i i _
  split
  · exact Or.inl ⟨rfl, nofun⟩
  rename_i hguard
  split
  · exact Or.inl ⟨rfl, nofun⟩
  simp only [ne_eq, not_or, not_not] at hguard
  split
  · rename_i hzero
    unfold pfSockEphemeralPort
    simp only
    generalize (ephemeralLoop h 16384 h.ephemeralNext).1 = port
    split
    · exact Or.inl ⟨rfl, nofun⟩
    · rename_i hport
      exact Or.inr ⟨i, port, rfl, hguard.1, hzero, hport, rfl⟩
  · rename_i hport
    refine Or.inl ⟨rfl, ?_⟩
    rintro j ⟨⟩
    exact hport

theorem pfSockGet_type {h : Host} {sock : Int} {i : SockIdx} (hi : pfSockGet h sock = some i) :
    (h.socks i).type ≠ .none := by
  unfold pfSockGet at hi
  split at hi
  · obtain ⟨htype, heq⟩ := Option.ite_none_left_eq_some.mp hi
    exact Option.some.inj heq ▸ htype
  · cases hi

variable {h : Host} {bound : SockIdx → Option Bound}

theorem Records.bind (hr : Records h.bindings bound) (sock : Int) (ip : UInt32) (port : UInt16) :
    Records (pfBind sock ip port h).1.bindings (noteBind h sock ip port bound) := by
  unfold noteBind
  rcases pfBind_cases h sock ip port with hfail | ⟨i, hi, hport, hok⟩
  · rw [hfail]
    cases pfSockGet h sock <;> exact hr
  · rw [hi, hok]
    simp only [Host.bindings_setSock]
    refine hr.update i _ _ (fun htype => absurd htype (pfSockGet_type hi)) (fun _ => ⟨rfl, rfl⟩) ?_
    rintro z ⟨⟩
    exact hport

theorem Records.close (hr : Records h.bindings bound) (now : Nat) (sock : Int) :
    Records (pfClose now sock h).1.bindings (noteClose h sock bound) := by
  unfold noteClose pfClose
  cases pfSockGet h sock with
  | none => exact hr
  | some i =>
    simp only [Host.bindings_setSock]
    refine Records.update ?_ i _ none (fun _ => rfl) nofun nofun
    split
    · exact hr
    · exact hr.opens (closeTcb_ops h now i _).bindings

theorem Records.sendto (hr : Records h.bindings bound) (sock : Int) (len : Nat) (dstPort : UInt16) :
    Records (sendtoSock sock len dstPort h).1.bindings (noteSendto h sock len dstPort bound) := by
  unfold noteSendto
  have hcases := sendtoSock_cases h sock len dstPort
  generalize sendtoSock sock len dstPort h = r at hcases
  obtain ⟨h', sk⟩ := r
  rcases hcases with ⟨hsocks, hbound⟩ | ⟨i, port, hi, htype, hzero, hport, hsocks⟩
  · have hsame : h'.bindings = h.bindings := by
      unfold Host.bindings
      rw [hsocks]
    rw [hsame]
    cases sk with
    | none => exact hr
    | some i =>
      simp only [if_neg (hbound i rfl)]
      exact hr
  · simp only at hi hsocks
    subst hi
    have hbind : h'.bindings = Function.update h.bindings i ⟨.udp, (h.socks i).localIp, port⟩ := by
      rw [← htype]
      have hset := h.bindings_setSock i { h.socks i with localPort := port }
      refine Eq.trans ?_ hset
      unfold Host.bindings
      rw [hsocks]
      rfl
    have hnew : (h'.socks i).localPort = port := by rw [hsocks, update_self]
    have hold := hr.udp i htype
    have hnone : bound i = none := by
      cases hb : bound i with
      | none => rfl
      | some x =>
        rw [hb] at hold
        exact absurd (hold.2.symm.trans hzero) (hr.port i x hb)
    rw [hnone] at hold
    simp only [if_pos hzero, hnew, hbind]
    refine hr.update i _ _ nofun (fun _ => ⟨hold.1, rfl⟩) ?_
    rintro z ⟨⟩
    exact hport

theorem hostStep_call_bindings (hidle : h.pending = none) (now : Nat) (c : Call) :
    (hostStep h (.call now c)).bindings = (hostCall now { h with out := [] } c).1.bindings := by
  rw [hostStep_call hidle]
  rfl

theorem hostStep_busy_bindings {p : Pending} (hbusy : h.pending = some p) (now : Nat) (c : Call) :
    (hostStep h (.call now c)).bindings = h.bindings := by
  rw [hostStep_busy hbusy]
  rfl

theorem hostStep_resume_bindings (h : Host) (now : Nat) (expired : Bool) :
    OpenMoves h.bindings (hostStep h (.resume now expired)).bindings := by
  unfold hostStep
  cases hp : h.pending with
  | none => exact .refl
  | some p => exact (hostResume_ops { h with out := [], pending := some p } now expired p).bindings

theorem Records.call (hr : Records s.host.bindings bound) (now : Nat) (c : Call) :
    Records (hostStep s.host (.call now (routedCall s c))).bindings
      (noteBound s bound (.call now c)) := by
  unfold noteBound
  cases hp : s.pending with
  | some p =>
    rw [hostStep_busy_bindings (h := s.host) hp]
    cases c <;> exact hr
  | none =>
    rw [hostStep_call_bindings (h := s.host) hp]
    cases c with
    | bind sock ip port => exact hr.bind sock ip port
    | close sock => exact hr.close now sock
    | _ => refine hr.opens (hostCall_opens _ now ?_ ?_).bindings <;> exact nofun

theorem stackStep_records (hok : ReassOk s) (hr : Records s.host.bindings bound) (e : StackEvent) :
    Post Fault.inBounds (fun s' => Records s'.host.bindings (noteBound s bound e))
      (stackStep s e) := by
  have hkeep {m : Except Fault Stack}
      (hm : Post Fault.inBounds (fun s' => s'.host.bindings = s.host.bindings) m) :
      Post Fault.inBounds (fun s' => Records s'.host.bindings bound) m :=
    hm.imp fun _ hs => hs ▸ hr
  cases e with
  | frame now heap dev f =>
    exact hkeep (((Stack.bindings_kept _).ethInput heap dev f.pkt ⟨hok, rfl⟩).imp fun _ hs => hs.2)
  | tick now => exact hkeep (((Stack.bindings_kept _).pfTick ⟨hok, rfl⟩).imp fun _ hs => hs.2)
  | call now c =>
    unfold stackStep
    exact (runHost_bindings s now _).imp fun _ hs => hs ▸ hr.call now c
  | resume now expired =>
    unfold stackStep
    refine (runHost_bindings s now _).imp fun _ hs => ?_
    exact hs ▸ hr.opens (hostStep_resume_bindings s.host now expired)
  | sendto now sock buf dstIp dstPort =>
    unfold stackStep noteBound
    cases hp : s.pending with
    | some p => exact hr
    | none =>
      refine (pfSendto_sent s now sock buf dstIp dstPort).imp fun _ hs => ?_
      have hb := (Stack.bindings_kept _).rest hs.rest rfl
      exact hb ▸ hr.sendto sock buf.length dstPort
  | recvfrom sock =>
    refine hkeep ?_
    change (pfRecvfrom s sock).host.bindings = s.host.bindings
    unfold pfRecvfrom
    split
    · rfl
    split
    · rfl
    · exact Host.bindings_same s.host rfl
  | config op =>
    refine hkeep ?_
    change (configure s op).host.bindings = s.host.bindings
    cases op with
    | addr => rfl
    | route op => cases op <;> rfl
    | forwarding => rfl

/-- In every state of a run the table shows what was noted. -/
theorem SockHist.Reach.records {allowed : SockHist → StackEvent → Prop} {a : SockHist}
    (hr : a.Reach allowed) : Records a.stack.host.bindings a.bound := by
  have hinv : ReassOk a.stack ∧ Records a.stack.host.bindings a.bound := by
    refine Checked.Reach.invariant
      (fun a : SockHist => ReassOk a.stack ∧ Records a.stack.host.bindings a.bound) ?_ ?_ hr
    · rintro ⟨s, bound, tries⟩ ⟨hs, hbound, -⟩
      refine ⟨hs.reassOk, ?_⟩
      obtain ⟨devs, ndevs, forwarding, fib, -, rfl⟩ := hs
      exact ⟨fun i _ => hbound i, nofun, fun i x hx => absurd (hx.symm.trans (hbound i)) nofun⟩
    · rintro a e - ⟨hok, hrec⟩
      have hstep := (stackStep_ok hok e).and (stackStep_records hok hrec e)
      refine Post.bind (hstep.mono (fun _ _ => trivial) fun _ h => h) fun s' hs' => ?_
      exact Post.pure hs'
  exact hinv.2

end Steps

/-! ### Datagrams -/

section Datagrams

/-- The length and checksum tests of `udp_input`. -/
structure UdpAccepts (d : Datagram) : Prop where
  header : udpHdrLen ≤ d.payload.length
  min : udpHdrLen ≤ (be16 d.payload 4).toNat
  max : (be16 d.payload 4).toNat ≤ d.payload.length
  csum : be16 d.payload 6 = 0 ∨
    l4Csum (ipSaddr d.bytes) (ipDaddr d.bytes) ipProtoUdp
      (d.payload.take (be16 d.payload 4).toNat) = 0

def udpRx (d : Datagram) : RxPkt :=
  ⟨ipSaddr d.bytes, be16 d.payload 0,
    (d.payload.drop udpHdrLen).take ((be16 d.payload 4).toNat - udpHdrLen)⟩

variable {s : Stack} {d : Datagram} {i : SockIdx}

/-- A datagram that passes the tests goes to the socket that the lookup finds. -/
theorem udpAct_of_accepts (h : UdpAccepts d) : (udpAct s d).2 = (udpSockAct s d).2 := by
  unfold udpAct
  simp only
  rw [if_neg (Nat.not_lt.mpr h.header),
    if_neg (not_or.mpr ⟨Nat.not_lt.mpr h.min, Nat.not_lt.mpr h.max⟩)]
  split
  · rfl
  · rename_i hcsum
    rw [if_neg (not_not.mpr (h.csum.resolve_left hcsum))]

theorem udpAct_of_rejects (h : ¬ UdpAccepts d) : (udpAct s d).2 = .quiet := by
  unfold udpAct
  simp only
  split
  · rfl
  rename_i hheader
  split
  · rfl
  rename_i hlen
  simp only [not_or, not_lt] at hheader hlen
  split
  · rename_i hzero
    exact absurd ⟨hheader, hlen.1, hlen.2, Or.inl hzero⟩ h
  split
  · rfl
  · rename_i hcsum
    exact absurd ⟨hheader, hlen.1, hlen.2, Or.inr (not_not.mp hcsum)⟩ h

/-- A datagram is queued on the socket that the lookup finds, if that has room. -/
theorem udpAct_queue_iff {x : RxPkt} : (udpAct s d).2 = .queue i x ↔
    UdpAccepts d ∧ pfSockLookupUdp s.host (ipDaddr d.bytes) (be16 d.payload 2) = some i ∧
      (s.socks i).rxq.length < pfSockRxqCap ∧ x = udpRx d := by
  by_cases h : UdpAccepts d
  · rw [udpAct_of_accepts h]
    unfold udpSockAct
    simp only
    cases hfind : pfSockLookupUdp s.host (ipDaddr d.bytes) (be16 d.payload 2) with
    | none => simp
    | some j =>
      simp only
      split
      · rename_i hfull
        constructor
        · exact nofun
        · rintro ⟨-, ⟨⟩, hroom, -⟩
          exact absurd hroom (Nat.not_lt.mpr hfull)
      · rename_i hroom
        constructor
        · rintro ⟨⟩
          exact ⟨h, rfl, Nat.lt_of_not_le hroom, rfl⟩
        · rintro ⟨-, ⟨⟩, -, rfl⟩
          rfl
  · rw [udpAct_of_rejects h]
    exact ⟨nofun, fun hx => absurd hx.1 h⟩

theorem udpAct_cases (s : Stack) (d : Datagram) : (udpAct s d).2 = .quiet ∨
    (udpAct s d).2 = .error d.bytes icmpTypeDestUnreach 3 ∨ ∃ j x, (udpAct s d).2 = .queue j x := by
  by_cases hgood : UdpAccepts d
  · rw [udpAct_of_accepts hgood]
    unfold udpSockAct
    simp only
    split
    · exact Or.inr (Or.inl rfl)
    split
    · exact Or.inl rfl
    · exact Or.inr (Or.inr ⟨_, _, rfl⟩)
  · exact Or.inl (udpAct_of_rejects hgood)

theorem perform_udpAct_socks {t s' : Stack} {now : Nat}
    (h : perform t now (udpAct s d).2 = .ok s') :
    (∃ j x, (udpAct s d).2 = .queue j x ∧ s' = t.pushRx j x) ∨
    ((∀ j x, (udpAct s d).2 ≠ .queue j x) ∧ s'.socks = t.socks) := by
  rcases udpAct_cases s d with hact | hact | ⟨j, x, hact⟩ <;> rw [hact] at h ⊢
  · cases h
    exact Or.inr ⟨nofun, rfl⟩
  · exact Or.inr ⟨nofun, ((icmpSendError_sent (Sent.refl t) _ _ _).of_ok h).socks⟩
  · cases h
    exact Or.inl ⟨j, x, rfl, rfl⟩

/-- Only a datagram that is queued changes a receive queue. -/
theorem udpInput_queues {q : IpPkt} {now : Nat} {s' : Stack} (h : udpInput s now q.pkt = .ok s') :
    (s'.socks i).rxq ≠ (s.socks i).rxq ↔ ∃ x, (udpAct s q.datagram).2 = .queue i x := by
  rw [udpInput_eq] at h
  have hcounts : ((s.count .udpRx).counts (udpAct s q.datagram).1).socks = s.socks := by
    rw [Stack.counts_eq]
    rfl
  generalize (s.count .udpRx).counts (udpAct s q.datagram).1 = t at h hcounts
  rcases perform_udpAct_socks h with ⟨j, x, hact, rfl⟩ | ⟨hact, hsocks⟩
  · rw [hact]
    have hpush : (t.pushRx j x).socks =
        update s.socks j { s.socks j with rxq := (s.socks j).rxq ++ [x] } := by
      rw [← hcounts]
      rfl
    rw [hpush]
    rcases eq_or_ne i j with rfl | hij
    · simp
    · rw [update_of_ne hij]
      simp [hij.symm]
  · rw [hsocks, hcounts]
    exact ⟨fun hne => absurd rfl hne, fun ⟨x, hx⟩ => absurd hx (hact i x)⟩

end Datagrams

/-! ### Delivery to bound sockets -/

/-- A good datagram for port 0 finds a socket with room: one that was not bound. -/
def FindsUnbound (s : Stack) (d : Datagram) : Prop :=
  UdpAccepts d ∧ be16 d.payload 2 = 0 ∧ ∃ i, pfSockLookupUdp s.host (ipDaddr d.bytes) 0 = some i ∧
    (s.socks i).rxq.length < pfSockRxqCap

/-- A datagram is queued only on a socket bound to where it was sent, unless it was
sent to port 0 and finds a socket that was not bound at all. -/
theorem udp_queued_where_bound {a : SockHist} (hr : a.Reach fun _ _ => True) {now : Nat} {q : IpPkt}
    {s' : Stack} (h : udpInput a.stack now q.pkt = .ok s') :
    (∀ i, (s'.socks i).rxq ≠ (a.stack.socks i).rxq → ∃ x, a.bound i = some x ∧
      x.port = be16 q.datagram.payload 2 ∧ (x.ip = ipDaddr q.datagram.bytes ∨ x.ip = 0)) ↔
    ¬ FindsUnbound a.stack q.datagram := by
  have hrec := hr.records
  have hqueues (i : SockIdx) : (s'.socks i).rxq ≠ (a.stack.socks i).rxq ↔
      UdpAccepts q.datagram ∧ pfSockLookupUdp a.stack.host (ipDaddr q.datagram.bytes)
        (be16 q.datagram.payload 2) = some i ∧ (a.stack.socks i).rxq.length < pfSockRxqCap := by
    rw [udpInput_queues h]
    simp only [udpAct_queue_iff]
    exact ⟨fun ⟨_, hgood, hfind, hroom, _⟩ => ⟨hgood, hfind, hroom⟩,
      fun ⟨hgood, hfind, hroom⟩ => ⟨_, hgood, hfind, hroom, rfl⟩⟩
  simp only [hqueues]
  constructor
  · rintro hall ⟨hgood, hzero, i, hfind, hroom⟩
    obtain ⟨x, hx, hport, -⟩ := hall i ⟨hgood, by rw [hzero]; exact hfind, hroom⟩
    exact hrec.port i x hx (hport.trans hzero)
  · rintro hno i ⟨hgood, hfind, hroom⟩
    obtain ⟨htype, hport, hip⟩ := pfSockLookupUdp_matches hfind
    obtain ⟨hrip, hrport⟩ := hrec.udp i htype
    cases hb : a.bound i with
    | none =>
      rw [hb] at hrport
      have hzero : be16 q.datagram.payload 2 = 0 := hport.symm.trans hrport
      rw [hzero] at hfind
      exact absurd ⟨hgood, hzero, i, hfind, hroom⟩ hno
    | some x =>
      rw [hb] at hrip hrport
      refine ⟨x, rfl, hrport.symm.trans hport, ?_⟩
      rw [show x.ip = (a.stack.socks i).localIp from hrip.symm]
      exact hip

/-- A datagram of one byte from port 9000 of 10.0.0.9 to 10.0.0.1, without a checksum. -/
def lanUdpBytes (port : UInt8) : List UInt8 :=
  [0x45, 0, 0, 29, 0, 0, 0, 0, 64, 17, 0x66, 0xc7, 10, 0, 0, 9, 10, 0, 0, 1,
    0x23, 0x28, 0, port, 0, 9, 0, 0, 0x2a]

theorem lanUdp_fits (port : UInt8) :
    pktRxOffset + ethHdrLen + (lanUdpBytes port).length ≤ pktBufSize := by
  change 2 + 14 + 29 ≤ 4096
  decide

theorem lanUdp_hdr (port : UInt8) : ipv4HdrMin ≤ ipHdrLen (lanUdpBytes port) ∧
    ipHdrLen (lanUdpBytes port) ≤ (lanUdpBytes port).length := by
  have hlen : ipHdrLen (lanUdpBytes port) = 20 := by
    rw [ipHdrLen, show (lanUdpBytes port).getD 0 0 = 0x45 from rfl]
    decide
  rw [hlen]
  exact ⟨le_rfl, (by decide : 20 ≤ 29)⟩

def lanUdp (port : UInt8) : IpPkt :=
  ⟨⟨pktRxOffset + ethHdrLen, lanUdpBytes port, lanUdp_fits port⟩, (lanUdp_hdr port).1,
    (lanUdp_hdr port).2⟩

def lanHist : SockHist := ⟨lanStack, fun _ => none, []⟩

theorem lanHist_reach : lanHist.Reach fun _ _ => True :=
  .start ⟨lanStack_fresh, fun _ => rfl, rfl⟩

/-- A server on port 7 gets a datagram for its port. -/
theorem udp_queued_where_bound_server : ∃ a s',
    [.call 0 (.socket .udp), .call 0 (.bind 0 0 7)].foldlM sockHistStep lanHist = .ok a ∧
      udpInput a.stack 5 (lanUdp 7).pkt = .ok s' ∧ (s'.socks 0).rxq ≠ (a.stack.socks 0).rxq ∧
      ∃ x, a.bound 0 = some x ∧ x.port = 7 := by
  obtain ⟨a, s', ha, hs', hrx⟩ : ∃ a s',
      [.call 0 (.socket .udp), .call 0 (.bind 0 0 7)].foldlM sockHistStep lanHist = .ok a ∧
        udpInput a.stack 5 (lanUdp 7).pkt = .ok s' ∧ (s'.socks 0).rxq ≠ (a.stack.socks 0).rxq :=
    ⟨_, _, rfl, rfl, List.cons_ne_nil _ _⟩
  have hr : a.Reach fun _ _ => True :=
    Checked.Reach.foldlM lanHist_reach _ (fun _ _ _ => trivial) ha
  have hport : be16 (lanUdp 7).datagram.payload 2 = 7 := rfl
  have hno : ¬ FindsUnbound a.stack (lanUdp 7).datagram := by
    rintro ⟨-, hzero, -⟩
    cases hport.symm.trans hzero
  obtain ⟨x, hx, hxport, -⟩ := (udp_queued_where_bound hr hs').2 hno 0 hrx
  exact ⟨a, s', ha, hs', hrx, x, hx, hxport.trans hport⟩

/-- A socket that was never bound gets a datagram for port 0. -/
theorem unbound_socket_gets_datagram : ∃ a s',
    [.call 0 (.socket .udp)].foldlM sockHistStep lanHist = .ok a ∧
      udpInput a.stack 5 (lanUdp 0).pkt = .ok s' ∧ a.bound 0 = none ∧
      (a.stack.socks 0).rxq = [] ∧ (s'.socks 0).rxq = [⟨0x0a000009, 9000, [0x2a]⟩] :=
  ⟨_, _, rfl, rfl, rfl, rfl, rfl⟩

end PacketForge
