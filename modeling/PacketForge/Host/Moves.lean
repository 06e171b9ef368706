import PacketForge.Host.Entry
import PacketForge.Host.Socket
import PacketForge.Tcp.Ends

/-!
What an event can do to the two tables of a host. `Move` lists the changes with
their guards: a block processes a segment, a tick or a call, it is freed, it
goes to its listener's queue, it is accepted, it is opened, and a socket is
filled in or cleared. Every step of the host is a sequence of moves, so that an
invariant of the tables is checked against the moves and not against the code.
-/

namespace PacketForge

open Function

structure Tables where
  tcbs : TcbIdx → Tcb
  socks : SockIdx → PfSock

def Host.tables (h : Host) : Tables := ⟨h.tcbs, h.socks⟩

namespace Tables

variable (T : Tables)

def entries : TcbIdx → Entry := fun i => (T.tcbs i).entry

def setTcb (i : TcbIdx) (t : Tcb) : Tables := { T with tcbs := update T.tcbs i t }

def setSock (s : SockIdx) (x : PfSock) : Tables := { T with socks := update T.socks s x }

/-- The block in slot `j` goes when slot `i` is freed: it is the block itself,
or a child of the listener in slot `i`. -/
def Goes (i j : TcbIdx) : Prop :=
  j = i ∨ ((T.tcbs i).state = .listen ∧ (T.tcbs j).active = true ∧ (T.tcbs j).listener = some i)

instance (i j : TcbIdx) : Decidable (T.Goes i j) := inferInstanceAs (Decidable (_ ∨ _))

/-- Slot `i` is freed and its socket is told `err`. -/
def free (i : TcbIdx) (err : PfErr) : Tables where
  tcbs := fun j => if T.Goes i j then Tcb.zero else T.tcbs j
  socks := fun s =>
    if (T.tcbs i).sockIdx = some s then { T.socks s with tcb := none, err := err } else T.socks s

def letGo (s : SockIdx) (i : TcbIdx) : Tables :=
  (T.setSock s { T.socks s with tcb := none }).setTcb i { T.tcbs i with sockIdx := none }

def push (l i : TcbIdx) : Tables :=
  T.setTcb l { T.tcbs l with acceptq := (T.tcbs l).acceptq ++ [i] }

def pop (l : TcbIdx) (rest : List TcbIdx) : Tables :=
  T.setTcb l { T.tcbs l with acceptq := rest }

def attach (i : TcbIdx) (s : SockIdx) (x : PfSock) : Tables :=
  (T.setSock s x).setTcb i { T.tcbs i with sockIdx := some s, listener := none }

end Tables

/-! ### The guards of the opening calls -/

/-- The socket for which `pf_listen` reaches `tcp_open_listen`. -/
def listenSock (h : Host) (sock : Int) : Option SockIdx :=
  (tcpSockGet h sock).filter fun s => (h.socks s).localPort ≠ 0 ∧ (h.socks s).tcb = none

def listenTcb (x : PfSock) (s : SockIdx) (backlog : UInt16) : Tcb :=
  { Tcb.fresh with
    state := .listen
    sockIdx := some s
    localIp := x.localIp
    localPort := x.localPort
    backlog := min (if backlog ≠ 0 then backlog else 1) 8 }

/-- The socket, local address and local port with which `pf_connect` reaches
`tcp_open_active`. -/
def connectSource (h : Host) (sock : Int) (dstPort : UInt16) (route : Option UInt32) :
    Option (SockIdx × UInt32 × UInt16) :=
  match tcpSockGet h sock with
  | none => none
  | some s =>
    if (h.socks s).tcb ≠ none ∨ dstPort = 0 then none
    else
      match if (h.socks s).localIp = 0 then route else some (h.socks s).localIp with
      | none => none
      | some lip => if (connectPort s h).2 = 0 then none else some (s, lip, (connectPort s h).2)

def ConnEvent.isCall : ConnEvent → Bool
  | .send .. | .recv _ | .nodelay _ => true
  | _ => false

/-! ### Moves -/

inductive SegMove (h : Host) (now : Nat) (g : Seg) : Tables → Prop where
  | same : SegMove h now g h.tables
  | segment {i : TcbIdx} {d : Conn} (st : Stats)
      (hfind : tcbLookup h g.dst g.dport g.src g.sport = some i)
      (hst : (h.tcbs i).state ≠ .listen)
      (hd : d = tcpInputConn now (acceptRoom h i) g (Conn.start (h.tcbs i) st))
      (halive : d.fate = .alive) (hqueued : d.queued = false)
      (hstats : st = (h.count .tcpRxSegs).stats) : SegMove h now g (h.tables.setTcb i d.tcb)
  | queue {i l : TcbIdx} {d : Conn} (st : Stats)
      (hfind : tcbLookup h g.dst g.dport g.src g.sport = some i)
      (hst : (h.tcbs i).state ≠ .listen) (hlistener : (h.tcbs i).listener = some l)
      (hroom : (h.tcbs l).acceptq.length < (h.tcbs l).backlog.toNat)
      (hd : d = tcpInputConn now (some true) g (Conn.start (h.tcbs i) st))
      (halive : d.fate = .alive) (hqueued : d.queued = true) :
      SegMove h now g ((h.tables.setTcb i d.tcb).push l i)
  | segmentEnd {i : TcbIdx} {d : Conn} (st : Stats) (err : PfErr)
      (hfind : tcbLookup h g.dst g.dport g.src g.sport = some i)
      (hst : (h.tcbs i).state ≠ .listen)
      (hd : d = tcpInputConn now (acceptRoom h i) g (Conn.start (h.tcbs i) st))
      (hfate : d.fate = .freed err) : SegMove h now g (h.tables.free i err)
  | passive {l i : TcbIdx} (iss : UInt32) (st : Stats)
      (hfind : tcbLookup h g.dst g.dport g.src g.sport = some l)
      (hst : (h.tcbs l).state = .listen)
      (hroom : (h.tcbs l).acceptq.length < (h.tcbs l).backlog.toNat)
      (hidle : (h.tcbs i).active = false) :
      SegMove h now g
        (h.tables.setTcb i (tcpOpenPassiveConn now l (h.tcbs l).localPort iss g st).tcb)

inductive TickMove (now : Nat) (T : Tables) : Tables → Prop where
  | tick {i : TcbIdx} {d : Conn} (st : Stats) (hact : (T.tcbs i).active = true)
      (hd : d = tcpTickConn now (Conn.start (T.tcbs i) st)) (halive : d.fate = .alive) :
      TickMove now T (T.setTcb i d.tcb)
  | tickEnd {i : TcbIdx} {d : Conn} (st : Stats) (err : PfErr) (hact : (T.tcbs i).active = true)
      (hd : d = tcpTickConn now (Conn.start (T.tcbs i) st)) (hfate : d.fate = .freed err) :
      TickMove now T (T.free i err)

/-- What event `e`, taken by the host `h`, can do to the tables. -/
inductive Move (h : Host) : HostEvent → Tables → Tables → Prop where
  | segment {now : Nat} {g : Seg} {T : Tables} (hT : SegMove h now g T) :
      Move h (.segment now g) h.tables T
  | tick {now : Nat} {T T' : Tables} (hT : TickMove now T T') : Move h (.tick now) T T'
  | listen {now : Nat} {sock : Int} {backlog : UInt16} {s : SockIdx} {i : TcbIdx}
      (hsock : listenSock h sock = some s) (hidle : (h.tcbs i).active = false) :
      Move h (.call now (.listen sock backlog)) h.tables
        ((h.tables.setTcb i (listenTcb (h.socks s) s backlog)).setSock s
          { h.socks s with tcb := some i })
  | connect {now : Nat} {sock : Int} {rip lip : UInt32} {rport lport : UInt16}
      {route : Option UInt32} {s : SockIdx} {i : TcbIdx} {x : PfSock} (iss : UInt32) (st : Stats)
      (hsource : connectSource h sock rport route = some (s, lip, lport))
      (hidle : (h.tcbs i).active = false) (hx : x.tcb = some i) :
      Move h (.call now (.connect sock rip rport route)) h.tables
        ((h.tables.setTcb i (tcpOpenActiveConn now (some s) lip lport rip rport iss st).tcb).setSock
          s x)
  | use {e : HostEvent} {T : Tables} {s : SockIdx} {i : TcbIdx} {v : ConnEvent} {d : Conn}
      (st : Stats) (hsock : (T.socks s).tcb = some i) (hv : v.isCall = true)
      (hd : d = connHandle (Conn.start (T.tcbs i) st) v) : Move h e T (T.setTcb i d.tcb)
  | abort {e : HostEvent} {T : Tables} {s : SockIdx} {i : TcbIdx}
      (hsock : (T.socks s).tcb = some i) : Move h e T (T.free i .none)
  | close {now : Nat} {sock : Int} {s : SockIdx} {i : TcbIdx} {d : Conn}
      (hget : pfSockGet h sock = some s) (hsock : (h.socks s).tcb = some i)
      (hd : d = tcpAppClose now (Conn.start ((h.tables.letGo s i).tcbs i) h.stats))
      (halive : d.fate = .alive) :
      Move h (.call now (.close sock)) h.tables ((h.tables.letGo s i).setTcb i d.tcb)
  | closeEnd {now : Nat} {sock : Int} {s : SockIdx} {i : TcbIdx}
      (hget : pfSockGet h sock = some s) (hsock : (h.socks s).tcb = some i)
      (hst : (h.tcbs i).state = .listen ∨ (h.tcbs i).state = .synSent) :
      Move h (.call now (.close sock)) h.tables ((h.tables.letGo s i).free i .none)
  | accept {e : HostEvent} {T : Tables} {l child : TcbIdx} {rest : List TcbIdx} {s : SockIdx}
      {x : PfSock} (hq : (T.tcbs l).acceptq = child :: rest) (hfree : (T.socks s).type = .none)
      (hx : x.tcb = some child) : Move h e T ((T.pop l rest).attach child s x)
  | acceptDrop {e : HostEvent} {T : Tables} {l child : TcbIdx} {rest : List TcbIdx}
      (hq : (T.tcbs l).acceptq = child :: rest) : Move h e T ((T.pop l rest).free child .none)
  | sock {e : HostEvent} {T : Tables} {s : SockIdx} {x : PfSock}
      (hx : x.tcb = none ∨ x.tcb = (T.socks s).tcb) : Move h e T (T.setSock s x)

abbrev Moves (h : Host) (e : HostEvent) : Tables → Tables → Prop :=
  Relation.ReflTransGen (Move h e)

/-! ### Listeners and their children -/

/-- A child in use has a listener in use, no child has a socket or is itself a
listener, and a listener's queue fits its backlog. -/
structure ListenersOk (E : TcbIdx → Entry) : Prop where
  listener : ∀ i l, (E i).active = true → (E i).listener = some l →
    (E l).active = true ∧ (E l).listening = true
  child : ∀ i, (E i).listener ≠ none → (E i).sockIdx = none ∧ (E i).listening = false
  queue : ∀ l, (E l).active = true → (E l).listening = true →
    (E l).acceptq.length ≤ (E l).backlog.toNat ∧ (E l).backlog.toNat ≤ tcpAcceptQlen

/-! ### Freeing a block -/

section Free

variable {h : Host} {i : TcbIdx}

theorem tcbDetachSock_tables (h : Host) (i : TcbIdx) (err : PfErr) :
    (tcbDetachSock h i err).tables =
      { tcbs := update h.tcbs i { h.tcbs i with sockIdx := none }
        socks := fun s =>
          if (h.tcbs i).sockIdx = some s then { h.socks s with tcb := none, err := err }
          else h.socks s } := by
  unfold tcbDetachSock
  cases hs : (h.tcbs i).sockIdx with
  | none =>
    have hsame (t : Tcb) (ht : t.sockIdx = none) : { t with sockIdx := none } = t := by
      cases t
      cases ht
      rfl
    simp only [reduceCtorEq, if_false]
    rw [hsame _ hs, update_eq_self]
    rfl
  | some s =>
    simp only [Host.tables, Host.setTcb, Host.setSock, Option.some.injEq]
    congr 1
    funext s'
    by_cases hss : s = s'
    · subst hss
      rw [update_self, if_pos rfl]
    · rw [update_of_ne (Ne.symm hss), if_neg hss]

theorem tcbClear_tables (h : Host) (i : TcbIdx) : (tcbClear h i).tables =
    { tcbs := update h.tcbs i Tcb.zero
      socks := fun s =>
        if (h.tcbs i).sockIdx = some s then { h.socks s with tcb := none, err := .none }
        else h.socks s } := by
  have hset : (tcbClear h i).tables = (tcbDetachSock h i .none).tables.setTcb i Tcb.zero := rfl
  rw [hset, tcbDetachSock_tables, Tables.setTcb, update_idem]

theorem tcbFreeRec_leaf (depth : Nat) (hst : (h.tcbs i).state ≠ .listen) :
    tcbFreeRec depth h i = tcbClear h i := by
  cases depth with
  | zero => rfl
  | succ depth =>
    unfold tcbFreeRec
    rw [if_neg hst]

def freeChild (depth : Nat) (i : TcbIdx) (h : Host) (c : TcbIdx) : Host :=
  if isChild h i c then
    tcbFreeRec depth (h.store c (tcpSendCtl (h.conn c) (tcpRst ||| tcpAck))) c
  else h

/-- A child is cleared; it has no socket that would notice. -/
theorem freeChild_tables (depth : Nat) (c : TcbIdx)
    (hchild : isChild h i c = true → (h.tcbs c).sockIdx = none ∧ (h.tcbs c).state ≠ .listen) :
    (freeChild depth i h c).tables =
      if isChild h i c then h.tables.setTcb c Tcb.zero else h.tables := by
  unfold freeChild
  split
  · rename_i hc
    obtain ⟨hsock, hst⟩ := hchild hc
    have hentry : (tcpSendCtl (h.conn c) (tcpRst ||| tcpAck)).tcb.entry = (h.tcbs c).entry :=
      tcpSendCtl_entry _ _
    have hat : (h.store c (tcpSendCtl (h.conn c) (tcpRst ||| tcpAck))).tcbs c =
        (tcpSendCtl (h.conn c) (tcpRst ||| tcpAck)).tcb := update_self _ _ _
    generalize tcpSendCtl (h.conn c) (tcpRst ||| tcpAck) = d at hentry hat ⊢
    have hleaf : ((h.store c d).tcbs c).state ≠ .listen := by
      rw [hat, Ne, Tcb.listen_of_entry hentry]
      exact hst
    have hnone : d.tcb.sockIdx = none := (Tcb.sockIdx_of_entry hentry).trans hsock
    rw [tcbFreeRec_leaf _ hleaf, tcbClear_tables, hat]
    simp only [hnone, reduceCtorEq, if_false]
    simp only [Host.store, Host.setTcb, update_idem]
    rfl
  · rfl

/-- All children of a listener are cleared, and nothing else is touched. -/
theorem freeChildren_tables (depth : Nat)
    (hchild : ∀ c, isChild h i c = true → (h.tcbs c).sockIdx = none ∧ (h.tcbs c).state ≠ .listen) :
    (Slots.each (freeChild depth i) h).socks = h.socks ∧
      ∀ j, (Slots.each (freeChild depth i) h).tcbs j =
        if isChild h i j then Tcb.zero else h.tcbs j := by
  -- along the loop a block is as it was, or a child that has been cleared
  let P (k : Host) : Prop := k.socks = h.socks ∧
    ∀ j, k.tcbs j = h.tcbs j ∨ (isChild h i j = true ∧ k.tcbs j = Tcb.zero)
  let Q (j : TcbIdx) (k : Host) : Prop := isChild h i j = true → k.tcbs j = Tcb.zero
  have hsame (k : Host) (hk : P k) (c : TcbIdx) (hc : isChild k i c = true) :
      k.tcbs c = h.tcbs c ∧ isChild h i c = true := by
    rcases hk.2 c with heq | ⟨hch, hz⟩
    · refine ⟨heq, ?_⟩
      unfold isChild at hc ⊢
      rwa [heq] at hc
    · unfold isChild at hc
      rw [hz] at hc
      cases hc
  have htables (k : Host) (hk : P k) (c : TcbIdx) : (freeChild depth i k c).tables =
      if isChild k i c then k.tables.setTcb c Tcb.zero else k.tables := by
    apply freeChild_tables
    intro hc
    obtain ⟨heq, hch⟩ := hsame k hk c hc
    rw [heq]
    exact hchild c hch
  have hstep (k : Host) (c : TcbIdx) (hk : P k) : P (freeChild depth i k c) := by
    have ht := htables k hk c
    split at ht
    · rename_i hc
      have htcbs : (freeChild depth i k c).tcbs = update k.tcbs c Tcb.zero :=
        congrArg Tables.tcbs ht
      refine ⟨(congrArg Tables.socks ht).trans hk.1, ?_⟩
      intro j
      rw [htcbs, update_apply]
      split
      · rename_i hjc
        exact Or.inr ⟨hjc ▸ (hsame k hk c hc).2, rfl⟩
      · exact hk.2 j
    · refine ⟨(congrArg Tables.socks ht).trans hk.1, ?_⟩
      intro j
      rw [show (freeChild depth i k c).tcbs = k.tcbs from congrArg Tables.tcbs ht]
      exact hk.2 j
  have hvisit (k : Host) (c : TcbIdx) (hk : P k) : Q c (freeChild depth i k c) := by
    intro hch
    have ht := congrArg Tables.tcbs (htables k hk c)
    change (freeChild depth i k c).tcbs = _ at ht
    rw [ht]
    split
    · exact update_self _ _ _
    · rename_i hc
      rcases hk.2 c with heq | ⟨-, hz⟩
      · refine absurd ?_ hc
        unfold isChild at hch ⊢
        rwa [heq]
      · exact hz
  have hkeep (k : Host) (c j : TcbIdx) (hk : P k) (hq : Q c k) : Q c (freeChild depth i k j) := by
    intro hch
    have ht := congrArg Tables.tcbs (htables k hk j)
    change (freeChild depth i k j).tcbs = _ at ht
    rw [ht]
    split
    · change update k.tcbs j Tcb.zero c = _
      rw [update_apply]
      split
      · rfl
      · exact hq hch
    · exact hq hch
  have hstart : P h := ⟨rfl, fun j => Or.inl rfl⟩
  have hend : P (Slots.each (freeChild depth i) h) := Slots.each_invariant hstep hstart
  refine ⟨hend.1, ?_⟩
  intro j
  split
  · rename_i hch
    exact Slots.each_all hstep hvisit hkeep hstart j hch
  · rename_i hch
    rcases hend.2 j with heq | ⟨hc, -⟩
    · exact heq
    · exact absurd hc hch

theorem isChild_iff (h : Host) (i c : TcbIdx) : isChild h i c = true ↔
    (h.tcbs c).active = true ∧ c ≠ i ∧ (h.tcbs c).listener = some i := by
  simp [isChild, and_assoc]

theorem tcbFree_tables (ok : ListenersOk h.tables.entries) :
    (tcbFree h i).tables = h.tables.free i .none := by
  have hchild (c : TcbIdx) (hc : isChild h i c = true) :
      (h.tcbs c).sockIdx = none ∧ (h.tcbs c).state ≠ .listen := by
    have hlis : (h.tables.entries c).listener ≠ none := by
      change (h.tcbs c).listener ≠ none
      rw [((isChild_iff h i c).mp hc).2.2]
      exact Option.some_ne_none i
    obtain ⟨hsock, hst⟩ := ok.child c hlis
    refine ⟨hsock, ?_⟩
    rw [Ne, ← Tcb.entry_listening, Bool.not_eq_true]
    exact hst
  by_cases hst : (h.tcbs i).state = .listen
  · have hrun : tcbFree h i = tcbClear (Slots.each (freeChild 15 i) h) i := by
      change tcbFreeRec (15 + 1) h i = _
      unfold tcbFreeRec
      rw [if_pos hst]
      rfl
    obtain ⟨hsocks, htcbs⟩ := freeChildren_tables 15 hchild
    have hi : (Slots.each (freeChild 15 i) h).tcbs i = h.tcbs i := by
      rw [htcbs, if_neg]
      rw [isChild_iff]
      exact fun hc => hc.2.1 rfl
    rw [hrun, tcbClear_tables, hi, hsocks]
    unfold Tables.free
    congr 1
    funext j
    rw [update_apply, htcbs]
    by_cases hji : j = i
    · rw [if_pos hji, if_pos (show h.tables.Goes i j from Or.inl hji)]
    · rw [if_neg hji]
      by_cases hc : isChild h i j = true
      · have hc' := (isChild_iff h i j).mp hc
        rw [if_pos hc, if_pos (show h.tables.Goes i j from Or.inr ⟨hst, hc'.1, hc'.2.2⟩)]
      · rw [if_neg hc, if_neg]
        · rfl
        · rintro (heq | ⟨-, hact, hlis⟩)
          · exact hji heq
          · exact hc ((isChild_iff h i j).mpr ⟨hact, hji, hlis⟩)
  · rw [tcbFree, tcbFreeRec_leaf _ hst, tcbClear_tables]
    unfold Tables.free
    congr 1
    funext j
    rw [update_apply]
    by_cases hji : j = i
    · rw [if_pos hji, if_pos (show h.tables.Goes i j from Or.inl hji)]
    · rw [if_neg hji, if_neg]
      · rfl
      · rintro (heq | ⟨hl, -⟩)
        · exact hji heq
        · exact hst hl

end Free

end PacketForge
