import PacketForge.Host.Steps

/-!
What a segment leaves alone. A function of the connection level is committed to
its own slot; outside of it only the listener's accept queue and the socket of
the block can change. So a segment touches the block that `tcb_lookup` returns
and what belongs to it, whatever the tables look like.
-/

namespace PacketForge

open Function

/-- Nothing but slot `i`, the accept queue of its listener and its socket differs. -/
structure Confined (i : TcbIdx) (h k : Host) : Prop where
  tcbs : ∀ j, j ≠ i → k.tcbs j = h.tcbs j ∨ (h.tcbs i).listener = some j ∧
    k.tcbs j = { h.tcbs j with acceptq := (h.tcbs j).acceptq ++ [i] }
  socks : ∀ s, (h.tcbs i).sockIdx ≠ some s → k.socks s = h.socks s

section Confined

variable {h k : Host} {i : TcbIdx} {c : Conn}

theorem tcbDetachSock_tcbs (k : Host) (i : TcbIdx) (err : PfErr) : (tcbDetachSock k i err).tcbs =
    update k.tcbs i { k.tcbs i with sockIdx := none } :=
  congrArg Tables.tcbs (tcbDetachSock_tables k i err)

theorem tcbDetachSock_self (k : Host) (i : TcbIdx) (err : PfErr) :
    (tcbDetachSock k i err).tcbs i = { k.tcbs i with sockIdx := none } := by
  rw [tcbDetachSock_tcbs, update_self]

theorem tcbDetachSock_socks (err : PfErr) {s : SockIdx} (hs : (k.tcbs i).sockIdx ≠ some s) :
    (tcbDetachSock k i err).socks s = k.socks s := by
  have hat : (tcbDetachSock k i err).socks s = if (k.tcbs i).sockIdx = some s then
      { k.socks s with tcb := none, err := err } else k.socks s :=
    congrFun (congrArg Tables.socks (tcbDetachSock_tables k i err)) s
  rw [hat, if_neg hs]

theorem Confined.detach (hc : Confined i h k) (hsock : (k.tcbs i).sockIdx = (h.tcbs i).sockIdx)
    (err : PfErr) : Confined i h (tcbDetachSock k i err) := by
  constructor
  · intro j hj
    rw [tcbDetachSock_tcbs, update_of_ne hj]
    exact hc.tcbs j hj
  · intro s hs
    rw [tcbDetachSock_socks err (hsock ▸ hs)]
    exact hc.socks s hs

theorem Confined.clear (hc : Confined i h k) (hsock : (k.tcbs i).sockIdx = none) :
    Confined i h (tcbClear k i) := by
  have hdetach : tcbDetachSock k i .none = k := by
    unfold tcbDetachSock
    rw [hsock]
  have hclear : tcbClear k i = k.setTcb i Tcb.zero := by rw [tcbClear, hdetach]
  rw [hclear]
  constructor
  · intro j hj
    have hsame : (k.setTcb i Tcb.zero).tcbs j = k.tcbs j := update_of_ne hj _ _
    rw [hsame]
    exact hc.tcbs j hj
  · exact hc.socks

theorem Host.commit_confined (hentry : c.tcb.entry = (h.tcbs i).entry)
    (hst : (h.tcbs i).state ≠ .listen) : Confined i h (h.commit i c) := by
  have hlistener : c.tcb.listener = (h.tcbs i).listener := congrArg Entry.listener hentry
  have hsockIdx : c.tcb.sockIdx = (h.tcbs i).sockIdx := congrArg Entry.sockIdx hentry
  have hstored : (h.store i c).tcbs i = c.tcb := update_self _ _ _
  have hother (j : TcbIdx) (hj : j ≠ i) : (h.store i c).tcbs j = h.tcbs j :=
    update_of_ne hj _ _
  have hstore : Confined i h (h.store i c) := ⟨fun j hj => Or.inl (hother j hj), fun _ _ => rfl⟩
  -- the slot itself may be its own listener; then only its queue differs
  have hqueue : Confined i h ((h.store i c).enqueue i c) ∧
      (((h.store i c).enqueue i c).tcbs i).entry.sockIdx = (h.tcbs i).sockIdx ∧
      (((h.store i c).enqueue i c).tcbs i).entry.listening = (h.tcbs i).entry.listening := by
    unfold Host.enqueue
    split
    · rename_i l hq hl
      have hat (j : TcbIdx) : (acceptqPush (h.store i c) l i).tcbs j =
          if j = l then
            { (h.store i c).tcbs l with acceptq := ((h.store i c).tcbs l).acceptq ++ [i] }
          else (h.store i c).tcbs j := update_apply _ _ _ _
      refine ⟨⟨fun j hj => ?_, fun _ _ => rfl⟩, ?_, ?_⟩
      · rw [hat]
        split
        · rename_i hjl
          rw [← hjl, hother j hj]
          exact Or.inr ⟨by rw [← hlistener, hl, hjl], rfl⟩
        · exact Or.inl (hother j hj)
      · rw [hat]
        split
        · rename_i hil
          rw [← hil, hstored]
          exact hsockIdx
        · rw [hstored]
          exact hsockIdx
      · rw [hat, ← hentry]
        split
        · rename_i hil
          rw [← hil, hstored]
          rfl
        · rw [hstored]
    · rw [hstored]
      exact ⟨hstore, hsockIdx, congrArg Entry.listening hentry⟩
  obtain ⟨hconf, hsock, hlisten⟩ := hqueue
  unfold Host.commit
  simp only
  generalize (h.store i c).enqueue i c = k at hconf hsock hlisten
  split
  · exact hconf
  · rename_i err _
    have hself := tcbDetachSock_self k i err
    have hleaf : ((tcbDetachSock k i err).tcbs i).state ≠ .listen := by
      rw [hself]
      intro hk
      have hk : (k.tcbs i).state = .listen := hk
      rw [← Tcb.entry_listening, hlisten, Tcb.entry_listening] at hk
      exact hst hk
    rw [tcbFree, tcbFreeRec_leaf _ hleaf]
    exact (hconf.detach hsock err).clear (by rw [hself])

end Confined

/-! ### Segments -/

/-- What may differ after a segment: the block it is for, the accept queue of that
block's listener, one slot that was not in use, and the owner of the block. -/
structure SegmentFrame (h : Host) (g : Seg) (k : Host) : Prop where
  tcbs : ∃ child : Option TcbIdx, (∀ c, child = some c → (h.tcbs c).active = false) ∧
    ∀ j, tcbLookup h g.dst g.dport g.src g.sport ≠ some j → child ≠ some j →
      k.tcbs j = h.tcbs j ∨ ∃ i, tcbLookup h g.dst g.dport g.src g.sport = some i ∧
        (h.tcbs i).listener = some j ∧
        k.tcbs j = { h.tcbs j with acceptq := (h.tcbs j).acceptq ++ [i] }
  socks : ∀ s, (∀ i, tcbLookup h g.dst g.dport g.src g.sport = some i →
    (h.tcbs i).sockIdx ≠ some s) → k.socks s = h.socks s

section Segment

variable {h k : Host} {g : Seg}

theorem SegmentFrame.of_tables (hk : k.tables = h.tables) : SegmentFrame h g k := by
  have htcbs : k.tcbs = h.tcbs := congrArg Tables.tcbs hk
  have hsocks : k.socks = h.socks := congrArg Tables.socks hk
  refine ⟨⟨none, fun c hc => ?_, fun j _ _ => Or.inl (by rw [htcbs])⟩, fun s _ => by rw [hsocks]⟩
  cases hc

theorem SegmentFrame.of_confined {i : TcbIdx}
    (hfind : tcbLookup h g.dst g.dport g.src g.sport = some i) (hc : Confined i h k) :
    SegmentFrame h g k := by
  refine ⟨⟨none, fun c hc => ?_, fun j hj _ => ?_⟩, fun s hs => hc.socks s (hs i hfind)⟩
  · cases hc
  · have hji : j ≠ i := fun heq => hj (by rw [hfind, heq])
    rcases hc.tcbs j hji with hsame | ⟨hl, hq⟩
    · exact Or.inl hsame
    · exact Or.inr ⟨i, hfind, hl, hq⟩

theorem tcpInputListen_frame (now : Nat) (i : TcbIdx) (hk : k.tables = h.tables) :
    SegmentFrame h g (tcpInputListen now g i k) := by
  have htcbs : k.tcbs = h.tcbs := congrArg Tables.tcbs hk
  have hsocks : k.socks = h.socks := congrArg Tables.socks hk
  unfold tcpInputListen
  split
  · exact .of_tables hk
  split
  · exact .of_tables ((sendResetFor_tables k g).trans hk)
  split
  · exact .of_tables hk
  split
  · exact .of_tables hk
  split
  · exact .of_tables hk
  · rename_i c hc
    refine ⟨⟨some c, fun j hj => ?_, fun j _ hj => Or.inl ?_⟩, fun s _ => ?_⟩
    · cases hj
      rw [← htcbs]
      exact tcbAlloc_some hc
    · have hjc : j ≠ c := fun heq => hj (by rw [heq])
      have hset : update k.tcbs c
          (tcpOpenPassiveConn now i (k.tcbs i).localPort (tcpGenIss now k) g k.stats).tcb j =
            k.tcbs j := update_of_ne hjc _ _
      rw [← htcbs]
      exact hset
    · change k.socks s = h.socks s
      rw [hsocks]

theorem tcpInput_frame (now : Nat) (g : Seg) (h : Host) : SegmentFrame h g (tcpInput now g h) := by
  have hcount : (h.count .tcpRxSegs).tables = h.tables := rfl
  have hcounted : (h.count .tcpRxSegs).tcbs = h.tcbs := rfl
  have hrun (k : Host) (i : TcbIdx) (hst : (k.tcbs i).state ≠ .listen) :
      Confined i k (k.run i (tcpInputConn now (acceptRoom k i) g)) :=
    Host.commit_confined (tcpInputConn_entry now (acceptRoom k i) g (k.conn i)) hst
  unfold tcpInput
  simp only
  rw [tcbLookup_tcbs hcounted]
  cases hfind : tcbLookup h g.dst g.dport g.src g.sport with
  | none => exact .of_tables (sendResetFor_tables _ g)
  | some i =>
    simp only
    split
    · exact tcpInputListen_frame now i hcount
    · rename_i hst
      have hconf := hrun (h.count .tcpRxSegs) i hst
      exact .of_confined hfind ⟨hconf.tcbs, hconf.socks⟩

end Segment

end PacketForge
