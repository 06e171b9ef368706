import PacketForge.Host.Moves

/-!
Listeners and their children. The moves keep every child's listener in place
and every queue within its backlog; and every step of the host is a sequence of
moves. When a listening socket is closed, all its children go with it.
-/

namespace PacketForge

open Function (update_self update_of_ne)

/-! ### Entries under a change of one block -/

theorem Tables.entries_setTcb (T : Tables) (i : TcbIdx) (t : Tcb) :
    (T.setTcb i t).entries = Function.update T.entries i t.entry := by
  funext j
  change (Function.update T.tcbs i t j).entry = _
  rw [Function.update_apply, Function.update_apply]
  split <;> rfl

theorem Tables.entries_same {T : Tables} {i : TcbIdx} {t : Tcb} (h : t.entry = (T.tcbs i).entry) :
    (T.setTcb i t).entries = T.entries := by
  rw [Tables.entries_setTcb, h]
  exact Function.update_eq_self i T.entries

theorem Tables.entries_setSock (T : Tables) (s : SockIdx) (x : PfSock) :
    (T.setSock s x).entries = T.entries := rfl

namespace ListenersOk

variable {E : TcbIdx → Entry} {i : TcbIdx} {x : Entry}

/-- A block in use or not changes its socket, gives up its listener, or changes
its queue. -/
theorem update (ok : ListenersOk E) (hactive : x.active = (E i).active)
    (hlistening : x.listening = (E i).listening)
    (hlistener : x.listener = none ∨ (x.listener = (E i).listener ∧ x.sockIdx = none))
    (hqueue : x.active = true → x.listening = true →
      x.acceptq.length ≤ x.backlog.toNat ∧ x.backlog.toNat ≤ tcpAcceptQlen) :
    ListenersOk (Function.update E i x) := by
  have hsame (j : TcbIdx) : (Function.update E i x j).active = (E j).active ∧
      (Function.update E i x j).listening = (E j).listening := by
    by_cases hji : j = i
    · subst hji
      rw [update_self]
      exact ⟨hactive, hlistening⟩
    · rw [update_of_ne hji]
      exact ⟨rfl, rfl⟩
  refine ⟨?_, ?_, ?_⟩
  · intro j l hact hl
    rw [(hsame j).1] at hact
    rw [(hsame l).1, (hsame l).2]
    refine ok.listener j l hact ?_
    by_cases hji : j = i
    · subst hji
      rw [update_self] at hl
      rcases hlistener with hnone | ⟨heq, -⟩
      · rw [hnone] at hl
        cases hl
      · exact heq ▸ hl
    · rwa [update_of_ne hji] at hl
  · intro j hj
    rw [(hsame j).2]
    by_cases hji : j = i
    · subst hji
      rw [update_self] at hj ⊢
      rcases hlistener with hnone | ⟨heq, hsock⟩
      · exact absurd hnone hj
      · exact ⟨hsock, (ok.child j (heq ▸ hj)).2⟩
    · rw [update_of_ne hji] at hj ⊢
      exact ok.child j hj
  · intro l hact hl
    by_cases hli : l = i
    · subst hli
      rw [update_self] at hact hl ⊢
      exact hqueue hact hl
    · rw [update_of_ne hli] at hact hl ⊢
      exact ok.queue l hact hl

/-- A free slot is filled. No child had it as its listener. -/
theorem opened (ok : ListenersOk E) (hidle : (E i).active = false)
    (hlistener : ∀ l, x.listener = some l →
      (E l).active = true ∧ (E l).listening = true ∧ x.sockIdx = none ∧ x.listening = false)
    (hqueue : x.listening = true →
      x.acceptq.length ≤ x.backlog.toNat ∧ x.backlog.toNat ≤ tcpAcceptQlen) :
    ListenersOk (Function.update E i x) := by
  have hother {l : TcbIdx} (hact : (E l).active = true) : Function.update E i x l = E l := by
    refine update_of_ne ?_ _ _
    rintro rfl
    rw [hidle] at hact
    cases hact
  refine ⟨?_, ?_, ?_⟩
  · intro j l hact hl
    by_cases hji : j = i
    · subst hji
      rw [update_self] at hl
      obtain ⟨hlact, hll, -⟩ := hlistener l hl
      rw [hother hlact]
      exact ⟨hlact, hll⟩
    · rw [update_of_ne hji] at hact hl
      obtain ⟨hlact, hll⟩ := ok.listener j l hact hl
      rw [hother hlact]
      exact ⟨hlact, hll⟩
  · intro j hj
    by_cases hji : j = i
    · subst hji
      rw [update_self] at hj ⊢
      obtain ⟨l, hl⟩ := Option.ne_none_iff_exists'.mp hj
      exact (hlistener l hl).2.2
    · rw [update_of_ne hji] at hj ⊢
      exact ok.child j hj
  · intro l hact hl
    by_cases hli : l = i
    · subst hli
      rw [update_self] at hl ⊢
      exact hqueue hl
    · rw [update_of_ne hli] at hact hl ⊢
      exact ok.queue l hact hl

end ListenersOk

theorem ListenersOk.free {T : Tables} (ok : ListenersOk T.entries) (i : TcbIdx) (err : PfErr) :
    ListenersOk (T.free i err).entries := by
  have hat (j : TcbIdx) : (T.free i err).entries j =
      if T.Goes i j then Tcb.zero.entry else T.entries j := by
    unfold Tables.entries Tables.free
    simp only
    split <;> rfl
  have hstays {j : TcbIdx} (hact : ((T.free i err).entries j).active = true) : ¬ T.Goes i j := by
    intro hgoes
    rw [hat, if_pos hgoes] at hact
    cases hact
  refine ⟨?_, ?_, ?_⟩
  · intro j l hact hl
    have hj := hstays hact
    rw [hat, if_neg hj] at hact hl
    obtain ⟨hlact, hll⟩ := ok.listener j l hact hl
    have hlstays : ¬ T.Goes i l := by
      rintro (rfl | ⟨-, -, hlis⟩)
      · exact hj (Or.inr ⟨(Tcb.entry_listening _).mp hll, hact, hl⟩)
      · -- a child is not a listener
        have hne : (T.entries l).listener ≠ none := by
          change (T.tcbs l).listener ≠ none
          rw [hlis]
          exact Option.some_ne_none i
        have hno := (ok.child l hne).2
        rw [hll] at hno
        cases hno
    rw [hat, if_neg hlstays]
    exact ⟨hlact, hll⟩
  · intro j hj
    rw [hat] at hj ⊢
    split at hj
    · exact absurd rfl hj
    · rename_i hno
      rw [if_neg hno]
      exact ok.child j hj
  · intro l hact hl
    have hls := hstays hact
    rw [hat, if_neg hls] at hact hl ⊢
    exact ok.queue l hact hl

/-! ### Looking up a block -/

/-- What the search finds: a block in use that is a listener for the address
and port, or has the four-tuple. -/
theorem tcbLookupLoop_some {h : Host} {lip rip : UInt32} {lport rport : UInt16} {l : List TcbIdx}
    {listener : Option TcbIdx} {i : TcbIdx}
    (hlis : ∀ j, listener = some j → (h.tcbs j).active = true ∧ (h.tcbs j).state = .listen ∧
      (h.tcbs j).listensOn lip lport = true)
    (hfind : tcbLookupLoop h lip lport rip rport l listener = some i) :
    (h.tcbs i).active = true ∧
      (((h.tcbs i).state = .listen ∧ (h.tcbs i).listensOn lip lport = true ∧
          ∀ j ∈ l, (h.tcbs j).active = true → (h.tcbs j).state ≠ .listen →
            (h.tcbs j).connects lip lport rip rport = false) ∨
        ((h.tcbs i).state ≠ .listen ∧ (h.tcbs i).connects lip lport rip rport = true)) := by
  induction l generalizing listener with
  | nil =>
    obtain ⟨hact, hst, hon⟩ := hlis i hfind
    exact ⟨hact, Or.inl ⟨hst, hon, fun j hj => absurd hj List.not_mem_nil⟩⟩
  | cons k l ih =>
    -- a slot that is passed over has no exact match
    have hmore {o : Option TcbIdx} (hpass : (h.tcbs k).active = true → (h.tcbs k).state ≠ .listen →
          (h.tcbs k).connects lip lport rip rport = false)
        (ho : ∀ j, o = some j → (h.tcbs j).active = true ∧ (h.tcbs j).state = .listen ∧
          (h.tcbs j).listensOn lip lport = true)
        (hrest : tcbLookupLoop h lip lport rip rport l o = some i) :
        (h.tcbs i).active = true ∧
          (((h.tcbs i).state = .listen ∧ (h.tcbs i).listensOn lip lport = true ∧
              ∀ j ∈ k :: l, (h.tcbs j).active = true → (h.tcbs j).state ≠ .listen →
                (h.tcbs j).connects lip lport rip rport = false) ∨
            ((h.tcbs i).state ≠ .listen ∧ (h.tcbs i).connects lip lport rip rport = true)) := by
      obtain ⟨hact, hcase⟩ := ih ho hrest
      refine ⟨hact, ?_⟩
      rcases hcase with ⟨hst, hon, hno⟩ | hexact
      · refine Or.inl ⟨hst, hon, ?_⟩
        intro j hj
        rcases List.mem_cons.mp hj with rfl | hj
        · exact hpass
        · exact hno j hj
      · exact Or.inr hexact
    unfold tcbLookupLoop at hfind
    simp only at hfind
    split at hfind
    · rename_i hidle
      refine hmore (fun hact => ?_) hlis hfind
      rw [hact] at hidle
      cases hidle
    rename_i hact
    have hact : (h.tcbs k).active = true := by simpa using hact
    split at hfind
    · rename_i hst
      refine hmore (fun _ hne => absurd hst hne) ?_ hfind
      intro j hj
      split at hj
      · rename_i hon
        cases hj
        exact ⟨hact, hst, hon⟩
      · exact hlis j hj
    rename_i hst
    split at hfind
    · rename_i hconn
      cases hfind
      exact ⟨hact, Or.inr ⟨hst, hconn⟩⟩
    · rename_i hconn
      exact hmore (fun _ _ => by simpa using hconn) hlis hfind

theorem tcbLookup_some {h : Host} {lip rip : UInt32} {lport rport : UInt16} {i : TcbIdx}
    (hfind : tcbLookup h lip lport rip rport = some i) :
    (h.tcbs i).active = true ∧
      (((h.tcbs i).state = .listen ∧ (h.tcbs i).listensOn lip lport = true ∧
          ∀ j, (h.tcbs j).active = true → (h.tcbs j).state ≠ .listen →
            (h.tcbs j).connects lip lport rip rport = false) ∨
        ((h.tcbs i).state ≠ .listen ∧ (h.tcbs i).connects lip lport rip rport = true)) := by
  obtain ⟨hact, hcase⟩ := tcbLookupLoop_some (fun j hj => by cases hj) hfind
  refine ⟨hact, ?_⟩
  rcases hcase with ⟨hst, hon, hno⟩ | hexact
  · exact Or.inl ⟨hst, hon, fun j => hno j (List.mem_finRange j)⟩
  · exact Or.inr hexact

/-! ### The entries of blocks just opened -/

theorem tcpOpenActiveConn_entry (now : Nat) (sock : Option SockIdx) (lip rip : UInt32)
    (lport rport : UInt16) (iss : UInt32) (st : Stats) :
    (tcpOpenActiveConn now sock lip lport rip rport iss st).tcb.entry =
      (activeTcb sock lip lport rip rport iss).entry :=
  (tcpOpenActiveConn_proceeds now sock lip lport rip rport iss st).entry

theorem tcpOpenPassiveConn_entry (now : Nat) (l : TcbIdx) (lport : UInt16) (iss : UInt32) (g : Seg)
    (st : Stats) :
    (tcpOpenPassiveConn now l lport iss g st).tcb.entry =
      { (passiveTcb l lport iss g).entry with listening := false } :=
  (tcpOpenPassiveConn_proceeds now l lport iss g st).entry

theorem isCall_proceeds {v : ConnEvent} (hv : v.isCall = true) (c : Conn) :
    Proceeds 0 none c (connHandle c v) := by
  have h := Proceeds.refl 0 none c
  cases v with
  | send now data => exact h.sendCopy now data
  | recv cap => exact h.recvCopy cap
  | nodelay on => exact h.setTcb _ rfl
  | segment | tick | close | attach => cases hv

theorem isCall_entry {v : ConnEvent} (hv : v.isCall = true) (c : Conn) :
    (connHandle c v).tcb.entry = c.tcb.entry := (isCall_proceeds hv c).entry

/-! ### Moves keep the listeners -/

theorem listen_backlog_le (backlog : UInt16) :
    (min (if backlog ≠ 0 then backlog else 1) 8 : UInt16).toNat ≤ tcpAcceptQlen := by
  have hmin (a : UInt16) : (min a 8 : UInt16).toNat ≤ 8 := by
    change (if a ≤ 8 then a else 8).toNat ≤ 8
    split
    · assumption
    · exact Nat.le_refl 8
  exact hmin _

theorem ListenersOk.letGo {T : Tables} (ok : ListenersOk T.entries) (s : SockIdx) (i : TcbIdx) :
    ListenersOk (T.letGo s i).entries := by
  rw [Tables.letGo, Tables.entries_setTcb, Tables.entries_setSock]
  exact ok.update rfl rfl (Or.inr ⟨rfl, rfl⟩) (ok.queue i)

theorem ListenersOk.pop {T : Tables} (ok : ListenersOk T.entries) {l child : TcbIdx}
    {rest : List TcbIdx} (hq : (T.tcbs l).acceptq = child :: rest) :
    ListenersOk (T.pop l rest).entries := by
  rw [Tables.pop, Tables.entries_setTcb]
  refine ok.update rfl rfl ?_ ?_
  · by_cases hl : (T.entries l).listener = none
    · exact Or.inl hl
    · exact Or.inr ⟨rfl, (ok.child l hl).1⟩
  · intro hact hl
    obtain ⟨hlen, hback⟩ := ok.queue l hact hl
    have hlong : (T.entries l).acceptq.length = rest.length + 1 := by
      change (T.tcbs l).acceptq.length = _
      rw [hq]
      rfl
    exact ⟨Nat.le_trans (Nat.le_of_lt (by rw [hlong]; exact Nat.lt_succ_self _)) hlen, hback⟩

theorem ListenersOk.setTcb {T : Tables} {i : TcbIdx} {t : Tcb} (ok : ListenersOk T.entries)
    (ht : t.entry = (T.tcbs i).entry) : ListenersOk (T.setTcb i t).entries := by
  rwa [Tables.entries_same ht]

theorem SegMove.listenersOk {h : Host} {now : Nat} {g : Seg} {T : Tables} (hT : SegMove h now g T)
    (ok : ListenersOk h.tables.entries) : ListenersOk T.entries := by
  cases hT with
  | same => exact ok
  | segment st hfind hst hd =>
    subst hd
    exact ok.setTcb (tcpInputConn_entry _ _ _ _)
  | @queue i l d st hfind hst hlistener hroom hd halive hq =>
    subst hd
    have hentry := tcpInputConn_entry now (some true) g (Conn.start (h.tcbs i) st)
    have hset : (h.tables.setTcb i
        (tcpInputConn now (some true) g (Conn.start (h.tcbs i) st)).tcb).entries =
        h.tables.entries := Tables.entries_same hentry
    generalize tcpInputConn now (some true) g (Conn.start (h.tcbs i) st) = d at hset ⊢
    have hact : (h.tcbs i).active = true := (tcbLookup_some hfind).1
    have hlis := ok.listener i l hact hlistener
    have hl := congrFun hset l
    have hok := ok
    rw [← hset] at hok
    rw [Tables.push, Tables.entries_setTcb]
    refine hok.update rfl rfl ?_ ?_
    · left
      by_contra hne
      have hno := (ok.child l (hl ▸ hne)).2
      rw [hlis.2] at hno
      cases hno
    · intro _ _
      have hq : ((h.tables.setTcb i d.tcb).tcbs l).acceptq = (h.tcbs l).acceptq :=
        congrArg Entry.acceptq hl
      have hb : ((h.tables.setTcb i d.tcb).tcbs l).backlog = (h.tcbs l).backlog :=
        congrArg Entry.backlog hl
      refine ⟨?_, ?_⟩
      · change (((h.tables.setTcb i d.tcb).tcbs l).acceptq ++ [i]).length ≤
          ((h.tables.setTcb i d.tcb).tcbs l).backlog.toNat
        rw [hq, hb, List.length_append]
        exact hroom
      · change ((h.tables.setTcb i d.tcb).tcbs l).backlog.toNat ≤ _
        rw [hb]
        exact (ok.queue l hlis.1 hlis.2).2
  | segmentEnd => exact ok.free _ _
  | @passive l i iss st hfind hst hroom hidle =>
    rw [Tables.entries_setTcb, tcpOpenPassiveConn_entry]
    refine ok.opened hidle ?_ (fun hl => by cases hl)
    rintro m hm
    cases hm
    exact ⟨(tcbLookup_some hfind).1, (Tcb.entry_listening _).mpr hst, rfl, rfl⟩

theorem TickMove.listenersOk {now : Nat} {T T' : Tables} (hT : TickMove now T T')
    (ok : ListenersOk T.entries) : ListenersOk T'.entries := by
  cases hT with
  | tick st hact hd =>
    subst hd
    exact ok.setTcb (tcpTickConn_entry _ _)
  | tickEnd => exact ok.free _ _

theorem Move.listenersOk {h : Host} {e : HostEvent} {T T' : Tables} (hmove : Move h e T T')
    (ok : ListenersOk T.entries) : ListenersOk T'.entries := by
  cases hmove with
  | segment hT => exact hT.listenersOk ok
  | tick hT => exact hT.listenersOk ok
  | @listen now sock backlog s i hsock hidle =>
    rw [Tables.entries_setSock, Tables.entries_setTcb]
    refine ok.opened hidle (fun m hm => by cases hm) ?_
    intro _
    exact ⟨Nat.zero_le _, listen_backlog_le backlog⟩
  | @connect now sock rip lip rport lport route s i x iss st hsource hidle hx =>
    rw [Tables.entries_setSock, Tables.entries_setTcb, tcpOpenActiveConn_entry]
    refine ok.opened hidle (fun m hm => by cases hm) (fun hl => by cases hl)
  | use st hsock hv hd =>
    subst hd
    exact ok.setTcb (isCall_entry hv _)
  | abort => exact ok.free _ _
  | @close now sock s i d hget hsock hd =>
    subst hd
    exact (ok.letGo s i).setTcb (tcpAppClose_entry _ _)
  | @closeEnd _ _ s i => exact (ok.letGo s i).free _ _
  | @accept _ _ l child rest s x hq hfree hx =>
    have hok := ok.pop hq
    rw [Tables.attach, Tables.entries_setTcb, Tables.entries_setSock]
    exact hok.update rfl rfl (Or.inl rfl) (hok.queue child)
  | acceptDrop hq => exact (ok.pop hq).free _ _
  | sock => exact ok

end PacketForge
