import PacketForge.Host.Connect

/-!
Which block a segment belongs to. A lookup is unambiguous when no two blocks in
use match the same addresses; then it does not matter in which order the slots are
searched. A new child never matches what another block does, since the lookup that
found its listener found no connection. The calls that open a block look at the
sockets only, and not at the blocks that outlive theirs.
-/

namespace PacketForge

open Function (update_self update_of_ne)

/-- The block of a connection with this four-tuple. -/
def Tcb.isConn (t : Tcb) (lip : UInt32) (lport : UInt16) (rip : UInt32) (rport : UInt16) : Bool :=
  t.active && t.state ≠ .listen && t.connects lip lport rip rport

/-- A listener for the address and port. -/
def Tcb.isListener (t : Tcb) (lip : UInt32) (lport : UInt16) : Bool :=
  t.active && t.state = .listen && t.listensOn lip lport

/-- No two blocks match the same four-tuple, or listen on the same address and port. -/
structure Unambiguous (tcbs : TcbIdx → Tcb) : Prop where
  conn : ∀ i j lip lport rip rport, (tcbs i).isConn lip lport rip rport = true →
    (tcbs j).isConn lip lport rip rport = true → i = j
  listener : ∀ i j lip lport, (tcbs i).isListener lip lport = true →
    (tcbs j).isListener lip lport = true → i = j

/-! ### The lookup -/

section Lookup

variable {h : Host} {lip rip : UInt32} {lport rport : UInt16}

theorem Tcb.isConn_iff (t : Tcb) : t.isConn lip lport rip rport = true ↔
    t.active = true ∧ t.state ≠ .listen ∧ t.connects lip lport rip rport = true := by
  simp [Tcb.isConn, and_assoc]

theorem Tcb.isListener_iff (t : Tcb) : t.isListener lip lport = true ↔
    t.active = true ∧ t.state = .listen ∧ t.listensOn lip lport = true := by
  simp [Tcb.isListener, and_assoc]

/-- What a search may answer, whatever the order of the slots. -/
def Finds (h : Host) (lip : UInt32) (lport : UInt16) (rip : UInt32) (rport : UInt16) :
    Option TcbIdx → Prop
  | some i => (h.tcbs i).isConn lip lport rip rport = true ∨
      ((h.tcbs i).isListener lip lport = true ∧ ∀ j, (h.tcbs j).isConn lip lport rip rport = false)
  | none => ∀ j, (h.tcbs j).isConn lip lport rip rport = false ∧
      (h.tcbs j).isListener lip lport = false

theorem tcbLookupLoop_none {l : List TcbIdx} {listener : Option TcbIdx}
    (hnone : tcbLookupLoop h lip lport rip rport l listener = none) :
    listener = none ∧ ∀ j ∈ l, (h.tcbs j).isConn lip lport rip rport = false ∧
      (h.tcbs j).isListener lip lport = false := by
  induction l generalizing listener with
  | nil => exact ⟨hnone, fun j hj => absurd hj List.not_mem_nil⟩
  | cons k l ih =>
    have hcons {o : Option TcbIdx} (hrest : tcbLookupLoop h lip lport rip rport l o = none)
        (hk : (h.tcbs k).isConn lip lport rip rport = false ∧
          (h.tcbs k).isListener lip lport = false) :
        o = none ∧ ∀ j ∈ k :: l, (h.tcbs j).isConn lip lport rip rport = false ∧
          (h.tcbs j).isListener lip lport = false := by
      obtain ⟨ho, hl⟩ := ih hrest
      refine ⟨ho, fun j hj => ?_⟩
      rcases List.mem_cons.mp hj with rfl | hj
      · exact hk
      · exact hl j hj
    unfold tcbLookupLoop at hnone
    simp only at hnone
    split at hnone
    · rename_i hidle
      have hidle : (h.tcbs k).active = false := by simpa using hidle
      exact hcons hnone ⟨by simp [Tcb.isConn, hidle], by simp [Tcb.isListener, hidle]⟩
    split at hnone
    · rename_i hst
      split at hnone
      · cases (ih hnone).1
      · rename_i hon
        exact hcons hnone ⟨by simp [Tcb.isConn, hst], by simp [Tcb.isListener, hon]⟩
    rename_i hst
    split at hnone
    · cases hnone
    · rename_i hconn
      exact hcons hnone ⟨by simp [Tcb.isConn, hconn], by simp [Tcb.isListener, hst]⟩

theorem tcbLookupLoop_finds {l : List TcbIdx} (hall : ∀ i, i ∈ l) :
    Finds h lip lport rip rport (tcbLookupLoop h lip lport rip rport l none) := by
  cases hfind : tcbLookupLoop h lip lport rip rport l none with
  | none => exact fun j => (tcbLookupLoop_none hfind).2 j (hall j)
  | some i =>
    obtain ⟨hact, hcase⟩ := tcbLookupLoop_some (fun j hj => by cases hj) hfind
    rcases hcase with ⟨hst, hon, hno⟩ | ⟨hst, hconn⟩
    · refine Or.inr ⟨(Tcb.isListener_iff _).mpr ⟨hact, hst, hon⟩, fun j => ?_⟩
      rw [Bool.eq_false_iff]
      intro hj
      obtain ⟨hjact, hjst, hjconn⟩ := (Tcb.isConn_iff _).mp hj
      rw [hno j (hall j) hjact hjst] at hjconn
      cases hjconn
    · exact Or.inl ((Tcb.isConn_iff _).mpr ⟨hact, hst, hconn⟩)

theorem Unambiguous.finds_unique (hu : Unambiguous h.tcbs) {r r' : Option TcbIdx}
    (hr : Finds h lip lport rip rport r) (hr' : Finds h lip lport rip rport r') : r = r' := by
  have hexcl {i : TcbIdx} (hi : (h.tcbs i).isConn lip lport rip rport = true)
      (hno : ∀ j, (h.tcbs j).isConn lip lport rip rport = false) : False := by
    rw [hno i] at hi
    cases hi
  have hnone {i : TcbIdx} (hi : Finds h lip lport rip rport (some i))
      (hno : Finds h lip lport rip rport none) : False := by
    rcases hi with hi | ⟨hi, -⟩
    · exact hexcl hi fun j => (hno j).1
    · rw [(hno i).2] at hi
      cases hi
  cases r with
  | none =>
    cases r' with
    | none => rfl
    | some i => exact (hnone hr' hr).elim
  | some i =>
    cases r' with
    | none => exact (hnone hr hr').elim
    | some j =>
      congr 1
      rcases hr with hi | ⟨hi, hno⟩
      · rcases hr' with hj | ⟨-, hno⟩
        · exact hu.conn i j _ _ _ _ hi hj
        · exact (hexcl hi hno).elim
      · rcases hr' with hj | ⟨hj, -⟩
        · exact (hexcl hj hno).elim
        · exact hu.listener i j _ _ hi hj

/-- The answer does not depend on the order of the slots. -/
theorem Unambiguous.lookup_perm (hu : Unambiguous h.tcbs) {l : List TcbIdx}
    (hl : l.Perm (List.finRange tcpMaxConns)) :
    tcbLookupLoop h lip lport rip rport l none = tcbLookup h lip lport rip rport :=
  hu.finds_unique (tcbLookupLoop_finds fun i => hl.mem_iff.mpr (List.mem_finRange i))
    (tcbLookupLoop_finds List.mem_finRange)

end Lookup

/-! ### What keeps it so -/

/-- What the lookup reads of a block in use. -/
def Tcb.key (t : Tcb) : Bool × UInt32 × UInt16 × UInt32 × UInt16 :=
  (t.state = .listen, t.localIp, t.localPort, t.remoteIp, t.remotePort)

theorem Tcb.key_of_entry {t t' : Tcb} (h : t'.entry = t.entry) : t'.key = t.key :=
  congrArg (fun e : Entry => (e.listening, e.localIp, e.localPort, e.remoteIp, e.remotePort)) h

theorem Tcb.isConn_of_key {t t' : Tcb} (hact : t'.active = true → t.active = true)
    (hkey : t'.active = true → t'.key = t.key) {lip rip : UInt32} {lport rport : UInt16}
    (h : t'.isConn lip lport rip rport = true) : t.isConn lip lport rip rport = true := by
  obtain ⟨hact', hst, hconn⟩ := (Tcb.isConn_iff _).mp h
  have hk := hkey hact'
  simp only [Tcb.key, Prod.mk.injEq, decide_eq_decide] at hk
  obtain ⟨hs, hlip, hlport, hrip, hrport⟩ := hk
  refine (Tcb.isConn_iff _).mpr ⟨hact hact', fun hl => hst (hs.mpr hl), ?_⟩
  rw [Tcb.connects, ← hlip, ← hlport, ← hrip, ← hrport]
  exact hconn

theorem Tcb.isListener_of_key {t t' : Tcb} (hact : t'.active = true → t.active = true)
    (hkey : t'.active = true → t'.key = t.key) {lip : UInt32} {lport : UInt16}
    (h : t'.isListener lip lport = true) : t.isListener lip lport = true := by
  obtain ⟨hact', hst, hon⟩ := (Tcb.isListener_iff _).mp h
  have hk := hkey hact'
  simp only [Tcb.key, Prod.mk.injEq, decide_eq_decide] at hk
  obtain ⟨hs, hlip, hlport, -⟩ := hk
  refine (Tcb.isListener_iff _).mpr ⟨hact hact', hs.mp hst, ?_⟩
  rw [Tcb.listensOn, ← hlip, ← hlport]
  exact hon

namespace Unambiguous

variable {tcbs tcbs' : TcbIdx → Tcb}

/-- Blocks that stay in use keep what the lookup reads. -/
theorem mono (hu : Unambiguous tcbs) (hact : ∀ i, (tcbs' i).active = true → (tcbs i).active = true)
    (hkey : ∀ i, (tcbs' i).active = true → (tcbs' i).key = (tcbs i).key) : Unambiguous tcbs' := by
  refine ⟨?_, ?_⟩
  · intro i j lip lport rip rport hi hj
    exact hu.conn i j lip lport rip rport (Tcb.isConn_of_key (hact i) (hkey i) hi)
      (Tcb.isConn_of_key (hact j) (hkey j) hj)
  · intro i j lip lport hi hj
    exact hu.listener i j lip lport (Tcb.isListener_of_key (hact i) (hkey i) hi)
      (Tcb.isListener_of_key (hact j) (hkey j) hj)

theorem update (hu : Unambiguous tcbs) (i : TcbIdx) {t : Tcb} (hact : t.active = (tcbs i).active)
    (hkey : t.key = (tcbs i).key) : Unambiguous (Function.update tcbs i t) := by
  refine hu.mono ?_ ?_
  · intro j hj
    rcases eq_or_ne j i with rfl | hji
    · rw [update_self] at hj
      rwa [← hact]
    · rwa [update_of_ne hji] at hj
  · intro j _
    rcases eq_or_ne j i with rfl | hji
    · rw [update_self, hkey]
    · rw [update_of_ne hji]

theorem entry (hu : Unambiguous tcbs) (i : TcbIdx) {t : Tcb} (h : t.entry = (tcbs i).entry) :
    Unambiguous (Function.update tcbs i t) :=
  hu.update i (congrArg Entry.active h) (Tcb.key_of_entry h)

theorem free {T : Tables} (hu : Unambiguous T.tcbs) (i : TcbIdx) (err : PfErr) :
    Unambiguous (T.free i err).tcbs := by
  have hat (j : TcbIdx) (hj : ((T.free i err).tcbs j).active = true) :
      (T.free i err).tcbs j = T.tcbs j := by
    refine if_neg fun hgoes => ?_
    rw [show (T.free i err).tcbs j = Tcb.zero from if_pos hgoes] at hj
    cases hj
  refine hu.mono ?_ ?_
  · intro j hj
    rw [← hat j hj]
    exact hj
  · intro j hj
    rw [hat j hj]

/-- A slot is filled by a block that matches nothing the others do. -/
theorem opened (hu : Unambiguous tcbs) (i : TcbIdx) {t : Tcb}
    (hconn : ∀ lip lport rip rport, t.isConn lip lport rip rport = true →
      ∀ j, (tcbs j).isConn lip lport rip rport = false)
    (hlis : ∀ lip lport, t.isListener lip lport = true →
      ∀ j, (tcbs j).isListener lip lport = false) :
    Unambiguous (Function.update tcbs i t) := by
  have hlone {p : Tcb → Bool} (hold : ∀ j k, p (tcbs j) = true → p (tcbs k) = true → j = k)
      (hnew : p t = true → ∀ j, p (tcbs j) = false) (j k : TcbIdx)
      (hj : p (Function.update tcbs i t j) = true) (hk : p (Function.update tcbs i t k) = true) :
      j = k := by
    rcases eq_or_ne j i with rfl | hji <;> rcases eq_or_ne k j with rfl | hkj
    · rfl
    · rw [update_self] at hj
      rw [update_of_ne hkj, hnew hj k] at hk
      cases hk
    · rfl
    · rw [update_of_ne hji] at hj
      rcases eq_or_ne k i with rfl | hki
      · rw [update_self] at hk
        rw [hnew hk j] at hj
        cases hj
      · rw [update_of_ne hki] at hk
        exact hold j k hj hk
  refine ⟨?_, ?_⟩
  · intro j k lip lport rip rport
    exact hlone (p := fun t => t.isConn lip lport rip rport)
      (fun j k => hu.conn j k lip lport rip rport) (hconn lip lport rip rport) j k
  · intro j k lip lport
    exact hlone (p := fun t => t.isListener lip lport) (fun j k => hu.listener j k lip lport)
      (hlis lip lport) j k

end Unambiguous

/-! ### Moves -/

/-- A call opens a block that matches what one in use does. -/
def Clashes (h : Host) : HostEvent → Prop
  | .call _ (.listen sock _) => tcbAlloc h ≠ none ∧ ∃ s, listenSock h sock = some s ∧
      ∃ j, (h.tcbs j).active = true ∧ (h.tcbs j).state = .listen ∧
        (h.tcbs j).localPort = (h.socks s).localPort ∧
        ((h.tcbs j).localIp = 0 ∨ (h.socks s).localIp = 0 ∨
          (h.tcbs j).localIp = (h.socks s).localIp)
  | .call _ (.connect sock rip rport route) => tcbAlloc h ≠ none ∧
      ∃ src, connectSource h sock rport route = some src ∧
        ∃ j, (h.tcbs j).isConn src.2.1 src.2.2 rip rport = true
  | _ => False

theorem tcbAlloc_ne_none {h : Host} {i : TcbIdx} (hi : (h.tcbs i).active = false) :
    tcbAlloc h ≠ none := by
  intro hnone
  have hused := Slots.first_none hnone i
  simp [hi] at hused

theorem listenTcb_isListener (x : PfSock) (s : SockIdx) (backlog : UInt16) (lip : UInt32)
    (lport : UInt16) : (listenTcb x s backlog).isListener lip lport = true ↔
      x.localPort = lport ∧ (x.localIp = 0 ∨ x.localIp = lip) := by
  simp [Tcb.isListener, listenTcb, Tcb.fresh, Tcb.listensOn]

theorem activeTcb_isConn {t : Tcb} {sock : Option SockIdx} {lip rip : UInt32} {lport rport : UInt16}
    {iss : UInt32} (ht : t.entry = (activeTcb sock lip lport rip rport iss).entry)
    {lip' rip' : UInt32} {lport' rport' : UInt16} : t.isConn lip' lport' rip' rport' = true ↔
      lip = lip' ∧ lport = lport' ∧ rip = rip' ∧ rport = rport' := by
  have hkey : t.isConn lip' lport' rip' rport' =
      (activeTcb sock lip lport rip rport iss).isConn lip' lport' rip' rport' := by
    have hact : t.active = (activeTcb sock lip lport rip rport iss).active :=
      congrArg Entry.active ht
    refine Bool.eq_iff_iff.mpr ⟨?_, ?_⟩
    · exact Tcb.isConn_of_key (fun _ => rfl) fun _ => Tcb.key_of_entry ht
    · exact Tcb.isConn_of_key (fun _ => hact) fun _ => (Tcb.key_of_entry ht).symm
  rw [hkey, Tcb.isConn_iff]
  simp only [Tcb.connects, Bool.and_eq_true, decide_eq_true_eq, and_assoc]
  exact ⟨fun h => h.2.2, fun h => ⟨rfl, nofun, h⟩⟩

theorem SegMove.unambiguous {h : Host} {now : Nat} {g : Seg} {T : Tables} (hT : SegMove h now g T)
    (hu : Unambiguous h.tcbs) : Unambiguous T.tcbs := by
  cases hT with
  | same => exact hu
  | segment st hfind hst hd =>
    subst hd
    exact hu.entry _ (tcpInputConn_entry _ _ _ _)
  | queue st hfind hst hlistener hroom hd =>
    subst hd
    exact (hu.entry _ (tcpInputConn_entry _ _ _ _)).update _ rfl rfl
  | segmentEnd => exact hu.free _ _
  | @passive l i iss st hfind hst hroom hidle =>
    have hentry := tcpOpenPassiveConn_entry now l (h.tcbs l).localPort iss g st
    generalize (tcpOpenPassiveConn now l (h.tcbs l).localPort iss g st).tcb = t at hentry ⊢
    have hlisten : t.state ≠ .listen := by
      rw [Ne, ← Tcb.entry_listening, hentry]
      simp
    refine hu.opened i ?_ ?_
    · intro lip lport rip rport ht j
      -- the four-tuple of the child is that of the segment, which no block had
      obtain ⟨-, hcase⟩ := tcbLookup_some hfind
      rcases hcase with ⟨-, hon, hnone⟩ | ⟨hne, -⟩
      · have hport : (h.tcbs l).localPort = g.dport := by
          simp only [Tcb.listensOn, Bool.and_eq_true, decide_eq_true_eq] at hon
          exact hon.1
        obtain ⟨-, -, hconn⟩ := (Tcb.isConn_iff _).mp ht
        have hlip : t.localIp = g.dst := congrArg Entry.localIp hentry
        have hlport : t.localPort = g.dport := (congrArg Entry.localPort hentry).trans hport
        have hrip : t.remoteIp = g.src := congrArg Entry.remoteIp hentry
        have hrport : t.remotePort = g.sport := congrArg Entry.remotePort hentry
        simp only [Tcb.connects, hlip, hlport, hrip, hrport, Bool.and_eq_true, decide_eq_true_eq]
          at hconn
        obtain ⟨⟨⟨rfl, rfl⟩, rfl⟩, rfl⟩ := hconn
        rw [Bool.eq_false_iff]
        intro hj
        obtain ⟨hjact, hjst, hjconn⟩ := (Tcb.isConn_iff _).mp hj
        have hfree := hnone j hjact hjst
        rw [show (h.tcbs j).connects g.dst g.dport g.src g.sport = true from hjconn] at hfree
        cases hfree
      · exact absurd hst hne
    · intro lip lport ht
      exact absurd ((Tcb.isListener_iff _).mp ht).2.1 hlisten

theorem Move.unambiguous {h : Host} {e : HostEvent} {T T' : Tables} (hmove : Move h e T T')
    (hno : ¬ Clashes h e) (hu : Unambiguous T.tcbs) : Unambiguous T'.tcbs := by
  cases hmove with
  | segment hT => exact hT.unambiguous hu
  | tick hT =>
    cases hT with
    | tick st hact hd =>
      subst hd
      exact hu.entry _ (tcpTickConn_entry _ _)
    | tickEnd => exact hu.free _ _
  | @listen now sock backlog s i hsock hidle =>
    refine hu.opened i ?_ ?_
    · intro lip lport rip rport ht
      exact absurd rfl ((Tcb.isConn_iff _).mp ht).2.1
    · intro lip lport ht j
      obtain ⟨hport, hip⟩ := (listenTcb_isListener _ _ _ _ _).mp ht
      rw [Bool.eq_false_iff]
      intro hj
      obtain ⟨hjact, hjst, hjon⟩ := (Tcb.isListener_iff _).mp hj
      simp only [Tcb.listensOn, Bool.and_eq_true, Bool.or_eq_true, decide_eq_true_eq] at hjon
      refine hno ⟨tcbAlloc_ne_none hidle, s, hsock, j, hjact, hjst, hjon.1.trans hport.symm, ?_⟩
      rcases hjon.2 with hz | hz
      · exact Or.inl hz
      · rcases hip with hip | hip
        · exact Or.inr (Or.inl hip)
        · exact Or.inr (Or.inr (hz.trans hip.symm))
  | @connect now sock rip lip rport lport route s i x iss st hsource hidle hx =>
    have hentry := tcpOpenActiveConn_entry now (some s) lip rip lport rport iss st
    generalize (tcpOpenActiveConn now (some s) lip lport rip rport iss st).tcb = t at hentry ⊢
    have hlisten : t.state ≠ .listen := by
      rw [Ne, ← Tcb.entry_listening, hentry]
      simp [activeTcb, Tcb.entry]
    refine hu.opened i ?_ ?_
    · intro lip' lport' rip' rport' ht j
      obtain ⟨rfl, rfl, rfl, rfl⟩ := (activeTcb_isConn hentry).mp ht
      rw [Bool.eq_false_iff]
      intro hj
      exact hno ⟨tcbAlloc_ne_none hidle, _, hsource, j, hj⟩
    · intro lip' lport' ht
      exact absurd ((Tcb.isListener_iff _).mp ht).2.1 hlisten
  | use st hsock hv hd =>
    subst hd
    exact hu.entry _ (isCall_entry hv _)
  | abort => exact hu.free _ _
  | @close now sock s i d hget hsock hd =>
    subst hd
    have hgone : Unambiguous (h.tables.letGo s i).tcbs := hu.update i rfl rfl
    exact hgone.entry _ (tcpAppClose_entry _ _)
  | @closeEnd now sock s i =>
    have hgone : Unambiguous (h.tables.letGo s i).tcbs := hu.update i rfl rfl
    exact hgone.free _ _
  | @accept _ _ l child rest s x =>
    have hpop : Unambiguous (T.pop l rest).tcbs := hu.update l rfl rfl
    exact hpop.update child rfl rfl
  | @acceptDrop _ _ l child rest =>
    have hpop : Unambiguous (T.pop l rest).tcbs := hu.update l rfl rfl
    exact hpop.free _ _
  | sock => exact hu

/-! ### Runs -/

/-- A call opens such a block; there is one thread, so no other call may be waiting. -/
def Collides (h : Host) (e : HostEvent) : Prop := h.pending = none ∧ Clashes h e

theorem hostStep_unambiguous {h : Host} {e : HostEvent} (ok : ListenersOk h.tables.entries)
    (hu : Unambiguous h.tcbs) (hno : ¬ Collides h e) : Unambiguous (hostStep h e).tcbs := by
  by_cases hclash : Clashes h e
  · -- the call waits for the one in progress
    have hbusy : h.pending ≠ none := fun hidle => hno ⟨hidle, hclash⟩
    obtain ⟨p, hp⟩ := Option.ne_none_iff_exists'.mp hbusy
    cases e with
    | call now c =>
      rw [hostStep_busy hp]
      exact hu
    | segment | tick | resume => exact hclash.elim
  · have hmoves : ∀ T, Moves h e h.tables T → Unambiguous T.tcbs := by
      intro T hT
      induction hT with
      | refl => exact hu
      | tail _ hmove ih => exact hmove.unambiguous hclash ih
    exact hmoves _ (hostStep_moves ok e)

section Opening

variable {k : Host} {sock : Int} {s : SockIdx} {i : TcbIdx}

theorem pfListen_tcbs (hs : listenSock k sock = some s) (hi : tcbAlloc k = some i)
    (backlog : UInt16) : (pfListen sock backlog k).1.tcbs =
      Function.update k.tcbs i (listenTcb (k.socks s) s backlog) := by
  obtain ⟨hget, hguard⟩ := Option.filter_eq_some_iff.mp hs
  simp only [decide_eq_true_eq] at hguard
  unfold pfListen
  simp only [hget]
  rw [if_neg (by simp [hguard.1, hguard.2])]
  unfold tcpOpenListen
  simp only [hi]
  rfl

theorem pfConnect_tcbs {lip : UInt32} {rport lport : UInt16} {route : Option UInt32}
    (hsource : connectSource k sock rport route = some (s, lip, lport)) (hi : tcbAlloc k = some i)
    (now : Nat) (rip : UInt32) : ∃ iss st, (pfConnect now sock rip rport route k).1.tcbs =
      Function.update k.tcbs i (tcpOpenActiveConn now (some s) lip lport rip rport iss st).tcb := by
  unfold connectSource at hsource
  cases hget : tcpSockGet k sock with
  | none =>
    rw [hget] at hsource
    cases hsource
  | some s' =>
    rw [hget] at hsource
    simp only at hsource
    split at hsource
    · cases hsource
    rename_i hguard
    split at hsource
    · cases hsource
    rename_i lip' hlip
    split at hsource
    · cases hsource
    rename_i hport
    cases hsource
    have hsrc : connectSrc k s route = some lip := hlip
    rw [pfConnect_eq hget, if_neg hguard, hsrc, Option.elim_some, if_neg hport]
    have htcbs : (connectPort s k).1.tcbs = k.tcbs := by
      unfold connectPort
      split <;> rfl
    have halloc : tcbAlloc (connectPort s k).1 = some i := (connectPort_alloc k s).trans hi
    have hset (k' : Host) (x : PfSock) : tcbAlloc (k'.setSock s x) = tcbAlloc k' := rfl
    unfold connectFrom tcpOpenActive
    simp only [hset, halloc]
    rw [connectPoll_false, ← htcbs]
    exact ⟨_, _, rfl⟩

end Opening

theorem hostStep_collides {h : Host} {e : HostEvent} (hbad : Collides h e) :
    ¬ Unambiguous (hostStep h e).tcbs := by
  obtain ⟨hidle, hclash⟩ := hbad
  cases e with
  | call now c =>
    have hstep :
        (hostStep h (.call now c)).tcbs = (hostCall now { h with out := [] } c).1.tcbs := by
      rw [hostStep_call hidle]
      rfl
    rw [hstep]
    cases c with
    | listen sock backlog =>
      obtain ⟨hroom, s, hs, j, hact, hst, hport, hip⟩ := hclash
      obtain ⟨i, hi⟩ := Option.ne_none_iff_exists'.mp hroom
      have hji : j ≠ i := by
        rintro rfl
        rw [tcbAlloc_some hi] at hact
        cases hact
      have htcbs : (hostCall now { h with out := [] } (.listen sock backlog)).1.tcbs =
          Function.update h.tcbs i (listenTcb (h.socks s) s backlog) :=
        pfListen_tcbs (k := { h with out := [] }) hs hi backlog
      rw [htcbs]
      intro hu
      -- an address that both listen on
      have hboth : ∃ lip, (h.tcbs j).isListener lip (h.socks s).localPort = true ∧
          (listenTcb (h.socks s) s backlog).isListener lip (h.socks s).localPort = true := by
        have hj (lip : UInt32) (hlip : (h.tcbs j).localIp = 0 ∨ (h.tcbs j).localIp = lip) :
            (h.tcbs j).isListener lip (h.socks s).localPort = true :=
          (Tcb.isListener_iff _).mpr ⟨hact, hst, by simp [Tcb.listensOn, hport, hlip]⟩
        rcases hip with hip | hip | hip
        · exact ⟨(h.socks s).localIp, hj _ (Or.inl hip),
            (listenTcb_isListener _ _ _ _ _).mpr ⟨rfl, Or.inr rfl⟩⟩
        · exact ⟨(h.tcbs j).localIp, hj _ (Or.inr rfl),
            (listenTcb_isListener _ _ _ _ _).mpr ⟨rfl, Or.inl hip⟩⟩
        · exact ⟨(h.socks s).localIp, hj _ (Or.inr hip),
            (listenTcb_isListener _ _ _ _ _).mpr ⟨rfl, Or.inr rfl⟩⟩
      obtain ⟨lip, hold, hnew⟩ := hboth
      refine hji (hu.listener j i lip (h.socks s).localPort ?_ ?_)
      · rw [update_of_ne hji]
        exact hold
      · rw [update_self]
        exact hnew
    | connect sock rip rport route =>
      obtain ⟨hroom, ⟨s, lip, lport⟩, hsource, j, hj⟩ := hclash
      obtain ⟨i, hi⟩ := Option.ne_none_iff_exists'.mp hroom
      have hji : j ≠ i := by
        rintro rfl
        have hact := ((Tcb.isConn_iff _).mp hj).1
        rw [tcbAlloc_some hi] at hact
        cases hact
      have hsource' : connectSource { h with out := [] } sock rport route = some (s, lip, lport) :=
        (connectSource_out h [] sock rport route).trans hsource
      obtain ⟨iss, st, htcbs⟩ := pfConnect_tcbs (i := i) hsource' hi now rip
      have hcall :
          (hostCall now { h with out := [] } (.connect sock rip rport route)).1.tcbs = _ := htcbs
      rw [hcall]
      intro hu
      refine hji (hu.conn j i lip lport rip rport ?_ ?_)
      · rw [update_of_ne hji]
        exact hj
      · rw [update_self]
        exact (activeTcb_isConn (tcpOpenActiveConn_entry _ _ _ _ _ _ _ _)).mpr ⟨rfl, rfl, rfl, rfl⟩
    | socket | bind | accept | send | recv | close | nodelay => exact hclash.elim
  | segment | tick | resume => exact hclash.elim

theorem Host.init_unambiguous : Unambiguous Host.init.tcbs := by
  refine ⟨?_, ?_⟩
  · intro i j lip lport rip rport hi
    cases ((Tcb.isConn_iff _).mp hi).1
  · intro i j lip lport hi
    cases ((Tcb.isListener_iff _).mp hi).1

/-- Segments find their block whatever the order of the slots, until a call opens a
block whose addresses one in use has. -/
theorem demux_unambiguous_iff {h : Host} (hr : Host.Reach (fun h e => ¬ Collides h e) h) :
    (Unambiguous h.tcbs ∧ ∀ l : List TcbIdx, l.Perm (List.finRange tcpMaxConns) →
      ∀ lip lport rip rport,
        tcbLookupLoop h lip lport rip rport l none = tcbLookup h lip lport rip rport) ∧
    ∀ e, Unambiguous (hostStep h e).tcbs ↔ ¬ Collides h e := by
  have ok := Host.Reach.listenersOk hr
  have hu : Unambiguous h.tcbs := by
    have hboth : ListenersOk h.tables.entries ∧ Unambiguous h.tcbs := by
      refine Run.Reach.invariant
        (fun h : Host => ListenersOk h.tables.entries ∧ Unambiguous h.tcbs) ?_ ?_ hr
      · rintro _ rfl
        exact ⟨Host.init_listenersOk, Host.init_unambiguous⟩
      · rintro k e hno ⟨hok, hk⟩
        exact ⟨(hostStep_moves hok e).listenersOk hok, hostStep_unambiguous hok hk hno⟩
    exact hboth.2
  refine ⟨⟨hu, fun l hl lip lport rip rport => hu.lookup_perm hl⟩, fun e => ⟨?_, ?_⟩⟩
  · intro hstep hbad
    exact hostStep_collides hbad hstep
  · exact hostStep_unambiguous ok hu

/-- The answer of a server at port 7 to the SYN of port 5000. -/
def synAckSeg : Seg where
  src := 2
  dst := 1
  sport := 7
  dport := 5000
  seq := 300
  ack := 0x1f2e3d4c + 64000 + 1
  flags := tcpSyn ||| tcpAck
  wnd := 1000
  opts := []
  payload := []
  payload_lt := Seg.empty_payload_lt

/-- A connection is opened and closed, and its port bound once more. -/
def reconnectEvents : List HostEvent :=
  [.call 0 (.socket .tcp), .call 0 (.bind 0 1 5000), .call 0 (.connect 0 2 7 (some 1)),
    .segment 1 synAckSeg, .resume 2 false, .call 3 (.close 0), .call 4 (.socket .tcp),
    .call 4 (.bind 0 1 5000)]

def reconnectHost : Host := reconnectEvents.foldl hostStep Host.init

theorem reconnectHost_reach : Host.Reach (fun h e => ¬ Collides h e) reconnectHost := by
  have hstart : Host.Reach (fun h e => ¬ Collides h e) Host.init := .start rfl
  have hfirst : ¬ Collides ((reconnectEvents.take 2).foldl hostStep Host.init)
      (.call 0 (.connect 0 2 7 (some 1))) := by
    rintro ⟨-, -, _, -, j, hj⟩
    have hidle :
        ∀ j, (((reconnectEvents.take 2).foldl hostStep Host.init).tcbs j).active = false := by
      decide +kernel
    rw [Tcb.isConn_iff, hidle j] at hj
    cases hj.1
  exact hstart.foldl reconnectEvents
    ⟨And.right, And.right, hfirst, And.right, And.right, And.right, And.right, And.right, trivial⟩

theorem demux_unambiguous_iff_reconnect : Unambiguous reconnectHost.tcbs ∧
    ¬ Unambiguous (hostStep reconnectHost (.call 5 (.connect 0 2 7 (some 1)))).tcbs := by
  obtain ⟨⟨hu, -⟩, hstep⟩ := demux_unambiguous_iff reconnectHost_reach
  refine ⟨hu, ?_⟩
  have hstate : reconnectHost.pending = none ∧ tcbAlloc reconnectHost ≠ none ∧
      connectSource reconnectHost 0 7 (some 1) = some (0, 1, 5000) ∧
      (reconnectHost.tcbs 0).isConn 1 5000 2 7 = true := by
    decide +kernel
  obtain ⟨hidle, hroom, hsource, hold⟩ := hstate
  rw [hstep, not_not]
  exact ⟨hidle, hroom, _, hsource, 0, hold⟩

/-- A listening socket is bound to another port, and a second one listens on the first. -/
def rebindEvents : List HostEvent :=
  [.call 0 (.socket .tcp), .call 0 (.bind 0 0 7), .call 0 (.listen 0 1), .call 0 (.bind 0 0 8),
    .call 0 (.socket .tcp), .call 0 (.bind 1 0 7), .call 0 (.listen 1 1)]

def rebindHost : Host := rebindEvents.foldl hostStep Host.init

def doubledHost : Host := hostStep reconnectHost (.call 5 (.connect 0 2 7 (some 1)))

/-- Two connections with one four-tuple, and two listeners on one port. -/
theorem second_open_collides :
    ((doubledHost.tcbs 0).isConn 1 5000 2 7 = true ∧
      (doubledHost.tcbs 1).isConn 1 5000 2 7 = true) ∧
      (rebindHost.tcbs 0).isListener 1 7 = true ∧ (rebindHost.tcbs 1).isListener 1 7 = true := by
  decide +kernel

end PacketForge
