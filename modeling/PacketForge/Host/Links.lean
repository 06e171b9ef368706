import PacketForge.Host.Bookkeeping
import PacketForge.Host.Child

/-!
Control blocks are named from three places: the accept queue of a listener, the
socket that owns the block, and the listener field of a child. What is done to
the tables keeps the names consistent, as long as no block is freed while it
waits in an accept queue.
-/

namespace PacketForge

open Function

/-- A listener is nobody's child. -/
theorem ListenersOk.not_child {E : TcbIdx → Entry} (ok : ListenersOk E) {i l m : TcbIdx}
    (hact : (E i).active = true) (hl : (E i).listener = some l) : (E l).listener ≠ some m := by
  intro hm
  have hno := (ok.child l (hm ▸ Option.some_ne_none m)).2
  rw [(ok.listener i l hact hl).2] at hno
  cases hno

def Tables.unqueue (T : Tables) (l child : TcbIdx) (rest : List TcbIdx) : Tables :=
  (T.pop l rest).setTcb child { (T.pop l rest).tcbs child with listener := none }

/-- The queued blocks of a listener are distinct and are its children in use, and the
block of a socket is in use and owned by the socket. A queued child has completed
its handshake, and every other child is still in it. -/
structure Linked (T : Tables) : Prop where
  nodup : ∀ l, (T.tcbs l).acceptq.Nodup
  queue : ∀ l, ∀ i ∈ (T.tcbs l).acceptq, (T.tcbs i).active = true ∧ (T.tcbs i).listener = some l
  sock : ∀ s i, (T.socks s).tcb = some i →
    (T.tcbs i).active = true ∧ (T.tcbs i).sockIdx = some s
  settled : ∀ l, ∀ i ∈ (T.tcbs l).acceptq, Settled (T.tcbs i)
  embryo : ∀ i l, (T.tcbs i).active = true → (T.tcbs i).listener = some l →
    i ∉ (T.tcbs l).acceptq → Embryonic (T.tcbs i)

namespace Linked

variable {T : Tables} {i : TcbIdx}

theorem not_queued (h : Linked T) (hnone : (T.tcbs i).listener = none) (l : TcbIdx) :
    i ∉ (T.tcbs l).acceptq := by
  intro hi
  have hl := (h.queue l i hi).2
  rw [hnone] at hl
  cases hl

/-- A block that a socket owns is no child, and so waits in no queue. -/
theorem owned (h : Linked T) (ok : ListenersOk T.entries) {s : SockIdx}
    (hs : (T.socks s).tcb = some i) : (T.tcbs i).listener = none ∧ ∀ l, i ∉ (T.tcbs l).acceptq := by
  have hnone : (T.tcbs i).listener = none := by
    by_contra hchild
    have hsock := (ok.child i hchild).1
    change (T.tcbs i).sockIdx = none at hsock
    rw [(h.sock s i hs).2] at hsock
    cases hsock
  exact ⟨hnone, h.not_queued hnone⟩

theorem setTcb (h : Linked T) {t : Tcb} (hq : t.acceptq = (T.tcbs i).acceptq)
    (hwaits : ∀ l, i ∈ (T.tcbs l).acceptq → t.active = true ∧ t.listener = some l ∧ Settled t)
    (hsock : ∀ s, (T.socks s).tcb = some i → t.active = true ∧ t.sockIdx = some s)
    (hembryo : ∀ l, t.active = true → t.listener = some l → i ∉ (T.tcbs l).acceptq →
      Embryonic t) : Linked (T.setTcb i t) := by
  have hself : (T.setTcb i t).tcbs i = t := update_self _ _ _
  have hother {j : TcbIdx} (hj : j ≠ i) : (T.setTcb i t).tcbs j = T.tcbs j :=
    update_of_ne hj _ _
  have hqueue (l : TcbIdx) : ((T.setTcb i t).tcbs l).acceptq = (T.tcbs l).acceptq := by
    rcases eq_or_ne l i with rfl | hl
    · rw [hself, hq]
    · rw [hother hl]
  have hmem {l j : TcbIdx} (hj : j ∈ (T.tcbs l).acceptq) : ((T.setTcb i t).tcbs j).active = true ∧
      ((T.setTcb i t).tcbs j).listener = some l ∧ Settled ((T.setTcb i t).tcbs j) := by
    rcases eq_or_ne j i with rfl | hji
    · rw [hself]
      exact hwaits l hj
    · rw [hother hji]
      exact ⟨(h.queue l j hj).1, (h.queue l j hj).2, h.settled l j hj⟩
  refine ⟨?_, ?_, ?_, ?_, ?_⟩
  · intro l
    rw [hqueue]
    exact h.nodup l
  · intro l j hj
    rw [hqueue] at hj
    exact ⟨(hmem hj).1, (hmem hj).2.1⟩
  · intro s j hj
    rcases eq_or_ne j i with rfl | hji
    · rw [hself]
      exact hsock s hj
    · rw [hother hji]
      exact h.sock s j hj
  · intro l j hj
    rw [hqueue] at hj
    exact (hmem hj).2.2
  · intro j l hj hl hno
    rw [hqueue] at hno
    rcases eq_or_ne j i with rfl | hji
    · rw [hself] at hj hl ⊢
      exact hembryo l hj hl hno
    · rw [hother hji] at hj hl ⊢
      exact h.embryo j l hj hl hno

theorem process (h : Linked T) {t : Tcb} (hentry : t.entry = (T.tcbs i).entry)
    (hsettled : ∀ l, i ∈ (T.tcbs l).acceptq → Settled t)
    (hembryo : ∀ l, (T.tcbs i).active = true → (T.tcbs i).listener = some l →
      i ∉ (T.tcbs l).acceptq → Embryonic t) : Linked (T.setTcb i t) := by
  have hact : t.active = (T.tcbs i).active := congrArg Entry.active hentry
  have hlis : t.listener = (T.tcbs i).listener := congrArg Entry.listener hentry
  refine h.setTcb (congrArg Entry.acceptq hentry) (fun l hi => ?_) (fun s hs => ?_) ?_
  · rw [hact, hlis]
    exact ⟨(h.queue l i hi).1, (h.queue l i hi).2, hsettled l hi⟩
  · rw [hact, Tcb.sockIdx_of_entry hentry]
    exact h.sock s i hs
  · rw [hact, hlis]
    exact hembryo

theorem opened (h : Linked T) (ok : ListenersOk T.entries) (hidle : (T.tcbs i).active = false)
    {t : Tcb} (hq : t.acceptq = []) (hembryo : t.listener ≠ none → Embryonic t) :
    Linked (T.setTcb i t) := by
  have hunused : ¬ (T.tcbs i).active = true := by
    rw [hidle]
    exact Bool.false_ne_true
  have hnil : (T.tcbs i).acceptq = [] := by
    refine List.eq_nil_iff_forall_not_mem.mpr fun j hj => hunused ?_
    exact (ok.listener j i (h.queue i j hj).1 (h.queue i j hj).2).1
  refine h.setTcb (hq.trans hnil.symm) (fun l hi => ?_) (fun s hs => ?_) fun l _ hl _ => ?_
  · exact absurd (h.queue l i hi).1 hunused
  · exact absurd (h.sock s i hs).1 hunused
  · exact hembryo (by rw [hl]; exact Option.some_ne_none l)

theorem setSock (h : Linked T) {s : SockIdx} {x : PfSock}
    (hx : ∀ i, x.tcb = some i → (T.tcbs i).active = true ∧ (T.tcbs i).sockIdx = some s) :
    Linked (T.setSock s x) := by
  refine ⟨h.nodup, h.queue, ?_, h.settled, h.embryo⟩
  intro s' j hj
  change (update T.socks s x s').tcb = some j at hj
  rcases eq_or_ne s' s with rfl | hs
  · rw [update_self] at hj
    exact hx j hj
  · rw [update_of_ne hs] at hj
    exact h.sock s' j hj

theorem free (h : Linked T) (ok : ListenersOk T.entries) (hno : ∀ l, i ∉ (T.tcbs l).acceptq)
    (err : PfErr) : Linked (T.free i err) := by
  have hgone {j : TcbIdx} (hj : T.Goes i j) : (T.free i err).tcbs j = Tcb.zero := if_pos hj
  have hstays {j : TcbIdx} (hj : ¬ T.Goes i j) : (T.free i err).tcbs j = T.tcbs j := if_neg hj
  have hmem {l j : TcbIdx} (hj : j ∈ ((T.free i err).tcbs l).acceptq) :
      ¬ T.Goes i l ∧ j ∈ (T.tcbs l).acceptq := by
    by_cases hl : T.Goes i l
    · rw [hgone hl] at hj
      cases hj
    · rw [hstays hl] at hj
      exact ⟨hl, hj⟩
  -- what waits in a queue that stays, stays
  have hwaits {l j : TcbIdx} (hl : ¬ T.Goes i l) (hj : j ∈ (T.tcbs l).acceptq) : ¬ T.Goes i j := by
    rintro (rfl | ⟨-, -, hchild⟩)
    · exact hno l hj
    · rw [(h.queue l j hj).2] at hchild
      cases hchild
      exact hl (Or.inl rfl)
  refine ⟨?_, ?_, ?_, ?_, ?_⟩
  · intro l
    by_cases hl : T.Goes i l
    · rw [hgone hl]
      exact List.nodup_nil
    · rw [hstays hl]
      exact h.nodup l
  · intro l j hj
    obtain ⟨hl, hj⟩ := hmem hj
    rw [hstays (hwaits hl hj)]
    exact h.queue l j hj
  · intro s j hj
    change (if (T.tcbs i).sockIdx = some s then { T.socks s with tcb := none, err := err }
      else T.socks s).tcb = some j at hj
    split at hj
    · cases hj
    rename_i hsock
    have hlink := h.sock s j hj
    have hj : ¬ T.Goes i j := by
      rintro (rfl | ⟨-, -, hchild⟩)
      · exact hsock hlink.2
      · have hnone := (h.owned ok hj).1
        rw [hchild] at hnone
        cases hnone
    rw [hstays hj]
    exact hlink
  · intro l j hj
    obtain ⟨hl, hj⟩ := hmem hj
    rw [hstays (hwaits hl hj)]
    exact h.settled l j hj
  · intro j l hj hl hnq
    by_cases hjg : T.Goes i j
    · rw [hgone hjg] at hj
      cases hj
    rw [hstays hjg] at hj hl ⊢
    have hlist := ok.listener j l hj hl
    have hlg : ¬ T.Goes i l := by
      rintro (rfl | ⟨-, -, hchild⟩)
      · exact hjg (Or.inr ⟨(Tcb.entry_listening _).mp hlist.2, hj, hl⟩)
      · exact ok.not_child hj hl hchild
    rw [hstays hlg] at hnq
    exact h.embryo j l hj hl hnq

theorem push (h : Linked T) (ok : ListenersOk T.entries) {l : TcbIdx} {t : Tcb}
    (hentry : t.entry = (T.tcbs i).entry) (hact : (T.tcbs i).active = true)
    (hl : (T.tcbs i).listener = some l) (hno : i ∉ (T.tcbs l).acceptq) (ht : Settled t) :
    Linked ((T.setTcb i t).push l i) := by
  have hli : l ≠ i := by
    rintro rfl
    exact ok.not_child hact hl hl
  have hset (j : TcbIdx) : ((T.setTcb i t).tcbs j).entry = (T.tcbs j).entry :=
    congrFun (Tables.entries_same hentry) j
  have hself : ((T.setTcb i t).push l i).tcbs l =
      { (T.setTcb i t).tcbs l with acceptq := ((T.setTcb i t).tcbs l).acceptq ++ [i] } :=
    update_self _ _ _
  have hother {j : TcbIdx} (hj : j ≠ l) :
      ((T.setTcb i t).push l i).tcbs j = (T.setTcb i t).tcbs j := update_of_ne hj _ _
  have hqueue : (((T.setTcb i t).push l i).tcbs l).acceptq = (T.tcbs l).acceptq ++ [i] := by
    rw [hself]
    exact congrArg (· ++ [i]) (congrArg Entry.acceptq (hset l))
  have hqueue_of_ne {j : TcbIdx} (hj : j ≠ l) :
      (((T.setTcb i t).push l i).tcbs j).acceptq = (T.tcbs j).acceptq := by
    rw [hother hj]
    exact congrArg Entry.acceptq (hset j)
  have hlinks (j : TcbIdx) : (((T.setTcb i t).push l i).tcbs j).active = (T.tcbs j).active ∧
      (((T.setTcb i t).push l i).tcbs j).listener = (T.tcbs j).listener ∧
      (((T.setTcb i t).push l i).tcbs j).sockIdx = (T.tcbs j).sockIdx := by
    have hj := hset j
    rcases eq_or_ne j l with rfl | hjl
    · rw [hself]
      exact ⟨congrArg Entry.active hj, congrArg Entry.listener hj, congrArg Entry.sockIdx hj⟩
    · rw [hother hjl]
      exact ⟨congrArg Entry.active hj, congrArg Entry.listener hj, congrArg Entry.sockIdx hj⟩
  have hmem {m j : TcbIdx} (hj : j ∈ (((T.setTcb i t).push l i).tcbs m).acceptq) :
      j ∈ (T.tcbs m).acceptq ∨ (m = l ∧ j = i) := by
    rcases eq_or_ne m l with rfl | hm
    · rw [hqueue] at hj
      rcases List.mem_append.mp hj with hj | hj
      · exact Or.inl hj
      · exact Or.inr ⟨rfl, List.mem_singleton.mp hj⟩
    · rw [hqueue_of_ne hm] at hj
      exact Or.inl hj
  have hchild {j : TcbIdx} (hj : j ≠ l) (hji : j ≠ i) :
      ((T.setTcb i t).push l i).tcbs j = T.tcbs j := by
    rw [hother hj]
    exact update_of_ne hji _ _
  -- the listener itself is nobody's child
  have hnot {j m : TcbIdx} (hm : (T.tcbs j).listener = some m) : j ≠ l := by
    rintro rfl
    exact ok.not_child hact hl hm
  have hat : ((T.setTcb i t).push l i).tcbs i = t := by
    rw [hother (Ne.symm hli)]
    exact update_self _ _ _
  refine ⟨?_, ?_, ?_, ?_, ?_⟩
  · intro m
    rcases eq_or_ne m l with rfl | hm
    · rw [hqueue]
      exact List.nodup_append.mpr ⟨h.nodup m, List.nodup_singleton i, by
        rintro a ha b hb rfl
        exact hno (List.mem_singleton.mp hb ▸ ha)⟩
    · rw [hqueue_of_ne hm]
      exact h.nodup m
  · intro m j hj
    rw [(hlinks j).1, (hlinks j).2.1]
    rcases hmem hj with hj | ⟨rfl, rfl⟩
    · exact h.queue m j hj
    · exact ⟨hact, hl⟩
  · intro s j hj
    rw [(hlinks j).1, (hlinks j).2.2]
    exact h.sock s j hj
  · intro m j hj
    rcases eq_or_ne j i with rfl | hji
    · rw [hat]
      exact ht
    · rcases hmem hj with hj | ⟨-, hj⟩
      · have hlink := h.queue m j hj
        rw [hchild (hnot hlink.2) hji]
        exact h.settled m j hj
      · exact absurd hj hji
  · intro j m hj hm hnq
    rw [(hlinks j).1] at hj
    rw [(hlinks j).2.1] at hm
    have hji : j ≠ i := by
      rintro rfl
      rw [hl] at hm
      cases hm
      rw [hqueue] at hnq
      exact hnq (List.mem_append_right _ (List.mem_singleton_self _))
    rw [hchild (hnot hm) hji]
    refine h.embryo j m hj hm fun hq => hnq ?_
    rcases eq_or_ne m l with rfl | hml
    · rw [hqueue]
      exact List.mem_append_left _ hq
    · rw [hqueue_of_ne hml]
      exact hq

/-- The first block of a queue leaves it, and is nobody's child then. -/
theorem unqueue (h : Linked T) {l child : TcbIdx} {rest : List TcbIdx}
    (hq : (T.tcbs l).acceptq = child :: rest) (hne : child ≠ l) :
    Linked (T.unqueue l child rest) := by
  have hself : (T.unqueue l child rest).tcbs child = { T.tcbs child with listener := none } := by
    have hpop : (T.pop l rest).tcbs child = T.tcbs child := update_of_ne hne _ _
    rw [← hpop]
    exact update_self _ _ _
  have hother {j : TcbIdx} (hj : j ≠ child) : (T.unqueue l child rest).tcbs j =
      (T.pop l rest).tcbs j := update_of_ne hj _ _
  have hpop {j : TcbIdx} (hj : j ≠ l) : (T.pop l rest).tcbs j = T.tcbs j :=
    update_of_ne hj _ _
  have hlist : (T.pop l rest).tcbs l = { T.tcbs l with acceptq := rest } :=
    update_self _ _ _
  have hfresh : child ∉ rest ∧ rest.Nodup := List.nodup_cons.mp (hq ▸ h.nodup l)
  have hqueue : ((T.unqueue l child rest).tcbs l).acceptq = rest := by
    rw [hother (Ne.symm hne), hlist]
  have hqueue_of_ne {m : TcbIdx} (hm : m ≠ l) :
      ((T.unqueue l child rest).tcbs m).acceptq = (T.tcbs m).acceptq := by
    rcases eq_or_ne m child with rfl | hmc
    · rw [hself]
    · rw [hother hmc, hpop hm]
  have hchild : (T.tcbs child).listener = some l :=
    (h.queue l child (hq ▸ List.mem_cons_self)).2
  -- what is still in a queue was there before and is another block
  have hmem {m j : TcbIdx} (hj : j ∈ ((T.unqueue l child rest).tcbs m).acceptq) :
      j ≠ child ∧ j ∈ (T.tcbs m).acceptq := by
    rcases eq_or_ne m l with rfl | hm
    · rw [hqueue] at hj
      refine ⟨?_, hq ▸ List.mem_cons_of_mem _ hj⟩
      rintro rfl
      exact hfresh.1 hj
    · rw [hqueue_of_ne hm] at hj
      refine ⟨?_, hj⟩
      rintro rfl
      have hlink := (h.queue m j hj).2
      rw [hchild] at hlink
      exact hm (Option.some.inj hlink).symm
  have hkeeps {j : TcbIdx} (hj : j ≠ child) :
      ((T.unqueue l child rest).tcbs j).active = (T.tcbs j).active ∧
      ((T.unqueue l child rest).tcbs j).listener = (T.tcbs j).listener ∧
      (Settled (T.tcbs j) → Settled ((T.unqueue l child rest).tcbs j)) ∧
      (Embryonic (T.tcbs j) → Embryonic ((T.unqueue l child rest).tcbs j)) := by
    rw [hother hj]
    rcases eq_or_ne j l with rfl | hjl
    · rw [hlist]
      exact ⟨rfl, rfl, fun hs => ⟨hs.state, hs.len, hs.finQueued, hs.finSent, hs.idle, hs.timer⟩,
        fun hs => ⟨hs.state, hs.len, hs.finQueued, hs.finSent, hs.syn⟩⟩
    · rw [hpop hjl]
      exact ⟨rfl, rfl, id, id⟩
  have howner (j : TcbIdx) : ((T.unqueue l child rest).tcbs j).active = (T.tcbs j).active ∧
      ((T.unqueue l child rest).tcbs j).sockIdx = (T.tcbs j).sockIdx := by
    rcases eq_or_ne j child with rfl | hj
    · rw [hself]
      exact ⟨rfl, rfl⟩
    · refine ⟨(hkeeps hj).1, ?_⟩
      rw [hother hj]
      rcases eq_or_ne j l with rfl | hjl
      · rw [hlist]
      · rw [hpop hjl]
  refine ⟨?_, ?_, ?_, ?_, ?_⟩
  · intro m
    rcases eq_or_ne m l with rfl | hm
    · rw [hqueue]
      exact hfresh.2
    · rw [hqueue_of_ne hm]
      exact h.nodup m
  · intro m j hj
    obtain ⟨hjc, hj⟩ := hmem hj
    rw [(hkeeps hjc).1, (hkeeps hjc).2.1]
    exact h.queue m j hj
  · intro s j hj
    rw [(howner j).1, (howner j).2]
    exact h.sock s j hj
  · intro m j hj
    obtain ⟨hjc, hj⟩ := hmem hj
    exact (hkeeps hjc).2.2.1 (h.settled m j hj)
  · intro j m hj hm hno
    have hjc : j ≠ child := by
      rintro rfl
      rw [hself] at hm
      cases hm
    rw [(hkeeps hjc).1] at hj
    rw [(hkeeps hjc).2.1] at hm
    refine (hkeeps hjc).2.2.2 (h.embryo j m hj hm fun hjq => hno ?_)
    rcases eq_or_ne m l with rfl | hml
    · rw [hqueue]
      exact (List.mem_cons.mp (hq ▸ hjq)).resolve_left hjc
    · rw [hqueue_of_ne hml]
      exact hjq

theorem child_ne (h : Linked T) (ok : ListenersOk T.entries) {l child : TcbIdx} {rest : List TcbIdx}
    (hq : (T.tcbs l).acceptq = child :: rest) : child ≠ l := by
  rintro rfl
  have hlink := h.queue child child (hq ▸ List.mem_cons_self)
  exact ok.not_child hlink.1 hlink.2 hlink.2

/-- A block that is nobody's child and that no socket names changes its owner. -/
theorem setOwner (h : Linked T) (hnone : (T.tcbs i).listener = none)
    (hfree : ∀ s, (T.socks s).tcb ≠ some i) (o : Option SockIdx) :
    Linked (T.setTcb i { T.tcbs i with sockIdx := o }) := by
  refine h.setTcb rfl (fun l hi => absurd hi (h.not_queued hnone l))
    (fun s hs => absurd hs (hfree s)) fun l _ hl _ => ?_
  change (T.tcbs i).listener = some l at hl
  rw [hnone] at hl
  cases hl

theorem letGo (h : Linked T) (ok : ListenersOk T.entries) {s : SockIdx}
    (hs : (T.socks s).tcb = some i) : Linked (T.letGo s i) := by
  have hsock : Linked (T.setSock s { T.socks s with tcb := none }) := h.setSock nofun
  refine hsock.setOwner (h.owned ok hs).1 ?_ none
  intro s' hs'
  change (update T.socks s _ s').tcb = some i at hs'
  rcases eq_or_ne s' s with rfl | hss
  · rw [update_self] at hs'
    cases hs'
  · rw [update_of_ne hss] at hs'
    have hlink := (h.sock s' i hs').2
    rw [(h.sock s i hs).2] at hlink
    exact hss (Option.some.inj hlink).symm

theorem accept (h : Linked T) (ok : ListenersOk T.entries) {l child : TcbIdx} {rest : List TcbIdx}
    (hq : (T.tcbs l).acceptq = child :: rest) {s : SockIdx} {x : PfSock} (hx : x.tcb = some child) :
    Linked ((T.pop l rest).attach child s x) := by
  have hlink := h.queue l child (hq ▸ List.mem_cons_self)
  have hun := h.unqueue hq (h.child_ne ok hq)
  have hself : (T.unqueue l child rest).tcbs child =
      { (T.pop l rest).tcbs child with listener := none } := update_self _ _ _
  have hnone : ((T.unqueue l child rest).tcbs child).listener = none := by rw [hself]
  -- no socket owned the child
  have hfree (s' : SockIdx) : ((T.unqueue l child rest).socks s').tcb ≠ some child := by
    intro hs
    have hlis := (h.owned ok hs).1
    rw [hlink.2] at hlis
    cases hlis
  have hset : Linked ((T.unqueue l child rest).setTcb child
      { (T.unqueue l child rest).tcbs child with sockIdx := some s }) :=
    hun.setOwner hnone hfree _
  have heq : (T.pop l rest).attach child s x =
      ((T.unqueue l child rest).setTcb child
        { (T.unqueue l child rest).tcbs child with sockIdx := some s }).setSock s x := by
    rw [hself]
    unfold Tables.attach Tables.unqueue Tables.setTcb Tables.setSock
    simp only [update_idem]
  rw [heq]
  refine hset.setSock ?_
  intro i hi
  rw [hx] at hi
  cases hi
  have hat : ((T.unqueue l child rest).setTcb child
      { (T.unqueue l child rest).tcbs child with sockIdx := some s }).tcbs child =
      { (T.unqueue l child rest).tcbs child with sockIdx := some s } := update_self _ _ _
  have hpop : (T.pop l rest).tcbs child = T.tcbs child :=
    update_of_ne (h.child_ne ok hq) _ _
  rw [hat, hself, hpop]
  exact ⟨hlink.1, rfl⟩

theorem drop (h : Linked T) (ok : ListenersOk T.entries) {l child : TcbIdx} {rest : List TcbIdx}
    (hq : (T.tcbs l).acceptq = child :: rest) : Linked ((T.pop l rest).free child .none) := by
  have hne := h.child_ne ok hq
  have hlink := h.queue l child (hq ▸ List.mem_cons_self)
  have hun := h.unqueue hq hne
  have hoku : ListenersOk (T.unqueue l child rest).entries := by
    rw [Tables.unqueue, Tables.entries_setTcb]
    exact (ok.pop hq).update rfl rfl (Or.inl rfl) ((ok.pop hq).queue child)
  have hpop : (T.pop l rest).tcbs child = T.tcbs child := update_of_ne hne _ _
  have hself : (T.unqueue l child rest).tcbs child =
      { (T.pop l rest).tcbs child with listener := none } := update_self _ _ _
  have hno := hun.not_queued (i := child) (by rw [hself])
  -- the child has no children, so only its own slot is cleared
  have hleaf : (T.tcbs child).state ≠ .listen :=
    (h.settled l child (hq ▸ List.mem_cons_self)).ne_listen
  have heq : (T.pop l rest).free child .none = (T.unqueue l child rest).free child .none := by
    have hgoes (S : Tables) (hS : (S.tcbs child).state ≠ .listen) (j : TcbIdx) :
        S.Goes child j ↔ j = child := by
      refine ⟨?_, Or.inl⟩
      rintro (hj | ⟨hst, -⟩)
      · exact hj
      · exact absurd hst hS
    have hpopped := hgoes (T.pop l rest) (by rw [hpop]; exact hleaf)
    have hunqueued := hgoes (T.unqueue l child rest) (by rw [hself, hpop]; exact hleaf)
    unfold Tables.free
    congr 1
    · funext j
      simp only [hpopped, hunqueued]
      split
      · rfl
      · rename_i hj
        exact (update_of_ne hj _ _).symm
    · rw [hself]
      rfl
  rw [heq]
  exact hun.free hoku hno .none

end Linked

end PacketForge
