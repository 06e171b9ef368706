import PacketForge.Lib.Duplex
import PacketForge.Tcp.Talk

/-!
A connection as one party of a dialogue. Sequence numbers become positions that
do not wrap: `snd_una` is the base of what the party sends, `snd_nxt` the end of
what it has used, `rcv_nxt` the end of what it has taken, and every segment is a
message that lies between them. So an event is a turn of the dialogue, whatever
the event is, as long as the block stays in use and keeps nothing out that arrives.
-/

namespace PacketForge

open Duplex (Item Party Spoken Turn heardTo items)
open SeqSpace (pos)

/-! ### Segments as messages -/

/-- The segment is the message `i` of a sender with the given ISS. -/
structure Shown (iss peer : UInt32) (g : Seg) (i : Item) : Prop where
  rst : g.has tcpRst = false
  seq : g.seq = pos iss i.first
  stop : i.stop = i.first + g.span
  last : g.PureAck → i.last = true
  bits : g.has tcpAck = true ∨ g.has tcpSyn = true
  syn : g.has tcpSyn = true → i.first = 0 ∧ g.span = 1
  flag : i.ack.isSome = g.has tcpAck
  ack : ∀ a ∈ i.ack, 1 ≤ a ∧ g.ack = pos peer a

/-- A reset is no message. -/
def Shows (iss peer : UInt32) (g : Seg) : Option Item → Prop
  | none => g.has tcpRst = true ∧ g.has tcpSyn = false
  | some i => Shown iss peer g i

/-- Segments that acknowledge nothing do not depend on the peer. -/
theorem shows_repeer {iss peer peer' : UInt32} {gs : List Seg} {out : List (Option Item)}
    (h : List.Forall₂ (Shows iss peer) gs out) (hnone : ∀ i ∈ items out, ∀ a ∈ i.ack, a = 0) :
    List.Forall₂ (Shows iss peer') gs out := by
  induction h with
  | nil => exact .nil
  | @cons g x gs out hshow _ ih =>
    refine .cons ?_ (ih fun i hi => hnone i ?_)
    · cases x with
      | none => exact hshow
      | some i =>
        refine ⟨hshow.rst, hshow.seq, hshow.stop, hshow.last, hshow.bits, hshow.syn, hshow.flag, ?_⟩
        intro a ha
        have hpos := (hshow.ack a ha).1
        have hzero := hnone i (Duplex.mem_items.mpr List.mem_cons_self) a ha
        omega
    · rw [Duplex.mem_items] at hi ⊢
      exact List.mem_cons_of_mem _ hi

/-! ### In the middle of an event -/

/-- What a connection has said and taken so far in an event, from the party `p`
on. -/
structure Talking (e : ConnEvent) (iss peer : UInt32) (p : Party) (v : TalkView) (b u t : Nat)
    (out : List (Option Item)) : Prop where
  spoken : Spoken 65536 p b u t out
  le : b ≤ u
  own : v.iss = iss
  una : v.una = pos iss b
  nxt : v.nxt = pos iss u
  opening : v.state = .synSent ∨ v.state = .synRcvd → b = 0
  unheard : v.state = .synSent → t = 0
  rcv : v.state ≠ .synSent → 1 ≤ t ∧ v.rcv = pos peer t
  base : b = p.base ∨ p.base ≤ b ∧ b ≤ p.used ∧ ∃ g, e.seg = some g ∧ v.una = g.ack
  quiet : e.seg = none → t = p.taken
  growth : e.seg ≠ none → t + v.room ≤ p.taken + 65537
  shows : List.Forall₂ (Shows iss peer) v.out out

namespace Talking

variable {e : ConnEvent} {iss peer : UInt32} {p : Party} {v w : TalkView} {b u t : Nat}
  {out : List (Option Item)}

theorem nxt_sub_una (h : Talking e iss peer p v b u t out) : (v.nxt - v.una).toNat = u - b := by
  have hflight := h.spoken.flight
  rw [h.nxt, h.una]
  exact SeqSpace.pos_sub_toNat _ h.le (by omega)

theorem base_le (h : Talking e iss peer p v b u t out) : p.base ≤ b := by
  rcases h.base with hsame | hmoved
  · exact Nat.le_of_eq hsame.symm
  · exact hmoved.1

theorem eq_pos (h : Talking e iss peer p v b u t out) (x : UInt32) :
    x = pos iss (b + (x - v.una).toNat) := by
  rw [← SeqSpace.pos_pos, ← h.una]
  exact SeqSpace.eq_pos x v.una

def item (v : TalkView) (b t : Nat) (g : Seg) : Item where
  first := b + (g.seq - v.una).toNat
  stop := b + (g.seq - v.una).toNat + g.span
  ack := if g.has tcpAck then some t else none
  last := decide g.PureAck

theorem shown (h : Talking e iss peer p v b u t out) {g : Seg} {n : UInt32} (hg : v.Says g n) :
    Shown iss peer g (item v b t g) := by
  refine ⟨hg.rst, h.eq_pos g.seq, rfl, decide_eq_true, hg.flag, ?_, ?_, ?_⟩
  · intro hsyn
    obtain ⟨hopen, hseq, hspan⟩ := hg.syn hsyn
    have hb := h.opening hopen
    have huna := h.una
    rw [hb, SeqSpace.pos_zero] at huna
    refine ⟨?_, hspan⟩
    change b + (g.seq - v.una).toNat = 0
    rw [hb, huna, hseq, h.own, UInt32.sub_self]
    rfl
  · cases hack : g.has tcpAck <;> simp [item, hack]
  · intro a ha
    cases hack : g.has tcpAck with
    | false => simp [item, hack] at ha
    | true =>
      have hta : t = a := by simpa [item, hack] using ha
      obtain ⟨hsent, heq⟩ := hg.ack hack
      obtain ⟨hpos, hrcv⟩ := h.rcv hsent
      rw [← hta, heq]
      exact ⟨hpos, hrcv⟩

theorem say (h : Talking e iss peer p v b u t out) {g : Seg} {n : UInt32} (hg : v.Says g n) :
    Talking e iss peer p { v with nxt := v.nxt + n, out := v.out ++ [g] } b (u + n.toNat) t
      (out ++ [some (item v b t g)]) := by
  have hsub := h.nxt_sub_una
  have hle := h.le
  have hfit := hg.fit
  have hflight := h.spoken.flight
  set x := b + (g.seq - v.una).toNat with hx
  have hplace : x ≤ u ∧ u + n.toNat = max u (x + g.span) := by
    rcases hg.span with ⟨rfl, hin⟩ | ⟨hseq, hnew⟩
    · have hzero : (0 : UInt32).toNat = 0 := rfl
      omega
    · rw [hseq] at hx
      omega
  have hmeets : (item v b t g).Meets 65536 u := by
    refine ⟨hplace.1, Nat.le_add_right _ _, ?_, ?_⟩
    · change u ≤ x + 65536
      omega
    · intro hlast
      have hseq := hg.pure (of_decide_eq_true hlast)
      change x = u
      rw [hx, hseq]
      omega
  have hspoken : Spoken 65536 p b (u + n.toNat) t (out ++ [some (item v b t g)]) := by
    refine h.spoken.say hplace.2 (by omega) hmeets ?_
    intro a ha
    cases hack : g.has tcpAck <;> simp [item, hack] at ha
    exact ha.symm
  have hnxt : v.nxt + n = pos iss (u + n.toNat) := by
    rw [h.nxt, ← SeqSpace.pos_add, UInt32.ofNat_toNat]
  exact
    { spoken := hspoken
      le := Nat.le_trans hle (Nat.le_add_right _ _)
      own := h.own
      una := h.una
      nxt := hnxt
      opening := h.opening
      unheard := h.unheard
      rcv := h.rcv
      base := h.base
      quiet := h.quiet
      growth := h.growth
      shows := List.rel_append h.shows (List.Forall₂.cons (h.shown hg) List.Forall₂.nil) }

theorem move (h : Talking e iss peer p v b u t out) (hm : TalkMove v w) :
    ∃ u' out', Talking e iss peer p w b u' t out' := by
  cases hm with
  | say g n hg => exact ⟨_, _, h.say hg⟩
  | reset g hrst hsyn =>
    exact ⟨u, out ++ [none],
      { h with
        spoken := h.spoken.mute
        shows := List.rel_append h.shows (List.Forall₂.cons ⟨hrst, hsyn⟩ List.Forall₂.nil) }⟩
  | state st hst hst' =>
    refine ⟨u, out,
      { h with
        opening := fun hopen => ?_
        unheard := fun hs => absurd hs hst'.1
        rcv := fun _ => h.rcv hst }⟩
    rcases hopen with hs | hs
    · exact absurd hs hst'.1
    · exact absurd hs hst'.2

theorem moves (h : Talking e iss peer p v b u t out) (hm : TalkMoves v w) :
    ∃ u' out', Talking e iss peer p w b u' t out' := by
  induction hm with
  | refl => exact ⟨u, out, h⟩
  | tail _ hlast ih =>
    obtain ⟨u', out', h'⟩ := ih
    exact h'.move hlast

theorem acked (h : Talking e iss peer p v b u t out) {g : Seg} (hg : e.seg = some g)
    (hout : v.out = []) (hle : (g.ack - v.una).toNat ≤ (v.nxt - v.una).toNat) {st : TcpState}
    (hst : v.state ≠ .synSent) (hst' : st ≠ .synSent ∧ st ≠ .synRcvd) :
    Talking e iss peer p { v with una := g.ack, state := st } (b + (g.ack - v.una).toNat) u t
      [] := by
  have hnil : out = [] := by
    have hshows := h.shows
    rw [hout] at hshows
    exact List.forall₂_nil_left_iff.mp hshows
  subst hnil
  have hsub := h.nxt_sub_una
  have hbu := h.le
  have hbase := h.base_le
  have hused : p.used = u := h.spoken.chain
  exact
    { spoken := h.spoken.acked (Nat.le_add_right _ _)
      le := by omega
      own := h.own
      una := h.eq_pos g.ack
      nxt := h.nxt
      opening := fun hopen => (hopen.elim hst'.1 hst'.2).elim
      unheard := fun hs => absurd hs hst'.1
      rcv := fun _ => h.rcv hst
      base := Or.inr ⟨by omega, by omega, g, hg, rfl⟩
      quiet := h.quiet
      growth := h.growth
      shows := by
        change List.Forall₂ _ v.out []
        rw [hout]
        exact List.Forall₂.nil }

theorem hearsSyn (h : Talking e iss peer p v b u t out) {g : Seg} (hg : e.seg = some g)
    (hpeer : g.seq = peer) (hst : v.state = .synSent) {room : Nat} (hroom : room + 1 = v.room) :
    Talking e iss peer p
      { v with state := .synRcvd, rcv := g.seq + 1, room := room } b u 1 out := by
  have hseg : e.seg ≠ none := by simp [hg]
  have ht := h.unheard hst
  have hgrowth := h.growth hseg
  exact
    { h with
      spoken := h.spoken.take (by omega)
      opening := fun _ => h.opening (Or.inl hst)
      unheard := fun hs => TcpState.noConfusion hs
      rcv := fun _ => ⟨Nat.le_refl 1, by rw [hpeer]; rfl⟩
      quiet := fun hno => absurd hno hseg
      growth := fun _ => by
        change 1 + room ≤ p.taken + 65537
        omega }

theorem take (h : Talking e iss peer p v b u t out) {g : Seg} (hg : e.seg = some g)
    (hst : v.state ≠ .synSent) {k : UInt32} {room : Nat} (hroom : k.toNat + room ≤ v.room) :
    Talking e iss peer p { v with rcv := v.rcv + k, room := room } b u (t + k.toNat) out := by
  have hseg : e.seg ≠ none := by simp [hg]
  have hgrowth := h.growth hseg
  obtain ⟨hpos, hrcv⟩ := h.rcv hst
  exact
    { h with
      spoken := h.spoken.take (Nat.le_add_right _ _)
      unheard := fun hs => absurd hs hst
      rcv := fun _ => by
        refine ⟨by omega, ?_⟩
        change v.rcv + k = _
        rw [hrcv, ← SeqSpace.pos_add, UInt32.ofNat_toNat]
      quiet := fun hno => absurd hno hseg
      growth := fun _ => by
        change t + k.toNat + room ≤ p.taken + 65537
        omega }

theorem stage {c d : Conn} (h : Talking e iss peer p c.talk b u t out) (hs : TalkStage e c d)
    (hpeer : ∀ g, e.seg = some g → p.taken = 0 → g.seq = peer) :
    ∃ b' u' t' out', Talking e iss peer p d.talk b' u' t' out' := by
  have hgo {v : TalkView} {b u t : Nat} {out : List (Option Item)}
      (h : Talking e iss peer p v b u t out) (hm : TalkMoves v d.talk) :
      ∃ b' u' t' out', Talking e iss peer p d.talk b' u' t' out' := by
    obtain ⟨u', out', h'⟩ := h.moves hm
    exact ⟨b, u', t, out', h'⟩
  cases hs with
  | quiet hm => exact hgo h hm
  | acked g hg hout hst hle st hst' hm => exact hgo (h.acked hg hout hle hst hst') hm
  | syn g hg hst una st room huna hroom hm =>
    have ht : t = 0 := h.unheard hst
    have htaken := h.spoken.taken
    have hsyn := h.hearsSyn hg (hpeer g hg (by omega)) hst hroom
    rcases huna with ⟨rfl, rfl⟩ | ⟨rfl, rfl, hout, hle⟩
    · exact hgo hsyn hm
    · exact hgo (hsyn.acked hg hout hle TcpState.noConfusion
        ⟨TcpState.noConfusion, TcpState.noConfusion⟩) hm
  | take g hg hst k room hroom hm => exact hgo (h.take hg hst hroom) hm
  | read he room hm =>
    exact hgo (v := { c.talk with room := room })
      { h with growth := fun hno => absurd he hno } hm

end Talking

theorem AckHist.Ok.len_le {h : AckHist} {e : ConnEvent} {v : AckView} (hok : h.Ok e v) :
    v.len.toNat ≤ 65535 := by
  rcases hok with ⟨hblank, -⟩ | ⟨last, -, hl, -⟩
  · rw [hblank.len]
    exact Nat.zero_le _
  · exact hl.len_le

theorem Talking.event {e : ConnEvent} {iss peer : UInt32} {p : Party} {h : AckHist}
    (hsettled : h.Settled) (hclock : Clocked h.conn.tcb)
    (hstart :
      Talking e iss peer p (Conn.start h.conn.tcb h.conn.stats).talk p.base p.used p.taken [])
    (hpeer : ∀ g, e.seg = some g → p.taken = 0 → g.seq = peer)
    (hend : (connHandle (Conn.start h.conn.tcb h.conn.stats) e).fate = .alive) :
    ∃ b u t out, Talking e iss peer p
      (connHandle (Conn.start h.conn.tcb h.conn.stats) e).talk b u t out := by
  refine (hclock.keeps (P := fun c => Armed c.tcb.clock ∧ h.Ok e c.acks ∧
    ∃ b u t out, Talking e iss peer p c.talk b u t out) ?_
    ⟨hclock.armed, hsettled e, _, _, _, _, hstart⟩ hend).2.2.2
  rintro c d hs hf ⟨harmed, hok, b, u, t, out, htalk⟩
  exact ⟨hs.armed hf harmed, hok.act hs,
    htalk.stage (hs.talk hf harmed.mss hok.blank hok.len_le) hpeer⟩

/-! ### `snd_una` -/

/-- Only a segment with the ACK flag, and no reset, moves `snd_una`. -/
theorem tcpInputConn_una (now : Nat) (lroom : Option Bool) {g : Seg} (c : Conn)
    (h : g.has tcpRst = true ∨ g.has tcpAck = false) :
    (tcpInputConn now lroom g c).tcb.sndUna = c.tcb.sndUna := by
  have hsame {d x : Conn} (hd : d.noRecv = x.noRecv) : d.tcb.sndUna = x.tcb.sndUna := by
    have hview : d.noRecv.tcb.sndUna = x.noRecv.tcb.sndUna := by rw [hd]
    exact hview
  have hctl (x : Conn) (flags : UInt8) : (tcpSendCtl x flags).tcb.sndUna = x.tcb.sndUna :=
    hsame (tcpSendCtl_noRecv x flags)
  unfold tcpInputConn
  split
  · unfold tcpInputSynSent
    split
    · split
      · rfl
      · exact hsame (tcpSendResetFor_noRecv c g)
    split
    · split <;> rfl
    rename_i hrst
    split
    · have hack : g.has tcpAck = false := h.resolve_left hrst
      have hsyn : (tcpTakeSyn g c).tcb.sndUna = c.tcb.sndUna :=
        congrArg SendView.una (tcpTakeSyn_send g c)
      have harm (x : Conn) : (tcpArmRto x.tcb now).sndUna = x.tcb.sndUna := by
        unfold tcpArmRto
        split <;> rfl
      simp only [tcpSynSentSyn, hack, Bool.false_eq_true, if_false]
      split
      · exact (hctl _ _).trans hsyn
      · simp only [tcpSimultaneousOpen]
        exact (harm _).trans ((hctl _ _).trans hsyn)
    · rfl
  split
  · simp only
    split
    · rfl
    · exact hctl _ _
  split
  · unfold tcpInputRst
    simp only
    split
    · split <;> rfl
    · exact hctl _ _
  rename_i hrst
  have hack : g.has tcpAck = false := h.resolve_left hrst
  split
  · exact hctl _ _
  · rw [hack, if_pos (by decide)]

/-! ### Between events -/

/-- From where on a receiver keeps out what arrives: the end of its window, or `rcv_nxt`
in a state that takes neither text nor FIN. -/
def keptFrom (t : Tcb) : UInt32 :=
  if t.state.takesData || t.state = .synRcvd then rcvWndEnd t else t.rcvNxt

/-- The segment carries text, a SYN or a FIN beyond that. SYN_SENT takes a SYN and
nothing else. -/
def keepsOut (t : Tcb) (g : Seg) : Bool :=
  !g.has tcpRst && g.span ≠ 0 &&
    if t.state = .synSent then !g.has tcpSyn else seqGt (g.seq + g.seqlen) (keptFrom t)

/-- A live connection whose sequence numbers are those of the party `p`. -/
structure Stands (iss peer : UInt32) (c : Conn) (p : Party) : Prop where
  alive : c.fate = .alive
  clocked : Clocked c.tcb
  history : ∃ h : AckHist, AckHist.Reach h ∧ h.conn = c
  own : c.tcb.iss = iss
  una : c.tcb.sndUna = pos iss p.base
  nxt : c.tcb.sndNxt = pos iss p.used
  opening : c.tcb.state = .synSent ∨ c.tcb.state = .synRcvd → p.base = 0
  unheard : c.tcb.state = .synSent → p.taken = 0
  level : c.tcb.state ≠ .synSent → 1 ≤ p.taken ∧ Level peer p.taken c.recv

/-- What a connection gets in an event: nothing, a reset, or the message at the head of the
peer's line, of which it keeps nothing out. -/
structure Gets (iss peer : UInt32) (c : Conn) (p q : Party) (e : ConnEvent)
    (got : Option Item) : Prop where
  quiet : e.seg = none → got = none
  shows : ∀ g, e.seg = some g → Shows peer iss g got
  kept : ∀ g, e.seg = some g → keepsOut c.tcb g = false
  mem : ∀ i ∈ got, i ∈ items q.line
  meets : ∀ i ∈ got, i.Meets 65536 p.taken

theorem Gets.nothing {iss peer : UInt32} {c : Conn} {p q : Party} {e : ConnEvent}
    (hno : e.seg = none) : Gets iss peer c p q e none where
  quiet := fun _ => rfl
  shows g hg := absurd (hno.symm.trans hg) (by simp)
  kept g hg := absurd (hno.symm.trans hg) (by simp)
  mem := by simp
  meets := by simp

theorem Seg.span_le (g : Seg) : g.span ≤ 65537 := by
  have hlen := g.payload_lt
  have hsyn := Bool.toNat_le (g.has tcpSyn)
  have hfin := Bool.toNat_le (g.has tcpFin)
  unfold Seg.span
  omega

theorem Gets.segment {iss peer : UInt32} {c : Conn} {p q : Party} {e : ConnEvent} {i : Item}
    (h : Gets iss peer c p q e (some i)) :
    ∃ now lroom g, e = .segment now lroom g ∧ Shown peer iss g i := by
  cases hseg : e.seg with
  | none => cases h.quiet hseg
  | some g =>
    have hshow := h.shows g hseg
    cases e <;> cases hseg
    exact ⟨_, _, g, rfl, hshow⟩

theorem Gets.heard_le {iss peer : UInt32} {c : Conn} {p q : Party} {e : ConnEvent}
    {got : Option Item} (h : Gets iss peer c p q e got) :
    heardTo p.taken got ≤ p.taken + 65537 := by
  cases got with
  | none => exact Nat.le_add_right _ _
  | some i =>
    obtain ⟨-, -, g, -, hshown⟩ := h.segment
    have hstop := hshown.stop
    have hspan := g.span_le
    have hfirst := (h.meets i rfl).first
    exact max_le (Nat.le_add_right _ _) (by omega)

/-- The event is a turn of the party on `got`, and the connection is that of the party
after it. -/
def TakesTurn (iss peer : UInt32) (c : Conn) (p : Party) (e : ConnEvent) (got : Option Item) :
    Prop :=
  ∃ p' out, Turn 65536 got p p' out ∧ List.Forall₂ (Shows iss peer) (connStep c e).out out ∧
    Stands iss peer (connStep c e) p'

namespace Stands

variable {iss peer : UInt32} {c : Conn} {p : Party} {e : ConnEvent}

theorem room_le (t : Tcb) : t.room ≤ 65537 := by
  have hpast := Bool.toNat_le (!t.state.pastFin)
  have hsent := Bool.toNat_le (decide (t.state = .synSent))
  unfold Tcb.room
  omega

theorem talking (h : Stands iss peer c p) (hle : p.base ≤ p.used)
    (hflight : p.used ≤ p.base + 65536) (peer' : UInt32)
    (hpeer : c.tcb.state ≠ .synSent → peer' = peer) :
    Talking e iss peer' p (Conn.start c.tcb c.stats).talk p.base p.used p.taken [] where
  spoken := Spoken.start hflight
  le := hle
  own := h.own
  una := h.una
  nxt := h.nxt
  opening := h.opening
  unheard := h.unheard
  rcv := by
    intro hst
    obtain ⟨hpos, hlevel⟩ := h.level hst
    rw [hpeer hst]
    exact ⟨hpos, hlevel.nxt⟩
  base := Or.inl rfl
  quiet := fun _ => rfl
  growth := fun _ => Nat.add_le_add_left (room_le c.tcb) _
  shows := List.Forall₂.nil

theorem base_of_event (h : Stands iss peer c p) {q : Party} (hpq : Duplex.Linked 65536 p q)
    (hqp : Duplex.Linked 65536 q p) {got : Option Item} (hgot : Gets iss peer c p q e got)
    {peer' : UInt32} {b u t : Nat} {out : List (Option Item)}
    (htalk : Talking e iss peer' p (connHandle (Conn.start c.tcb c.stats) e).talk b u t out) :
    b = p.base ∨ ∃ i ∈ got, b ∈ i.ack := by
  have hbase := hpq.base
  have htaken := hpq.chain.le
  have hflight := hpq.flight
  rcases htalk.base with hsame | ⟨hlo, hhi, g, hg, hack⟩
  · exact Or.inl hsame
  obtain ⟨now, lroom, rfl⟩ : ∃ now lroom, e = .segment now lroom g := by
    cases e <;> cases hg
    exact ⟨_, _, rfl⟩
  have hstays (hno : g.has tcpRst = true ∨ g.has tcpAck = false) : b = p.base := by
    have hsame : (tcpInputConn now lroom g (Conn.start c.tcb c.stats)).tcb.sndUna = c.tcb.sndUna :=
      tcpInputConn_una now lroom (Conn.start c.tcb c.stats) hno
    have hpos : pos iss b = pos iss p.base := by
      rw [← h.una, ← hsame]
      exact htalk.una.symm
    exact (SeqSpace.pos_inj iss (by omega) (by omega)).mp hpos
  have hshow := hgot.shows g rfl
  cases got with
  | none => exact Or.inl (hstays (Or.inl hshow.1))
  | some i =>
    cases hi : i.ack with
    | none =>
      have hflag := hshow.flag
      rw [hi] at hflag
      exact Or.inl (hstays (Or.inr hflag.symm))
    | some a =>
      obtain ⟨-, hpos⟩ := hshow.ack a hi
      obtain ⟨halo, hahi⟩ := hqp.ack i (hgot.mem i rfl) a hi
      have heq : pos iss b = pos iss a := by
        rw [← hpos, ← hack]
        exact htalk.una.symm
      have hba : b = a := (SeqSpace.pos_inj iss (by omega) (by omega)).mp heq
      exact Or.inr ⟨i, rfl, hba ▸ hi⟩

theorem step (h : Stands iss peer c p) (e : ConnEvent) :
    connStep c e = connHandle (Conn.start c.tcb c.stats) e := by
  simp only [connStep, h.alive]

theorem after (h : Stands iss peer c p) {got : Option Item} {b u t : Nat}
    {out : List (Option Item)} (hend : (connStep c e).fate = .alive)
    (htalk : Talking e iss peer p (connStep c e).talk b u t out)
    (hbase : b = p.base ∨ ∃ i ∈ got, b ∈ i.ack) (hheard : t = heardTo p.taken got)
    (hlevel : (connStep c e).tcb.state ≠ .synSent → Level peer t (connStep c e).recv) :
    TakesTurn iss peer c p e got := by
  have hstep := h.step e
  obtain ⟨hist, hreach, hconn⟩ := h.history
  refine ⟨⟨b, u, t, p.line ++ out⟩, out,
    { htalk.spoken with line := rfl, base := hbase, hears := hheard }, htalk.shows, ?_⟩
  exact
    { alive := hend
      clocked := by
        rw [hstep] at hend ⊢
        exact connHandle_clocked h.clocked hend
      history := ⟨hist.step e, .next hreach e trivial, congrArg (connStep · e) hconn⟩
      own := htalk.own
      una := htalk.una
      nxt := htalk.nxt
      opening := htalk.opening
      unheard := htalk.unheard
      level := fun hst => ⟨(htalk.rcv hst).1, hlevel hst⟩ }

section Turns

variable {q : Party} {got : Option Item}

theorem located {g : Seg} (hshow : Shows peer iss g got) (hrst : g.has tcpRst = false) :
    ∃ i ∈ got, Shown peer iss g i := by
  cases got with
  | none => exact absurd (hshow.1.symm.trans hrst) (by simp)
  | some i => exact ⟨i, rfl, hshow⟩

/-- What a message acknowledges was sent, and not acknowledged before. -/
theorem acks (hpq : Duplex.Linked 65536 p q) (hqp : Duplex.Linked 65536 q p) {g : Seg} {i : Item}
    (hi : i ∈ items q.line) (hshown : Shown peer iss g i) (hack : g.has tcpAck = true) :
    ∃ a, 1 ≤ a ∧ p.base ≤ a ∧ a ≤ p.used ∧ g.ack = pos iss a := by
  obtain ⟨a, ha⟩ := Option.isSome_iff_exists.mp (hshown.flag.trans hack)
  obtain ⟨hpos, heq⟩ := hshown.ack a ha
  obtain ⟨hlo, hhi⟩ := hqp.ack i hi a ha
  exact ⟨a, hpos, hlo, hhi.trans hpq.chain.le, heq⟩

/-- A connection that leaves SYN_SENT has taken the peer's SYN and nothing else. -/
theorem hears_syn (h : Stands iss peer c p) (hgot : Gets iss peer c p q e got)
    (hst : c.tcb.state = .synSent)
    (hleft : (connHandle (Conn.start c.tcb c.stats) e).tcb.state ≠ .synSent) :
    ∃ i g, got = some i ∧ e.seg = some g ∧ g.seq = peer ∧ i.stop = 1 ∧
      Level peer 1 (connHandle (Conn.start c.tcb c.stats) e).recv := by
  obtain ⟨hist, hreach, rfl⟩ := h.history
  obtain ⟨now, lroom, g, st, rfl, hsyn, hrst, hview⟩ := connHandle_syn
    (c := Conn.start hist.conn.tcb hist.conn.stats) hst hleft
  obtain ⟨i, rfl, hshown⟩ := located (hgot.shows g rfl) hrst
  obtain ⟨hzero, hone⟩ := hshown.syn hsyn
  have hseq : g.seq = peer := by rw [hshown.seq, hzero, SeqSpace.pos_zero]
  have hblank := (hreach.queueOk h.alive).blank hst
  refine ⟨i, g, rfl, rfl, hseq, by rw [hshown.stop, hzero, hone], ?_⟩
  rw [hview, hseq]
  exact Level.syn hblank.1 hblank.2 st peer

variable (h : Stands iss peer c p) (hpq : Duplex.Linked 65536 p q) (hqp : Duplex.Linked 65536 q p)
include h hpq hqp

/-- What is not kept out is taken. -/
theorem welcome {now : Nat} {lroom : Option Bool} {g : Seg} {i : Item}
    (hgot : Gets iss peer c p q (.segment now lroom g) (some i)) (hst : c.tcb.state ≠ .synSent)
    (hlt : p.taken < i.first + g.span) :
    Welcome (Conn.start c.tcb c.stats) g p.taken i.first := by
  have hshown : Shown peer iss g i := hgot.shows g rfl
  obtain ⟨hpos, hlevel⟩ := h.level hst
  have hfirst := (hgot.meets i rfl).first
  have hnear := (hgot.meets i rfl).near
  have hflight := hpq.flight
  have hspan := g.span_le
  have hsyn : g.has tcpSyn = false := by
    by_contra hno
    obtain ⟨hzero, hone⟩ := hshown.syn (by simpa using hno)
    omega
  have hack : g.has tcpAck = true := by
    rcases hshown.bits with hbit | hbit
    · exact hbit
    · exact absurd (hsyn.symm.trans hbit) (by decide)
  obtain ⟨a, hone, hlo, hhi, heq⟩ := acks hpq hqp (hgot.mem i rfl) hshown hack
  have hend : g.seq + g.seqlen = pos peer (i.first + g.span) := by
    rw [hshown.seq, ← SeqSpace.pos_add, ← g.seqlen_toNat, UInt32.ofNat_toNat]
  have hkeep : seqGt (g.seq + g.seqlen) (keptFrom c.tcb) = false := by
    have hsome : g.span ≠ 0 := by omega
    simpa [keepsOut, hshown.rst, hsome, hst] using hgot.kept g rfl
  have hstate : c.tcb.state.takesData = true ∨ c.tcb.state = .synRcvd := by
    by_contra hno
    have hnxt : c.tcb.rcvNxt = pos peer p.taken := hlevel.nxt
    rw [keptFrom, if_neg (by simpa using hno), hend, hnxt, Bool.eq_false_iff, Ne,
      seqGt_pos _ (by omega) (by omega)] at hkeep
    exact hkeep hlt
  have hpast : c.recv.state.pastFin = false := by
    change c.tcb.state.pastFin = false
    rcases hstate with hs | hs
    · exact TcpState.takesData_pastFin hs
    · rw [hs]
      rfl
  obtain ⟨hi, hroom⟩ := hlevel.roomTo hpast
  have hlen := hroom.len_le
  have hedge := hroom.edge
  rw [keptFrom, if_pos (by simpa using hstate), hend, hroom.wndEnd, Bool.eq_false_iff, Ne,
    seqGt_pos _ (by omega) (by omega)] at hkeep
  refine ⟨hsyn, hack, hstate, ?_, ?_, ?_⟩
  · change i.first + g.span + c.recv.len.toNat ≤ p.taken + 65535
    omega
  · change seqGt g.ack c.tcb.sndNxt = false
    rw [Bool.eq_false_iff, Ne, heq, h.nxt, seqGt_pos _ (by omega) (by omega)]
    omega
  · intro hs
    have hbase := h.opening (Or.inr hs)
    change (seqLt c.tcb.sndUna g.ack && seqLe g.ack c.tcb.sndNxt) = true
    rw [Bool.and_eq_true, heq, h.una, h.nxt, seqLt_pos _ (by omega) (by omega),
      seqLe_pos _ (by omega) (by omega)]
    omega

/-- How far an event lets the receiving side come, once the peer's SYN was
taken. -/
theorem lands (hgot : Gets iss peer c p q e got)
    (hend : (connHandle (Conn.start c.tcb c.stats) e).fate = .alive)
    (hst : c.tcb.state ≠ .synSent) :
    Level peer (heardTo p.taken got) (connHandle (Conn.start c.tcb c.stats) e).recv := by
  have hlevel : Level peer p.taken (Conn.start c.tcb c.stats).recv := (h.level hst).2
  cases got with
  | none =>
    by_cases hseg : ∃ now lroom g, e = .segment now lroom g
    · obtain ⟨now, lroom, g, rfl⟩ := hseg
      exact tcpInputConn_level_rst hlevel hst (hgot.shows g rfl).1
    · exact connHandle_level_quiet hlevel fun now lroom g he => hseg ⟨now, lroom, g, he⟩
  | some i =>
    obtain ⟨now, lroom, g, rfl, hshown⟩ := hgot.segment
    have hmeets := hgot.meets i rfl
    have hnear := hmeets.near
    change Level peer (max p.taken i.stop) _
    rw [hshown.stop]
    exact tcpInputConn_level hlevel hst hshown.seq hmeets.first (by omega) hshown.rst
      (h.welcome hpq hqp hgot hst) hend

/-- An event of a connection that has taken the peer's SYN. -/
theorem turn_started (hgot : Gets iss peer c p q e got)
    (hend : (connStep c e).fate = .alive) (hst : c.tcb.state ≠ .synSent) :
    TakesTurn iss peer c p e got := by
  have hstep := h.step e
  obtain ⟨hpos, -⟩ := h.level hst
  have hlevel := h.lands hpq hqp hgot (hstep ▸ hend) hst
  obtain ⟨hist, hreach, hconn⟩ := h.history
  subst hconn
  obtain ⟨b, u, t, out, htalk⟩ := Talking.event (e := e) (hreach.settled h.alive).1 h.clocked
    (h.talking (hpq.base.trans hpq.chain.le) hpq.flight peer (fun _ => rfl))
    (fun g _ hz => absurd hz (by omega)) (hstep ▸ hend)
  have hbase := h.base_of_event hpq hqp hgot htalk
  rw [← hstep] at htalk hlevel
  have hstarted : (connStep hist.conn e).tcb.state ≠ .synSent :=
    (connStep_continues hist.conn e hst).1
  obtain ⟨-, hrcv⟩ := htalk.rcv hstarted
  have htaken := htalk.spoken.taken
  have hbound : t ≤ p.taken + 65537 := by
    by_cases hseg : e.seg = none
    · rw [htalk.quiet hseg]
      exact Nat.le_add_right _ _
    · have hgrowth := htalk.growth hseg
      omega
  have hfar := hgot.heard_le
  have hnear := Duplex.le_heardTo p.taken got
  have hheard : t = heardTo p.taken got := by
    have hsame : pos peer t = pos peer (heardTo p.taken got) := hrcv.symm.trans hlevel.nxt
    exact (SeqSpace.pos_inj peer (by omega) (by omega)).mp hsame
  exact h.after hend htalk hbase hheard (fun _ => hheard ▸ hlevel)

/-- In SYN_SENT a SYN is taken, alone or with the acknowledgement of ours. -/
theorem takes_syn {i : Item} (hgot : Gets iss peer c p q e (some i))
    (hst : c.tcb.state = .synSent) (hpos : 0 < i.stop) :
    (connHandle (Conn.start c.tcb c.stats) e).tcb.state ≠ .synSent := by
  obtain ⟨now, lroom, g, rfl, hshown⟩ := hgot.segment
  have hzero := h.unheard hst
  have hfirst := (hgot.meets i rfl).first
  have hstop := hshown.stop
  have hflight := hpq.flight
  have hsyn : g.has tcpSyn = true := by
    have hsome : g.span ≠ 0 := by omega
    simpa [keepsOut, hshown.rst, hsome, hst] using hgot.kept g rfl
  have hgood : (g.has tcpAck && (seqLe g.ack c.tcb.iss || seqGt g.ack c.tcb.sndNxt)) = false := by
    cases hack : g.has tcpAck with
    | false => rfl
    | true =>
      obtain ⟨a, hone, hlo, hhi, heq⟩ := acks hpq hqp (hgot.mem i rfl) hshown hack
      have hbase := h.opening (Or.inl hst)
      have hiss : c.tcb.iss = pos iss 0 := h.own.trans (SeqSpace.pos_zero iss).symm
      rw [Bool.true_and, Bool.or_eq_false_iff, Bool.eq_false_iff, Bool.eq_false_iff, Ne, Ne, heq,
        hiss, h.nxt, seqLe_pos _ (by omega) (by omega), seqGt_pos _ (by omega) (by omega)]
      omega
  have heq : connHandle (Conn.start c.tcb c.stats) (.segment now lroom g) =
      tcpSynSentSyn now g (Conn.start c.tcb c.stats) := by
    have hsent : (Conn.start c.tcb c.stats).tcb.state = .synSent := hst
    change tcpInputConn now lroom g _ = _
    rw [tcpInputConn, if_pos hsent, tcpInputSynSent]
    refine (if_neg (Bool.eq_false_iff.mp hgood)).trans ?_
    simp [hshown.rst, hsyn]
  obtain ⟨st, hto, hview⟩ := tcpSynSentSyn_recv now g (Conn.start c.tcb c.stats)
  have hstate : (tcpSynSentSyn now g (Conn.start c.tcb c.stats)).tcb.state = st :=
    congrArg RecvView.state hview
  rw [heq, hstate]
  rcases hto with rfl | rfl <;> exact TcpState.noConfusion

/-- An event of a connection that waits for the peer's SYN. -/
theorem turn_synSent (hgot : Gets iss peer c p q e got)
    (hend : (connStep c e).fate = .alive) (hst : c.tcb.state = .synSent) :
    TakesTurn iss peer c p e got := by
  have hstep := h.step e
  have htaken := h.unheard hst
  obtain ⟨hist, hreach, hconn⟩ := h.history
  subst hconn
  -- whatever comes first would be the peer's SYN
  set peer' := (e.seg.map Seg.seq).getD peer with hpeer'
  have hfirst (g : Seg) (hg : e.seg = some g) : g.seq = peer' := by
    rw [hpeer', hg]
    rfl
  obtain ⟨b, u, t, out, htalk⟩ := Talking.event (e := e) (hreach.settled h.alive).1 h.clocked
    (h.talking (hpq.base.trans hpq.chain.le) hpq.flight peer' (fun hno => absurd hst hno))
    (fun g hg _ => hfirst g hg) (hstep ▸ hend)
  have hbase := h.base_of_event hpq hqp hgot htalk
  rw [← hstep] at htalk
  by_cases hstill : (connStep hist.conn e).tcb.state = .synSent
  · have ht := htalk.unheard hstill
    have htalk' : Talking e iss peer p (connStep hist.conn e).talk b u t out := by
      refine
        { htalk with
          rcv := fun hno => absurd hstill hno
          shows := shows_repeer htalk.shows ?_ }
      intro i hi a ha
      have hle := (htalk.spoken.ack i hi a ha).2
      omega
    refine h.after hend htalk' hbase ?_ (fun hno => absurd hstill hno)
    cases got with
    | none => exact ht.trans htaken.symm
    | some i =>
      have hstop : i.stop = 0 := by
        by_contra hpos
        exact h.takes_syn hpq hqp hgot hst (Nat.pos_of_ne_zero hpos) (hstep ▸ hstill)
      change t = max p.taken i.stop
      omega
  · obtain ⟨i, g, rfl, hseg, hseq, hstop, hlevel⟩ := h.hears_syn hgot hst (hstep ▸ hstill)
    rw [← hstep] at hlevel
    have hpeer : peer' = peer := (hfirst g hseg).symm.trans hseq
    rw [hpeer] at htalk
    obtain ⟨hpos, hrcv⟩ := htalk.rcv hstill
    have hgrowth := htalk.growth (by simp [hseg])
    have ht : t = 1 := by
      have hsame : pos peer t = pos peer 1 := hrcv.symm.trans hlevel.nxt
      exact (SeqSpace.pos_inj peer (by omega) (by omega)).mp hsame
    subst ht
    refine h.after hend htalk hbase ?_ (fun _ => hlevel)
    change 1 = max p.taken i.stop
    omega

/-- Every event that leaves the block in use and keeps nothing out is a turn of the
dialogue. -/
theorem turn (hgot : Gets iss peer c p q e got) (hend : (connStep c e).fate = .alive) :
    TakesTurn iss peer c p e got := by
  by_cases hst : c.tcb.state = .synSent
  · exact h.turn_synSent hpq hqp hgot hend hst
  · exact h.turn_started hpq hqp hgot hend hst

end Turns

end Stands

end PacketForge
