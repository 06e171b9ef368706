import Mathlib.Data.List.Chain
import PacketForge.Lib.Run
import PacketForge.Tcp.AckView

/-!
What a connection owes its peer. Either the last segment sent with the ACK flag
acknowledged `rcv_nxt`, or exactly one segment's worth of text came in after it
and the delayed acknowledgement is set for at most `TCP_DELACK_MS` after that
arrival. The distance between the last acknowledgement and `rcv_nxt` also
bounds how far the right edge of our window may have moved since it was
advertised; it only ever moves forward.
-/

namespace PacketForge

def ackSegs (out : List Seg) : List Seg := out.filter (fun g => g.has tcpAck)

theorem ackSegs_ack {g : Seg} (out : List Seg) (h : g.has tcpAck = true) :
    ackSegs (out ++ [g]) = ackSegs out ++ [g] := by
  simp [ackSegs, h]

theorem ackSegs_other {g : Seg} (out : List Seg) (h : g.has tcpAck = false) :
    ackSegs (out ++ [g]) = ackSegs out := by
  simp [ackSegs, h]

/-! ### The right edge -/

/-- The right edge of the window a segment advertises. -/
def Seg.edge (g : Seg) : UInt32 := g.ack + g.wnd.toUInt32

/-- The later segment takes back none of the window of the earlier one. -/
def Forward (g g' : Seg) : Prop := seqGe g'.edge g.edge = true

/-- The window we could advertise now contains the one advertised last. -/
structure Edge (last : Seg) (v : AckView) : Prop where
  len_le : v.len.toNat ≤ 65535
  near : (v.nxt - last.ack).toNat ≤ 2 * 65535
  room : v.len.toNat + last.wnd.toNat ≤ 65535 + (v.nxt - last.ack).toNat

/-- The distance to a number that lies `k` further on. -/
theorem toNat_add_sub {a b k : UInt32} (h : (b - a).toNat + k.toNat < 2 ^ 32) :
    (b + k - a).toNat = (b - a).toNat + k.toNat := by
  have hcomm : b + k - a = (b - a) + k := by grind
  rw [hcomm, UInt32.toNat_add]
  exact Nat.mod_eq_of_lt h

namespace Edge

variable {last g : Seg} {v : AckView}

theorem forward (h : Edge last v) (hg : v.Says g) : Forward last g := by
  have hwnd : g.wnd.toUInt32.toNat = 65535 - v.len.toNat := by
    rw [UInt16.toNat_toUInt32, hg.2, windowOf_toNat h.len_le]
  have hold : last.wnd.toUInt32.toNat = last.wnd.toNat := UInt16.toNat_toUInt32 _
  have hnear := h.near
  have hroom := h.room
  have hlen := h.len_le
  have hsum : (v.nxt + g.wnd.toUInt32 - last.ack).toNat =
      (v.nxt - last.ack).toNat + g.wnd.toUInt32.toNat := toNat_add_sub (by omega)
  have hdiff : g.edge - last.edge = v.nxt + g.wnd.toUInt32 - last.ack - last.wnd.toUInt32 := by
    rw [Seg.edge, Seg.edge, hg.1]
    grind
  have hle : last.wnd.toUInt32 ≤ v.nxt + g.wnd.toUInt32 - last.ack := by
    rw [UInt32.le_iff_toNat_le]
    omega
  rw [Forward, seqGe_iff, hdiff, UInt32.toNat_sub_of_le _ _ hle]
  omega

/-- The edge a segment has just advertised. -/
theorem of_says (hlen : v.len.toNat ≤ 65535) (hg : v.Says g) : Edge g v := by
  have hzero : (v.nxt - g.ack).toNat = 0 := by
    rw [hg.1, UInt32.sub_self]
    rfl
  have hwnd : g.wnd.toNat = 65535 - v.len.toNat := by rw [hg.2, windowOf_toNat hlen]
  refine ⟨hlen, ?_, ?_⟩ <;> rw [hzero]
  · exact Nat.zero_le _
  · omega

theorem advance (h : Edge last v) (hnear : (v.nxt - last.ack).toNat ≤ 65535) {k : UInt32}
    (hk : v.Takes k) : Edge last (v.advance k) := by
  obtain ⟨-, hfit⟩ := hk h.len_le
  have hlen : (v.advance k).len.toNat = v.len.toNat + k.toNat := AckView.advance_len hfit
  have hsub : ((v.advance k).nxt - last.ack).toNat = (v.nxt - last.ack).toNat + k.toNat :=
    toNat_add_sub (by omega)
  have hroom := h.room
  refine ⟨?_, ?_, ?_⟩ <;> omega

theorem fin (h : Edge last v) (hnear : (v.nxt - last.ack).toNat ≤ 65535) (st : TcpState) :
    Edge last { v with state := st, nxt := v.nxt + 1 } := by
  have hone : (1 : UInt32).toNat = 1 := rfl
  have hsub : (v.nxt + 1 - last.ack).toNat = (v.nxt - last.ack).toNat + 1 :=
    toNat_add_sub (by omega)
  have hlen := h.len_le
  have hroom := h.room
  refine ⟨h.len_le, ?_, ?_⟩
  · change (v.nxt + 1 - last.ack).toNat ≤ _
    omega
  · change v.len.toNat + _ ≤ 65535 + (v.nxt + 1 - last.ack).toNat
    omega

theorem read (h : Edge last v) {n : UInt32} (hn : n ≤ v.len) :
    Edge last { v with len := v.len - n } := by
  have hsub : (v.len - n).toNat = v.len.toNat - n.toNat := UInt32.toNat_sub_of_le _ _ hn
  have hlen := h.len_le
  have hroom := h.room
  refine ⟨?_, h.near, ?_⟩
  · change (v.len - n).toNat ≤ _
    omega
  · change (v.len - n).toNat + _ ≤ 65535 + (v.nxt - last.ack).toNat
    omega

end Edge

/-! ### The debt -/

def ConnEvent.arrival : ConnEvent → Option Nat
  | .segment now _ _ => some now
  | _ => none

/-- How the delayed acknowledgement stands against the last one sent. `due` is
the arrival of the oldest in-order segment that was not acknowledged, and where
there is none, that of the segment now being processed. -/
inductive Debt (e : ConnEvent) (due : Option Nat) (last : Seg) (v : AckView) : Prop where
  | clear (hpending : v.pending = 0) (hdeadline : v.deadline = 0) (hack : last.ack = v.nxt)
      (hdue : due = e.arrival)
  | owed (t : Nat) (hpending : v.pending = 1) (hset : v.deadline ≠ 0)
      (hopen : v.state.pastFin = false) (hack : last.ack ≠ v.nxt)
      (hnear : (v.nxt - last.ack).toNat ≤ 65535) (hdue : due = some t)
      (htime : v.deadline ≤ t + tcpDelackMs)

structure Ledger (e : ConnEvent) (due : Option Nat) (last : Seg) (v : AckView) : Prop
    extends Edge last v where
  started : v.state ≠ .synSent
  debt : Debt e due last v

namespace Ledger

variable {e : ConnEvent} {due : Option Nat} {last : Seg} {v : AckView}

theorem near_one (h : Ledger e due last v) : (v.nxt - last.ack).toNat ≤ 65535 := by
  cases h.debt with
  | clear _ _ hack _ =>
    rw [hack, UInt32.sub_self]
    exact Nat.zero_le _
  | owed _ _ _ _ _ hnear _ _ => exact hnear

/-- A segment with the ACK flag settles the account. -/
theorem of_says {g : Seg} (hst : v.state ≠ .synSent) (hlen : v.len.toNat ≤ 65535) (hg : v.Says g)
    (hack : g.has tcpAck = true) : Ledger e e.arrival g (v.sent g) := by
  rw [v.sent_ack hack]
  exact ⟨⟨hlen, (Edge.of_says hlen hg).near, (Edge.of_says hlen hg).room⟩, hst,
    .clear rfl rfl hg.1 rfl⟩

theorem setState (h : Ledger e due last v) {st : TcpState} (hst : st ≠ .synSent)
    (hfin : st.pastFin = v.state.pastFin) : Ledger e due last { v with state := st } := by
  refine ⟨⟨h.len_le, h.near, h.room⟩, hst, ?_⟩
  cases h.debt with
  | clear hp hd hack hdue => exact .clear hp hd hack hdue
  | owed t hp hd hopen hack hnear hdue ht =>
    exact .owed t hp hd (hfin.trans hopen) hack hnear hdue ht

theorem timeWait (h : Ledger e due last v) (hst : v.state = .closing) :
    Ledger e due last { v with state := .timeWait, deadline := 0 } := by
  refine ⟨⟨h.len_le, h.near, h.room⟩, by simp, ?_⟩
  cases h.debt with
  | clear hp hd hack hdue => exact .clear hp rfl hack hdue
  | owed t hp hd hopen hack hnear hdue ht =>
    rw [hst] at hopen
    cases hopen

/-- The first segment of text is acknowledged later. -/
theorem delay {now : Nat} {lroom : Option Bool} {g : Seg} {k : UInt32}
    (h : Ledger (.segment now lroom g) due last v) (hst : v.state.takesData = true)
    (hk : v.Takes k) (hone : ¬ v.pending + 1 ≥ 2) :
    Ledger (.segment now lroom g) due last
      { v.advance k with
        pending := v.pending + 1
        deadline := if v.deadline = 0 then now + tcpDelackMs else v.deadline } := by
  have hedge := h.toEdge.advance h.near_one hk
  refine ⟨⟨hedge.len_le, hedge.near, hedge.room⟩, h.started, ?_⟩
  cases h.debt with
  | owed t hp _ _ _ _ _ _ =>
    rw [hp] at hone
    exact absurd (by decide) hone
  | clear hp hd hack hdue =>
    obtain ⟨hpos, hfit⟩ := hk h.len_le
    have hsub : (v.nxt + k - last.ack).toNat = k.toNat := by
      have hzero : (v.nxt - last.ack).toNat = 0 := by
        rw [hack, UInt32.sub_self]
        rfl
      rw [toNat_add_sub (by omega), hzero, Nat.zero_add]
    refine .owed now ?_ ?_ (TcpState.takesData_pastFin hst) ?_ ?_ hdue ?_
    · change v.pending + 1 = 1
      rw [hp]
      rfl
    · change (if v.deadline = 0 then now + tcpDelackMs else v.deadline) ≠ 0
      rw [if_pos hd]
      exact Nat.succ_ne_zero _
    · intro heq
      have hzero : (v.nxt + k - last.ack).toNat = 0 :=
        (SeqSpace.toNat_sub_eq_zero_iff _ _).mpr heq.symm
      omega
    · change (v.nxt + k - last.ack).toNat ≤ 65535
      omega
    · change (if v.deadline = 0 then now + tcpDelackMs else v.deadline) ≤ _
      rw [if_pos hd]

theorem read (h : Ledger e due last v) {n : UInt32} (hn : n ≤ v.len) :
    Ledger e due last { v with len := v.len - n } := by
  refine ⟨h.toEdge.read hn, h.started, ?_⟩
  cases h.debt with
  | clear hp hd hack hdue => exact .clear hp hd hack hdue
  | owed t hp hd hopen hack hnear hdue ht => exact .owed t hp hd hopen hack hnear hdue ht

end Ledger

/-! ### Histories -/

/-- Whether anything that came in is not acknowledged. -/
def owes (acks : List Seg) (nxt : UInt32) : Bool :=
  match acks.getLast? with
  | none => false
  | some g => g.ack != nxt

/-- A connection with all segments it has sent with the ACK flag, oldest first,
and the arrival of the oldest in-order segment that none of them acknowledges. -/
structure AckHist where
  conn : Conn
  acks : List Seg
  since : Option Nat

namespace AckHist

/-- An acknowledgement sent during an event covers what came in before it. -/
def due (h : AckHist) (e : ConnEvent) (out : List Seg) : Option Nat :=
  if (ackSegs out).isEmpty then h.since.or e.arrival else e.arrival

def step (h : AckHist) (e : ConnEvent) : AckHist :=
  let c := connStep h.conn e
  let acks := h.acks ++ ackSegs c.out
  { conn := c, acks := acks, since := if owes acks c.tcb.rcvNxt then h.due e c.out else none }

def Opens (h : AckHist) : Prop := Opened h.conn ∧ h.acks = ackSegs h.conn.out ∧ h.since = none

abbrev Reach : AckHist → Prop := Run.Reach Opens (fun _ _ => True) step

/-- The account in the middle of an event. -/
def Ok (h : AckHist) (e : ConnEvent) (v : AckView) : Prop :=
  (Unanswered v ∧ h.acks ++ ackSegs v.out = []) ∨
    ∃ last, (h.acks ++ ackSegs v.out).getLast? = some last ∧ Ledger e (h.due e v.out) last v ∧
      (h.acks ++ ackSegs v.out).IsChain Forward

variable {h : AckHist} {e : ConnEvent} {v v' : AckView}

theorem due_ack {g : Seg} (hack : g.has tcpAck = true) (out : List Seg) :
    h.due e (out ++ [g]) = e.arrival := by
  rw [due, ackSegs_ack out hack, if_neg (by simp)]

theorem due_other {g : Seg} (hack : g.has tcpAck = false) (out : List Seg) :
    h.due e (out ++ [g]) = h.due e out := by
  rw [due, ackSegs_other out hack, due]

theorem Ok.acked {g : Seg} (hst : v.state ≠ .synSent) (hlen : v.len.toNat ≤ 65535)
    (hsaid : v.Says g) (hack : g.has tcpAck = true)
    (hchain : (h.acks ++ ackSegs v.out).IsChain Forward)
    (hlast : ∀ last, (h.acks ++ ackSegs v.out).getLast? = some last → Forward last g) :
    h.Ok e (v.sent g) := by
  have hout : (v.sent g).out = v.out ++ [g] := by rw [v.sent_ack hack]
  have hacks : h.acks ++ ackSegs (v.sent g).out = (h.acks ++ ackSegs v.out) ++ [g] := by
    rw [hout, ackSegs_ack _ hack, List.append_assoc]
  refine Or.inr ⟨g, ?_, ?_, ?_⟩
  · rw [hacks, List.getLast?_concat]
  · rw [hout, due_ack hack]
    exact Ledger.of_says hst hlen hsaid hack
  · rw [hacks, List.isChain_append]
    refine ⟨hchain, List.isChain_singleton g, ?_⟩
    intro x hx y hy
    cases hy
    exact hlast x hx

/-- Every move keeps the account. -/
theorem Ok.move (hm : AckMove e v v') (hok : h.Ok e v) : h.Ok e v' := by
  rcases hok with ⟨hblank, hnone⟩ | ⟨last, hlast, hl, hchain⟩
  · have hst := hblank.state
    have htakes (hdata : v.state.takesData = true) : False := by
      rw [hst] at hdata
      cases hdata
    cases hm with
    | sent _ g hsaid =>
      cases hack : g.has tcpAck with
      | true => exact absurd hst (hsaid hack).1
      | false =>
        rw [v.sent_other hack]
        refine Or.inl ⟨⟨hst, hblank.len, hblank.pending, hblank.deadline⟩, ?_⟩
        rw [ackSegs_other _ hack]
        exact hnone
    | state _ st hne => exact absurd hst hne
    | timeWait _ hcl =>
      rw [hst] at hcl
      cases hcl
    | shift _ g hshift hack hsaid =>
      cases hshift with
      | syn st seq _ hst' =>
        have hne : st ≠ .synSent := by rcases hst' with rfl | rfl <;> simp
        have hlen : v.len.toNat ≤ 65535 := by
          rw [hblank.len]
          exact Nat.zero_le _
        refine Ok.acked hne hlen hsaid hack ?_ ?_
        · rw [hnone]
          exact List.isChain_nil
        · rw [hnone]
          rintro last hlast
          cases hlast
      | text k hdata _ => exact (htakes hdata).elim
      | fin hfin =>
        rw [hst] at hfin
        rcases hfin with hfin | hfin <;> cases hfin
    | delay now lroom g k hdata _ _ => exact (htakes hdata).elim
    | read _ n hn =>
      refine Or.inl ⟨⟨hst, ?_, hblank.pending, hblank.deadline⟩, hnone⟩
      rw [hblank.len, UInt32.le_iff_toNat_le] at hn
      change v.len - n = 0
      rw [hblank.len]
      apply UInt32.toNat_inj.mp
      rw [UInt32.toNat_sub_of_le _ _ (UInt32.le_iff_toNat_le.mpr hn)]
      exact Nat.zero_sub _
  · have hforward {w : AckView} {g : Seg} (hedge : Edge last w) (hsaid : w.Says g) (x : Seg)
        (hx : (h.acks ++ ackSegs v.out).getLast? = some x) : Forward x g := by
      rw [hlast] at hx
      cases hx
      exact hedge.forward hsaid
    cases hm with
    | sent _ g hsaid =>
      cases hack : g.has tcpAck with
      | true =>
        obtain ⟨hne, hs⟩ := hsaid hack
        exact Ok.acked hne hl.len_le hs hack hchain (hforward hl.toEdge hs)
      | false =>
        have hout : ackSegs (v.out ++ [g]) = ackSegs v.out := ackSegs_other _ hack
        rw [v.sent_other hack]
        refine Or.inr ⟨last, ?_, ⟨⟨hl.len_le, hl.near, hl.room⟩, hl.started, ?_⟩, ?_⟩
        · rw [hout]
          exact hlast
        · rw [due_other hack]
          cases hl.debt with
          | clear hp hd ha hdue => exact .clear hp hd ha hdue
          | owed t hp hd hopen ha hnear hdue ht => exact .owed t hp hd hopen ha hnear hdue ht
        · rw [hout]
          exact hchain
    | state _ st _ hne hfin => exact Or.inr ⟨last, hlast, hl.setState hne hfin, hchain⟩
    | timeWait _ hcl => exact Or.inr ⟨last, hlast, hl.timeWait hcl, hchain⟩
    | shift _ g hshift hack hsaid =>
      cases hshift with
      | syn st seq hst _ => exact absurd hst hl.started
      | text k hdata hk =>
        have hedge := hl.toEdge.advance hl.near_one hk
        exact Ok.acked (v := v.advance k) hl.started hedge.len_le hsaid hack hchain
          (hforward hedge hsaid)
      | fin hfin =>
        have hne : rxFinState v.state ≠ .synSent := by
          rcases hfin with hdata | hw
          · exact (rxFinState_sync (takesData_sync hdata)).1
          · rw [hw]
            exact TcpState.noConfusion
        refine Ok.acked hne hl.len_le hsaid hack hchain ?_
        by_cases hw : v.state = .timeWait
        · simp only [hw, ne_eq, not_true_eq_false, if_false] at hsaid
          exact hforward ⟨hl.len_le, hl.near, hl.room⟩ hsaid
        · simp only [ne_eq, hw, not_false_eq_true, if_true] at hsaid
          exact hforward (hl.toEdge.fin hl.near_one _) hsaid
    | delay now lroom g k hdata hk hone =>
      exact Or.inr ⟨last, hlast, hl.delay hdata hk hone, hchain⟩
    | read _ n hn => exact Or.inr ⟨last, hlast, hl.read hn, hchain⟩

/-! ### Runs -/

theorem Ok.blank {c : Conn} (hok : h.Ok e c.acks) (hst : c.tcb.state = .synSent) :
    Unanswered c.acks := by
  rcases hok with ⟨hblank, -⟩ | ⟨last, -, hl, -⟩
  · exact hblank
  · exact absurd hst hl.started

theorem Ok.act {c d : Conn} (hact : Act e c d) (hok : h.Ok e c.acks) : h.Ok e d.acks :=
  AckMoves.invariant (fun _ _ hm hv => Ok.move hm hv) (hact.ackMoves hok.blank) hok

/-- Between events: the account before the next one. -/
def Settled (h : AckHist) : Prop := ∀ e, h.Ok e (Conn.start h.conn.tcb h.conn.stats).acks

/-- What an event leaves is settled once its segments are entered. -/
theorem Ok.settled {h' : AckHist} (hok : h.Ok e h'.conn.acks)
    (hacks : h'.acks = h.acks ++ ackSegs h'.conn.out)
    (hsince : h'.since = if owes h'.acks h'.conn.tcb.rcvNxt then h.due e h'.conn.out else none) :
    h'.Settled := by
  intro e'
  have hnil : h'.acks ++ ackSegs [] = h'.acks := by
    rw [ackSegs, List.filter_nil, List.append_nil]
  have hdue : h'.due e' [] = h'.since.or e'.arrival := rfl
  have hout : h'.conn.acks.out = h'.conn.out := rfl
  rw [Ok, hout, ← hacks] at hok
  rcases hok with ⟨hblank, hnone⟩ | ⟨last, hlast, hl, hchain⟩
  · exact Or.inl ⟨⟨hblank.state, hblank.len, hblank.pending, hblank.deadline⟩, hnil.trans hnone⟩
  · have howes : owes h'.acks h'.conn.tcb.rcvNxt = (last.ack != h'.conn.tcb.rcvNxt) := by
      rw [owes, hlast]
    refine Or.inr ⟨last, (congrArg List.getLast? hnil).trans hlast,
      ⟨⟨hl.len_le, hl.near, hl.room⟩, hl.started, ?_⟩, ?_⟩
    · change Debt e' (h'.due e' []) last _
      rw [hdue, hsince, howes]
      cases hl.debt with
      | clear hp hd ha _ =>
        refine .clear hp hd ha ?_
        have hsame : last.ack = h'.conn.tcb.rcvNxt := ha
        rw [hsame, bne_self_eq_false]
        rfl
      | owed t hp hd hopen ha hnear ht htime =>
        refine .owed t hp hd hopen ha hnear ?_ htime
        have hne : (last.ack != h'.conn.tcb.rcvNxt) = true := bne_iff_ne.mpr ha
        rw [hne, if_pos rfl, ht]
        rfl
    · change (h'.acks ++ ackSegs []).IsChain Forward
      rw [hnil]
      exact hchain

theorem Opens.settled (hopens : h.Opens) : h.Settled := by
  obtain ⟨hopened, hacks, hsince⟩ := hopens
  -- the first segments are entered into an empty account
  set h₀ : AckHist := { conn := h.conn, acks := [], since := none }
  have hopen :
      h₀.Ok (.recv 0) h.conn.acks ∧ owes (ackSegs h.conn.acks.out) h.conn.acks.nxt = false := by
    rcases hopened.acks with ⟨g, hno, hview⟩ | ⟨nxt, g, hack, hsaid, hview⟩ <;> rw [hview]
    · have hnone : ackSegs [g] = [] := ackSegs_other [] hno
      exact ⟨Or.inl ⟨⟨rfl, rfl, rfl, rfl⟩, hnone⟩, by rw [hnone]; rfl⟩
    · refine ⟨Ok.acked (by simp) (Nat.zero_le _) hsaid hack List.isChain_nil
        (by simp [h₀, ackSegs]), ?_⟩
      have hone : ackSegs [g] = [g] := ackSegs_ack [] hack
      rw [AckView.sent_ack _ hack]
      simp only [List.nil_append, hone, owes, List.getLast?_singleton, hsaid.1, bne_self_eq_false]
  refine Ok.settled hopen.1 hacks ?_
  have hclear : owes h.acks h.conn.tcb.rcvNxt = false := by
    rw [hacks]
    exact hopen.2
  rw [hclear, hsince]
  rfl

theorem Reach.settled (hr : Reach h) (halive : h.conn.fate = .alive) :
    h.Settled ∧ SynWaits h.conn.send := by
  induction hr with
  | start hopens => exact ⟨hopens.settled, hopens.1.synWaits⟩
  | @next h _ e _ ih =>
    have hlive : h.conn.fate = .alive := connStep_live halive
    obtain ⟨hsettled, hw⟩ := ih hlive
    have hkeeps := connStep_keeps (P := fun c => h.Ok e c.acks)
      (fun c d hact _ hok => hok.act hact) hlive hw (hsettled e) halive
    exact ⟨Ok.settled hkeeps.1 rfl rfl, hkeeps.2⟩

end AckHist

/-- An acknowledgement is never lost: in every run, from SYN_RCVD on, the last
segment with the ACK flag acknowledged `rcv_nxt`, or the delayed
acknowledgement is set in time for the segment that waits. -/
theorem acknowledgement_never_lost {h : AckHist} (hr : AckHist.Reach h)
    (halive : h.conn.fate = .alive) :
    (h.conn.tcb.state ≠ .synSent →
      h.acks.getLast?.map Seg.ack = some h.conn.tcb.rcvNxt ∨
        h.conn.tcb.delackPending = 1 ∧ h.conn.tcb.delackDeadline ≠ 0 ∧
          ∃ t, h.since = some t ∧ h.conn.tcb.delackDeadline ≤ t + tcpDelackMs) ∧
    h.conn.tcb.delackPending ≤ 1 := by
  have hok := (hr.settled halive).1 (.recv 0)
  have hdue : h.due (.recv 0) [] = h.since := by
    change h.since.or none = h.since
    exact Option.or_none
  rw [AckHist.Ok] at hok
  rcases hok with ⟨hblank, -⟩ | ⟨last, hlast, hl, -⟩
  · have hp : h.conn.tcb.delackPending = 0 := hblank.pending
    exact ⟨fun hst => absurd hblank.state hst, by rw [hp]; decide⟩
  · have hlast' : h.acks.getLast? = some last := by
      simpa [ackSegs, Conn.acks, Conn.start] using hlast
    cases hl.debt with
    | clear hp _ hack _ =>
      have hp' : h.conn.tcb.delackPending = 0 := hp
      have hack' : last.ack = h.conn.tcb.rcvNxt := hack
      refine ⟨fun _ => Or.inl ?_, by rw [hp']; decide⟩
      rw [hlast', Option.map_some, hack']
    | owed t hp hd _ _ _ ht htime =>
      have hp' : h.conn.tcb.delackPending = 1 := hp
      exact ⟨fun _ => Or.inr ⟨hp', hd, t, hdue.symm.trans ht, htime⟩, by rw [hp']; decide⟩

theorem one_byte_lt (b : UInt8) : [b].length < 2 ^ 16 := by
  rw [List.length_singleton]
  decide

/-- A segment of one byte from the peer. -/
def peerByte (seq ack : UInt32) (b : UInt8) : Seg :=
  { peerSeg tcpAck seq ack 1000 with payload := [b], payload_lt := one_byte_lt b }

/-- A connection opened with ISS 100, its SYN answered with sequence number
300, and one byte received. -/
def oneByteHist : AckHist :=
  [ConnEvent.segment 1 none (peerSeg (tcpSyn ||| tcpAck) 300 101 1000),
    .segment 5 none (peerByte 301 101 7)].foldl AckHist.step
    { conn := tcpOpenActiveConn 0 none 1 5000 2 80 100 Stats.zero, acks := [], since := none }

theorem oneByteHist_reach : AckHist.Reach oneByteHist := by
  refine Run.Reach.foldl (.start ⟨.active 0 none 1 5000 2 80 100 Stats.zero, rfl, rfl⟩) _ ?_
  exact ⟨trivial, trivial, trivial⟩

/-- The byte waits for the delayed acknowledgement. -/
theorem acknowledgement_never_lost_one_byte :
    oneByteHist.acks.getLast?.map Seg.ack = some 301 ∧ oneByteHist.conn.tcb.rcvNxt = 302 ∧
      oneByteHist.conn.tcb.delackPending = 1 ∧
      ∃ t, oneByteHist.since = some t ∧ oneByteHist.conn.tcb.delackDeadline ≤ t + tcpDelackMs := by
  have hlast : oneByteHist.acks.getLast?.map Seg.ack = some 301 := by decide +kernel
  have hnxt : oneByteHist.conn.tcb.rcvNxt = 302 := by decide +kernel
  have hall :=
    (acknowledgement_never_lost oneByteHist_reach (by decide +kernel)).1 (by decide +kernel)
  rcases hall with hack | ⟨hp, -, ht⟩
  · rw [hlast, hnxt] at hack
    exact absurd hack (by decide)
  · exact ⟨hlast, hnxt, hp, ht⟩

end PacketForge
