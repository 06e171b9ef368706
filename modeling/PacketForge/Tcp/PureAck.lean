import PacketForge.Tcp.Dialogue
import PacketForge.Tcp.EndToEnd
import PacketForge.Tcp.Trimming

/-!
Two endpoints joined by two pipes that lose, duplicate and reorder nothing. What
one side has emitted and the other has not yet got is in its pipe; a delivery
takes the oldest segment. Either side may connect, and a side without a
connection listens; applications and timers act as they like.

A pure acknowledgement stands at `snd_nxt`, so by the time it arrives all that
was sent has arrived. As long as the receiver takes all that arrives, the
acknowledgement stands at `rcv_nxt`. But `snd_nxt` also moves over what a closed
window keeps out, the byte of a zero-window probe or a FIN, and then a pure
acknowledgement may lie beyond the window and be rejected.
-/

namespace PacketForge

open Function

open Duplex (Item Party Spoken Turn heardTo items items_append)
open SeqSpace (pos)

/-! ### The pipes -/

def Endpoint.connect (p : Endpoint) (c : Conn) : Endpoint :=
  match p.conn with
  | none => { p with conn := some c, log := p.log ++ c.out }
  | some _ => p

inductive PipeEvent where
  | connect (s : Side) (now : Nat) (sock : Option (Fin pfSockMax)) (lip : UInt32) (lport : UInt16)
      (rip : UInt32) (rport : UInt16) (iss : UInt32) (st : Stats)
  | call (s : Side) (e : ConnEvent)
  | deliver (s : Side) (x : Arrival)

namespace Net

/-- One event. The log of a side is its pipe: the segments under way, oldest
first. -/
def pipe (n : Net) : PipeEvent → Net
  | .connect s now sock lip lport rip rport iss st =>
    update n s ((n s).connect (tcpOpenActiveConn now sock lip lport rip rport iss st))
  | .call s e => update n s ((n s).call e)
  | .deliver s x =>
    match (n s.other).log with
    | [] => n
    | g :: rest =>
      update (update n s.other { n s.other with log := rest }) s
        ((n s).deliver x g)

def Piped (_ : Net) : PipeEvent → Prop
  | .call _ e => e.seg = none
  | .connect .. | .deliver .. => True

def Idle (n : Net) : Prop := ∀ s, n s = Endpoint.idle

abbrev PipeReach : Net → Prop := Run.Reach Idle Piped pipe

/-- A segment is delivered, and the connection keeps out some of what it carries, or the
side that listens opens no connection for it. -/
def keepsOut (n : Net) : PipeEvent → Bool
  | .deliver s x =>
    match (n s.other).log, (n s).conn with
    | [], _ => false
    | g :: _, some c => PacketForge.keepsOut c.tcb g
    | g :: _, none => g.span ≠ 0 && !(g.has tcpSyn && !g.has tcpAck && x.accepts)
  | .connect .. | .call .. => false

/-- Runs in which all that arrives is taken. -/
abbrev CleanReach : Net → Prop :=
  Run.Reach Idle (fun n ev => n.Piped ev ∧ n.keepsOut ev = false) pipe

instance (n : Net) : (ev : PipeEvent) → Decidable (n.Piped ev)
  | .call _ e => inferInstanceAs (Decidable (e.seg = none))
  | .connect .. | .deliver .. => inferInstanceAs (Decidable True)

end Net

/-! ### The endpoints as parties -/

/-- What an endpoint is in the dialogue: nobody yet, or a connection. -/
structure Placed (iss peer : UInt32) (p : Endpoint) (q : Party) : Prop where
  absent : p.conn = none → (q.base = 0 ∧ q.used = 0 ∧ q.taken = 0) ∧ items q.line = []
  present : ∀ c, p.conn = some c → Stands iss peer c q
  line : List.Forall₂ (Shows iss peer) p.log q.line

/-- Whose segments are all resets has no sequence numbers. -/
theorem shows_reissue {iss peer iss' peer' : UInt32} {gs : List Seg} {out : List (Option Item)}
    (h : List.Forall₂ (Shows iss peer) gs out) (hnone : items out = []) :
    List.Forall₂ (Shows iss' peer') gs out := by
  induction h with
  | nil => exact .nil
  | @cons g x gs out hshow _ ih =>
    cases x with
    | none => exact .cons hshow (ih hnone)
    | some i => cases hnone

namespace Placed

variable {iss peer : UInt32} {p : Endpoint} {q r : Party} {got : Option Item}

theorem run (h : Placed iss peer p q) {c : Conn} (hc : p.conn = some c) {e : ConnEvent}
    (hqr : Duplex.Linked 65536 q r) (hrq : Duplex.Linked 65536 r q)
    (hgot : Gets iss peer c q r e got) (hend : (connStep c e).fate = .alive) :
    ∃ q' out, Turn 65536 got q q' out ∧ Placed iss peer (p.run c e) q' := by
  obtain ⟨q', out, hturn, hout, hstands⟩ := (h.present c hc).turn hqr hrq hgot hend
  refine ⟨q', out, hturn, fun hno => absurd hno (by simp [Endpoint.run]), ?_, ?_⟩
  · rintro _ ⟨⟩
    exact hstands
  · rw [hturn.line]
    exact List.rel_append h.line hout

theorem reset (h : Placed iss peer p q) (hnone : p.conn = none)
    (hgot : heardTo q.taken got = q.taken) (g : Seg) :
    ∃ q' out, Turn 65536 got q q' out ∧ Placed iss peer (p.reset g) q' := by
  obtain ⟨⟨hbase, hused, htaken⟩, hitems⟩ := h.absent hnone
  have hmute : ∃ out, Spoken 65536 q q.base q.used q.taken out ∧ items out = [] ∧
      List.Forall₂ (Shows iss peer) (tcpResetFor g).toList out := by
    have hstart : Spoken 65536 q q.base q.used q.taken [] := Spoken.start (by omega)
    cases hr : tcpResetFor g with
    | none => exact ⟨[], hstart, rfl, .nil⟩
    | some r => exact ⟨[none], hstart.mute, rfl, .cons (tcpResetFor_bits hr) .nil⟩
  obtain ⟨out, hspoken, hout, hshows⟩ := hmute
  refine ⟨{ q with line := q.line ++ out }, out, ?_, ?_, ?_, ?_⟩
  · exact { hspoken with line := rfl, base := Or.inl rfl, hears := hgot.symm }
  · intro _
    refine ⟨⟨hbase, hused, htaken⟩, ?_⟩
    rw [items_append, hitems, hout]
    rfl
  · intro c hc
    exact absurd (hnone.symm.trans hc) (by simp)
  · exact List.rel_append h.line hshows

/-- Until the peer has a connection nothing of it has been taken. -/
theorem repeer (h : Placed iss peer p q) (htaken : q.taken = 0)
    (hack : ∀ i ∈ items q.line, ∀ a ∈ i.ack, a ≤ q.taken) (peer' : UInt32) :
    Placed iss peer' p q := by
  refine ⟨h.absent, fun c hc => ?_, shows_repeer h.line fun i hi a ha => ?_⟩
  · have hstands := h.present c hc
    exact { hstands with level := fun hst => absurd (hstands.level hst).1 (by omega) }
  · have hle := hack i hi a ha
    omega

end Placed

/-! ### Opening -/

section Opening

/-- The SYN of a new connection, or its answer. -/
theorem tcpStartSyn_talk (now : Nat) (flags : UInt8) (c : Conn)
    (hsyn : (flags &&& tcpSyn != 0) = true) (hrst : (flags &&& tcpRst != 0) = false) :
    (tcpStartSyn now flags c).talk =
      { c.talk with out := c.out ++ [tcpSegment c.tcb flags c.tcb.iss 0 0] } := by
  have hctl : tcpSendCtl c flags = tcpSendSegment c flags c.tcb.iss 0 0 := by
    simp [tcpSendCtl, hsyn, hrst]
  simp only [tcpStartSyn]
  rw [tcpArmRto_talk, hctl]
  exact tcpSendSegment_talk c flags c.tcb.iss 0 0

theorem Opened.alive {c : Conn} (h : Opened c) : c.fate = .alive := by
  cases h with
  | active now sock lip lport rip rport iss st => rfl
  | passive now l lport iss g st =>
    have hmss (d : Conn) : (tcpTakeMss d g).fate = d.fate := by
      unfold tcpTakeMss
      simp only
      split <;> rfl
    exact hmss ((Conn.start (passiveTcb l lport iss g) st).count .tcpPassiveOpens)

theorem Stands.opened {iss peer : UInt32} {c : Conn} {t : Nat} (hopen : Opened c)
    (hown : c.tcb.iss = iss) (huna : c.tcb.sndUna = iss) (hnxt : c.tcb.sndNxt = iss + 1)
    (hsent : c.tcb.state = .synSent → t = 0)
    (hlevel : c.tcb.state ≠ .synSent → 1 ≤ t ∧ Level peer t c.recv) (l : List (Option Item)) :
    Stands iss peer c ⟨0, 1, t, l⟩ where
  alive := hopen.alive
  clocked := hopen.clocked
  history := ⟨⟨c, ackSegs c.out, none⟩, .start ⟨hopen, rfl, rfl⟩, rfl⟩
  own := hown
  una := huna.trans (SeqSpace.pos_zero iss).symm
  nxt := hnxt
  opening := fun _ => rfl
  unheard := hsent
  level := hlevel

/-- The first segment of a connection. -/
theorem Shown.first {iss peer : UInt32} {t : Tcb} {flags : UInt8} {ack : Option Nat}
    (hiss : t.iss = iss) (hsyn : (flags &&& tcpSyn != 0) = true)
    (hrst : (flags &&& tcpRst != 0) = false) (hfin : (flags &&& tcpFin != 0) = false)
    (hne : flags ≠ tcpAck) (hflag : ack.isSome = (flags &&& tcpAck != 0))
    (hack : ∀ a ∈ ack, 1 ≤ a ∧ t.rcvNxt = pos peer a) :
    Shown iss peer (tcpSegment t flags t.iss 0 0) ⟨0, 1, ack, false⟩ := by
  have hspan : (tcpSegment t flags t.iss 0 0).span = 1 := by
    rw [tcpSegment_span, hsyn, hfin]
    rfl
  refine ⟨hrst, ?_, by rw [hspan], fun h => absurd h.1 hne, Or.inr hsyn, fun _ => ⟨rfl, hspan⟩,
    hflag, ?_⟩
  · exact hiss.trans (SeqSpace.pos_zero iss).symm
  · intro a ha
    have hbit : (flags &&& tcpAck != 0) = true := by
      have hsome := congrArg Option.isSome ha
      exact hflag.symm.trans hsome
    obtain ⟨hpos, hrcv⟩ := hack a ha
    refine ⟨hpos, ?_⟩
    rw [← hrcv]
    exact if_pos hbit

/-- A side without a connection opens one, on its own or for a SYN. -/
theorem Placed.opened {iss iss' peer : UInt32} {p : Endpoint} {q : Party} {got : Option Item}
    (h : Placed iss peer p q) (hnone : p.conn = none) {c : Conn} {g : Seg} (t : Nat)
    (ack : Option Nat) (hstands : ∀ l, Stands iss' peer c ⟨0, 1, t, l⟩) (hout : c.out = [g])
    (hshown : Shown iss' peer g ⟨0, 1, ack, false⟩) (hack : ∀ a ∈ ack, a = t)
    (hgot : t = heardTo 0 got) :
    ∃ q' out, Turn 65536 got q q' out ∧
      Placed iss' peer { p with conn := some c, log := p.log ++ c.out } q' := by
  obtain ⟨⟨hbase, hused, htaken⟩, hitems⟩ := h.absent hnone
  have hstart : Spoken 65536 q 0 0 t [] := by
    have hspoken : Spoken 65536 q q.base q.used q.taken [] := Spoken.start (by omega)
    rw [hbase, hused] at hspoken
    exact hspoken.take (by omega)
  have hspoken : Spoken 65536 q 0 1 t ([] ++ [some ⟨0, 1, ack, false⟩]) := by
    refine hstart.say rfl (by omega) ⟨Nat.le_refl 0, Nat.zero_le 1, Nat.zero_le _, ?_⟩ hack
    exact fun hlast => Bool.noConfusion hlast
  refine ⟨⟨0, 1, t, q.line ++ [some ⟨0, 1, ack, false⟩]⟩, [some ⟨0, 1, ack, false⟩], ?_, ?_, ?_, ?_⟩
  · exact { hspoken with line := rfl, base := Or.inl hbase.symm, hears := htaken.symm ▸ hgot }
  · intro hno
    cases hno
  · rintro _ ⟨⟩
    exact hstands _
  · refine List.rel_append (shows_reissue h.line hitems) ?_
    rw [hout]
    exact .cons hshown .nil

theorem Placed.connect {iss peer : UInt32} {p : Endpoint} {q : Party} (h : Placed iss peer p q)
    (hnone : p.conn = none) (now : Nat) (sock : Option (Fin pfSockMax)) (lip : UInt32)
    (lport : UInt16) (rip : UInt32) (rport : UInt16) (iss' : UInt32) (st : Stats) :
    let c := tcpOpenActiveConn now sock lip lport rip rport iss' st
    ∃ q' out, Turn 65536 none q q' out ∧
      Placed iss' peer { p with conn := some c, log := p.log ++ c.out } q' := by
  intro c
  have htalk := tcpStartSyn_talk now tcpSyn
    ((Conn.start (activeTcb sock lip lport rip rport iss') st).count .tcpActiveOpens) (by decide)
    (by decide)
  have hstate : c.tcb.state = .synSent := congrArg TalkView.state htalk
  refine h.opened hnone 0 none ?_ (congrArg TalkView.out htalk)
    (Shown.first rfl (by decide) (by decide) (by decide) (by decide) rfl (by simp)) (by simp) rfl
  exact fun l => Stands.opened (.active ..) (congrArg TalkView.iss htalk)
    (congrArg TalkView.una htalk) (congrArg TalkView.nxt htalk) (fun _ => rfl)
    (fun hno => absurd hstate hno) l

theorem Placed.accept {iss peer : UInt32} {p : Endpoint} {q : Party} (h : Placed iss peer p q)
    (hnone : p.conn = none) {g : Seg} {i : Item} (hshown : Shown peer iss g i)
    (hsyn : g.has tcpSyn = true) (x : Arrival) :
    let c := tcpOpenPassiveConn x.now x.listener g.dport x.iss g x.stats
    ∃ q' out, Turn 65536 (some i) q q' out ∧
      Placed x.iss peer { p with conn := some c, log := p.log ++ c.out } q' := by
  intro c
  obtain ⟨hzero, hspan⟩ := hshown.syn hsyn
  have hseq : g.seq + 1 = pos peer 1 := by
    rw [hshown.seq, hzero, SeqSpace.pos_succ]
  set d := (tcpTakeMss
    ((Conn.start (passiveTcb x.listener g.dport x.iss g) x.stats).count .tcpPassiveOpens)
      g).setState .synRcvd with hd
  have hview : d.talk = ⟨.synRcvd, x.iss, x.iss, x.iss + 1, g.seq + 1, 65536, []⟩ := by
    rw [hd]
    unfold tcpTakeMss
    simp only
    split <;> rfl
  have htalk := tcpStartSyn_talk x.now (tcpSyn ||| tcpAck) d (by decide) (by decide)
  rw [hview] at htalk
  have hstate : c.tcb.state = .synRcvd := congrArg TalkView.state htalk
  have hout : c.out = [tcpSegment d.tcb (tcpSyn ||| tcpAck) d.tcb.iss 0 0] := by
    have hnil : d.out = [] := congrArg TalkView.out hview
    rw [hnil] at htalk
    exact congrArg TalkView.out htalk
  refine h.opened hnone 1 (some 1) ?_ hout
    (Shown.first (congrArg TalkView.iss hview) (by decide) (by decide) (by decide)
      (by decide) rfl ?_)
    (by simp) ?_
  · refine fun l => Stands.opened (.passive ..) (congrArg TalkView.iss htalk)
      (congrArg TalkView.una htalk) (congrArg TalkView.nxt htalk) ?_
        (fun _ => ⟨Nat.le_refl 1, ?_⟩) l
    · exact fun hno => absurd (hstate.symm.trans hno) (by decide)
    · have hpeer : g.seq = peer := by rw [hshown.seq, hzero, SeqSpace.pos_zero]
      rw [tcpOpenPassiveConn_recv, ← hpeer]
      exact Level.syn (v := (Conn.start (passiveTcb x.listener g.dport x.iss g) x.stats).recv)
        rfl rfl .synRcvd g.seq
  · rintro a ⟨⟩
    exact ⟨Nat.le_refl 1, (congrArg TalkView.rcv hview).trans hseq⟩
  · change 1 = max 0 i.stop
    rw [hshown.stop, hzero, hspan]
    rfl

end Opening

/-! ### Runs -/

/-- Both endpoints are parties of one dialogue, with the given first sequence
numbers. -/
structure Agreed (n : Net) (isn : Side → UInt32) (party : Side → Party) : Prop where
  placed : ∀ s, Placed (isn s) (isn s.other) (n s) (party s)
  linked : ∀ s, Duplex.Linked 65536 (party s) (party s.other)

/-- No connection of the endpoint was freed. -/
def Endpoint.Live (p : Endpoint) : Prop := ∀ c, p.conn = some c → c.fate = .alive

namespace Agreed

variable {n : Net} {isn : Side → UInt32} {party : Side → Party} {s : Side}

theorem back (h : Agreed n isn party) (s : Side) :
    Duplex.Linked 65536 (party s.other) (party s) := by
  have hlink := h.linked s.other
  rw [Side.other_other] at hlink
  exact hlink

/-- One side takes its turn on what it takes from the pipe. -/
theorem act (h : Agreed n isn party) {got : Option Item} {heard rest : List (Option Item)}
    {left : List Seg} (hline : (party s.other).line = heard ++ rest)
    (hheard : items heard = got.toList)
    (hleft : List.Forall₂ (Shows (isn s.other) (isn s)) left rest) {p : Endpoint} {q : Party}
    {out : List (Option Item)} (hturn : Turn 65536 got (party s) q out)
    (hplaced : Placed (isn s) (isn s.other) p q) :
    ∃ party', Agreed
      (update (update n s.other { n s.other with log := left }) s p) isn party' := by
  have hne : s.other ≠ s := Side.other_ne s
  have hother : Placed (isn s.other) (isn s) (n s.other) (party s.other) := by
    have hside := h.placed s.other
    rw [Side.other_other] at hside
    exact hside
  have hacks : ∀ i ∈ got, ∀ a ∈ i.ack, a ≤ (party s.other).taken := by
    intro i hi a ha
    refine ((h.back s).ack i ?_ a ha).2
    rw [hline, items_append, hheard]
    exact List.mem_append_left _ (Option.mem_toList.mpr hi)
  have hback : Duplex.Linked 65536 { party s.other with line := heard ++ rest } (party s) := by
    rw [← hline]
    exact h.back s
  refine ⟨update (update party s.other { party s.other with line := rest }) s q,
    ?_, ?_⟩
  · intro t
    rcases s.eq_or_other t with rfl | rfl
    · rw [update_self, update_self]
      exact hplaced
    · rw [update_of_ne hne, update_self, update_of_ne hne,
        update_self, Side.other_other]
      refine ⟨fun hno => ⟨(hother.absent hno).1, ?_⟩, fun c hc => { hother.present c hc with },
        hleft⟩
      have hitems := (hother.absent hno).2
      rw [hline, items_append] at hitems
      exact (List.append_eq_nil_iff.mp hitems).2
  · intro t
    rcases s.eq_or_other t with rfl | rfl
    · rw [update_self, update_of_ne hne, update_self]
      exact { hturn.speaks (h.linked t) (h.back t) hacks with }
    · rw [Side.other_other, update_of_ne hne, update_self, update_self]
      exact hturn.hears_line hheard hback

theorem act_alone (h : Agreed n isn party) {p : Endpoint} {q : Party} {out : List (Option Item)}
    (hturn : Turn 65536 none (party s) q out) (hplaced : Placed (isn s) (isn s.other) p q) :
    ∃ party', Agreed (update n s p) isn party' := by
  have hside := h.placed s.other
  rw [Side.other_other] at hside
  have hact := h.act (List.nil_append _).symm rfl hside.line hturn hplaced
  have hsame : update n s.other { n s.other with log := (n s.other).log } = n :=
    update_eq_self s.other n
  rw [hsame] at hact
  exact hact

/-- The first sequence number of a side without a connection is still open. -/
theorem reissue (h : Agreed n isn party) (hnone : (n s).conn = none) (iss : UInt32) :
    Agreed n (update isn s iss) party := by
  have hne : s.other ≠ s := Side.other_ne s
  obtain ⟨⟨-, hused, -⟩, hitems⟩ := (h.placed s).absent hnone
  refine ⟨fun t => ?_, h.linked⟩
  rcases s.eq_or_other t with rfl | rfl
  · rw [update_self, update_of_ne hne]
    refine ⟨(h.placed t).absent, fun c hc => ?_, shows_reissue (h.placed t).line hitems⟩
    exact absurd (hnone.symm.trans hc) (by simp)
  · have htaken := (h.linked s).chain.le
    have hother := h.placed s.other
    rw [update_of_ne hne, Side.other_other, update_self]
    exact hother.repeer (by omega) (fun i hi a ha => ((h.back s).ack i hi a ha).2) iss

theorem head (h : Agreed n isn party) {g : Seg} {rest : List Seg}
    (hlog : (n s.other).log = g :: rest) :
      ∃ y ys, (party s.other).line = y :: ys ∧ Shows (isn s.other) (isn s) g y ∧
      List.Forall₂ (Shows (isn s.other) (isn s)) rest ys := by
  have hside := (h.placed s.other).line
  rw [Side.other_other, hlog] at hside
  obtain ⟨y, ys, hshow, hrest, hline⟩ := List.forall₂_cons_left_iff.mp hside
  exact ⟨y, ys, hline, hshow, hrest⟩

theorem act_on (h : Agreed n isn party) {y : Option Item} {ys : List (Option Item)}
    {rest : List Seg} (hline : (party s.other).line = y :: ys)
    (hrest : List.Forall₂ (Shows (isn s.other) (isn s)) rest ys) {p : Endpoint}
    (hacts : ∃ q out, Turn 65536 y (party s) q out ∧ Placed (isn s) (isn s.other) p q) :
    ∃ party', Agreed
      (update (update n s.other { n s.other with log := rest }) s p) isn party' := by
  obtain ⟨q, out, hturn, hplaced⟩ := hacts
  have hitems : items [y] = y.toList := by cases y <;> rfl
  have hsplit : (party s.other).line = [y] ++ ys := hline
  exact h.act hsplit hitems hrest hturn hplaced

theorem stays (h : Agreed n isn party) {s : Side} {got : Option Item}
    (hgot : heardTo (party s).taken got = (party s).taken) :
    ∃ q out, Turn 65536 got (party s) q out ∧ Placed (isn s) (isn s.other) (n s) q := by
  refine ⟨party s, [], ?_, h.placed s⟩
  exact
    { Spoken.start (h.linked s).flight with
      line := (List.append_nil _).symm
      base := Or.inl rfl
      hears := hgot.symm }

theorem listen (h : Agreed n isn party) (hnone : (n s).conn = none) (x : Arrival) {g : Seg}
    {rest : List Seg} (hlog : (n s.other).log = g :: rest)
    (hkeep : (g.span ≠ 0 && !(g.has tcpSyn && !g.has tcpAck && x.accepts)) = false) :
    ∃ isn' party', Agreed
      (update (update n s.other { n s.other with log := rest }) s
        ((n s).listen x g)) isn' party' := by
  obtain ⟨y, ys, hline, hshow, hrest⟩ := h.head hlog
  have hidle (hno : g.has tcpRst = true ∨ g.span = 0) :
      heardTo (party s).taken y = (party s).taken := by
    cases y with
    | none => rfl
    | some i =>
      have hspan : g.span = 0 := by
        rcases hno with hrst | hspan
        · exact absurd (hshow.rst.symm.trans hrst) (by decide)
        · exact hspan
      have hfirst := ((h.back s).head hline).first
      have hstop := hshow.stop
      exact Nat.max_eq_left (by omega)
  have hempty (hno : (g.has tcpSyn && !g.has tcpAck && x.accepts) = false) : g.span = 0 := by
    simpa [hno] using hkeep
  unfold Endpoint.listen
  split
  · rename_i hrst
    exact ⟨isn, h.act_on hline hrest (h.stays (hidle (Or.inl hrst)))⟩
  rename_i hrst
  split
  · rename_i hack
    have hspan := hempty (by simp [hack])
    exact ⟨isn, h.act_on hline hrest ((h.placed s).reset hnone (hidle (Or.inr hspan)) g)⟩
  split
  · rename_i hsyn
    have hspan := hempty (by simp_all)
    exact ⟨isn, h.act_on hline hrest (h.stays (hidle (Or.inr hspan)))⟩
  rename_i hsyn
  split
  · rename_i hfull
    have hspan := hempty (by simp_all)
    exact ⟨isn, h.act_on hline hrest (h.stays (hidle (Or.inr hspan)))⟩
  · have h' := h.reissue hnone x.iss
    obtain ⟨y, ys, hline, hshow, hrest⟩ := h'.head hlog
    obtain ⟨i, hi, hshown⟩ := Stands.located hshow (by simpa using hrst)
    cases hi
    obtain ⟨q, out, hturn, hplaced⟩ := (h'.placed s).accept hnone hshown (by simpa using hsyn) x
    refine ⟨_, h'.act_on hline hrest ⟨q, out, hturn, ?_⟩⟩
    rw [update_self]
    exact hplaced

/-- A connection takes its turn on the oldest segment. -/
theorem takes (h : Agreed n isn party) {c : Conn} (hc : (n s).conn = some c) {g : Seg}
    {rest : List Seg} (hlog : (n s.other).log = g :: rest)
    (hkeep : PacketForge.keepsOut c.tcb g = false) {now : Nat} {lroom : Option Bool}
    (hlive : (connStep c (.segment now lroom g)).fate = .alive) :
    ∃ party', Agreed
      (update (update n s.other { n s.other with log := rest }) s
        ((n s).run c (.segment now lroom g))) isn party' := by
  obtain ⟨y, ys, hline, hshow, hrest⟩ := h.head hlog
  refine h.act_on hline hrest ((h.placed s).run hc (h.linked s) (h.back s) ?_ hlive)
  refine ⟨fun hno => absurd hno (by simp [ConnEvent.seg]), ?_, ?_, ?_, ?_⟩
  · rintro _ ⟨⟩
    exact hshow
  · rintro _ ⟨⟩
    exact hkeep
  · rintro i rfl
    rw [hline]
    exact Duplex.mem_items.mpr List.mem_cons_self
  · rintro i rfl
    exact (h.back s).head hline

theorem pipe (h : Agreed n isn party) (ev : PipeEvent) (hev : n.Piped ev)
    (hkeep : n.keepsOut ev = false) (hlive : ∀ s, (n.pipe ev s).Live) :
    ∃ isn' party', Agreed (n.pipe ev) isn' party' := by
  cases ev with
  | connect s now sock lip lport rip rport iss st =>
    simp only [Net.pipe, Endpoint.connect]
    split
    · rename_i hnone
      have h' := h.reissue hnone iss
      obtain ⟨q, out, hturn, hplaced⟩ :=
        (h'.placed s).connect hnone now sock lip lport rip rport iss st
      refine ⟨_, h'.act_alone hturn ?_⟩
      rw [update_self]
      exact hplaced
    · rw [update_eq_self]
      exact ⟨isn, party, h⟩
  | call s e =>
    have hside := hlive s
    simp only [Net.pipe, update_self] at hside ⊢
    unfold Endpoint.call at hside ⊢
    split
    · rw [update_eq_self]
      exact ⟨isn, party, h⟩
    · rename_i c hc
      rw [hc] at hside
      have hgot : Gets (isn s) (isn s.other) c (party s) (party s.other) e none :=
        .nothing hev
      obtain ⟨q, out, hturn, hplaced⟩ :=
        (h.placed s).run hc (h.linked s) (h.back s) hgot (hside _ rfl)
      exact ⟨isn, h.act_alone hturn hplaced⟩
  | deliver s x =>
    have hside := hlive s
    simp only [Net.pipe] at hside ⊢
    split
    · exact ⟨isn, party, h⟩
    · rename_i g rest hlog
      simp only [Net.keepsOut, hlog] at hkeep
      rw [hlog] at hside
      simp only [update_self] at hside
      unfold Endpoint.deliver at hside ⊢
      split
      · rename_i hnone
        rw [hnone] at hkeep
        exact h.listen hnone x hlog hkeep
      · rename_i c hc
        have halive := ((h.placed s).present c hc).alive
        rw [hc] at hside hkeep
        simp only [halive, if_true] at hside ⊢
        exact ⟨isn, h.takes hc hlog hkeep (hside _ rfl)⟩

end Agreed

namespace Endpoint.Live

variable {p : Endpoint}

theorem of_none (h : p.conn = none) : p.Live := by
  intro c hc
  exact absurd (h.symm.trans hc) (by simp)

theorem of_run {c : Conn} {e : ConnEvent} (hc : p.conn = some c) (h : (p.run c e).Live) :
    p.Live := by
  intro d hd
  obtain rfl : c = d := Option.some.inj (hc.symm.trans hd)
  exact connStep_live (h _ rfl)

theorem of_call {e : ConnEvent} (h : (p.call e).Live) : p.Live := by
  unfold Endpoint.call at h
  split at h
  · exact h
  · rename_i c hc
    exact of_run hc h

theorem of_connect {c : Conn} (h : (p.connect c).Live) : p.Live := by
  unfold Endpoint.connect at h
  split at h
  · rename_i hnone
    exact of_none hnone
  · exact h

theorem of_deliver {x : Arrival} {g : Seg} (h : (p.deliver x g).Live) : p.Live := by
  unfold Endpoint.deliver at h
  split at h
  · rename_i hnone
    exact of_none hnone
  · rename_i c hc
    split at h
    · exact of_run hc h
    · exact h

end Endpoint.Live

namespace Net

/-- A connection that exists has existed ever since it was opened. -/
theorem pipe_live {n : Net} {ev : PipeEvent} (h : ∀ s, (n.pipe ev s).Live) (t : Side) :
    (n t).Live := by
  have hupdate {s : Side} {p : Endpoint} (hp : p.Live → (n s).Live)
      (hm : ∀ t, (update n s p t).Live) : (n t).Live := by
    have ht := hm t
    by_cases hts : t = s
    · subst hts
      rw [update_self] at ht
      exact hp ht
    · rw [update_of_ne hts] at ht
      exact ht
  cases ev with
  | connect s now sock lip lport rip rport iss st => exact hupdate Endpoint.Live.of_connect h
  | call s e => exact hupdate Endpoint.Live.of_call h
  | deliver s x =>
    cases hlog : (n s.other).log with
    | nil =>
      have heq : n.pipe (.deliver s x) = n := by simp only [pipe, hlog]
      rw [heq] at h
      exact h t
    | cons g rest =>
      have heq : n.pipe (.deliver s x) =
          update (update n s.other { n s.other with log := rest }) s
            ((n s).deliver x g) := by simp only [pipe, hlog]
      rw [heq] at h
      have ht := h t
      rcases s.eq_or_other t with rfl | rfl
      · rw [update_self] at ht
        exact ht.of_deliver
      · rw [update_of_ne (Side.other_ne s), update_self] at ht
        exact ht

theorem Idle.agreed {n : Net} (h : n.Idle) :
    Agreed n (fun _ => 0) (fun _ => ⟨0, 0, 0, []⟩) := by
  refine ⟨fun s => ?_, fun s => ?_⟩
  · rw [h s]
    refine ⟨fun _ => ⟨⟨rfl, rfl, rfl⟩, rfl⟩, fun c hc => ?_, .nil⟩
    cases hc
  · exact ⟨Nat.le_refl 0, Nat.zero_le _, rfl, fun i hi => absurd hi (by simp [items]), .nil⟩

theorem CleanReach.agreed {n : Net} (hr : n.CleanReach) (hlive : ∀ s, (n s).Live) :
    ∃ isn party, Agreed n isn party := by
  induction hr with
  | start hidle => exact ⟨_, _, hidle.agreed⟩
  | next hr ev hev ih =>
    obtain ⟨isn, party, h⟩ := ih (pipe_live hlive)
    exact h.pipe ev hev.1 hev.2 hlive

end Net

/-! ### Pure acknowledgements -/

/-- The segment takes the branch of `tcp_input` that counts
`tcp_rx_out_of_window`. -/
def outOfWindow (t : Tcb) (g : Seg) : Bool := t.state ≠ .synSent && !segAcceptable t g

/-- The connection on side `s` and the oldest segment under way to it, if both
connections exist and the segment is a pure acknowledgement. -/
def Net.ackTo (n : Net) (s : Side) : Option (Conn × Seg) :=
  match (n s).conn, (n s.other).conn, (n s.other).log with
  | some c, some d, g :: _ =>
    if c.fate = .alive ∧ d.fate = .alive ∧ g.PureAck then some (c, g) else none
  | _, _, _ => none

theorem Net.ackTo_eq {n : Net} {s : Side} {c : Conn} {g : Seg} (h : n.ackTo s = some (c, g)) :
    (n s).conn = some c ∧ (∀ t, (n t).Live) ∧ (∃ rest, (n s.other).log = g :: rest) ∧
      g.PureAck := by
  unfold Net.ackTo at h
  split at h
  · rename_i c' d g' rest hc hd hlog
    split at h
    · rename_i hcond
      obtain ⟨hcl, hdl, hpure⟩ := hcond
      cases h
      refine ⟨hc, fun t => ?_, ⟨rest, hlog⟩, hpure⟩
      rcases s.eq_or_other t with rfl | rfl
      · intro x hx
        obtain rfl : c = x := Option.some.inj (hc.symm.trans hx)
        exact hcl
      · intro x hx
        obtain rfl : d = x := Option.some.inj (hd.symm.trans hx)
        exact hdl
    · cases h
  · cases h

theorem Seg.PureAck.span {g : Seg} (h : g.PureAck) : g.span = 0 := by
  obtain ⟨hflags, hpay⟩ := h
  unfold Seg.span Seg.has
  rw [hflags, hpay]
  rfl

/-- An empty segment at `rcv_nxt` is acceptable, whatever the window. -/
theorem segAcceptable_next {t : Tcb} {g : Seg} (hspan : g.span = 0) (hseq : g.seq = t.rcvNxt) :
    segAcceptable t g = true := by
  rw [segAcceptable_iff, hspan, hseq, UInt32.sub_self]
  cases (tcpRcvWindow t).toNat with
  | zero => exact rfl
  | succ w => exact Nat.succ_pos w

/-- On pipes that lose, duplicate and reorder nothing every pure acknowledgement is
accepted, as long as no receiver has kept out what was delivered to it. -/
theorem pure_acks_accepted {n : Net} (hr : n.CleanReach) {s : Side} {c : Conn} {g : Seg}
    (hack : n.ackTo s = some (c, g)) : outOfWindow c.tcb g = false := by
  obtain ⟨hc, hlive, ⟨rest, hlog⟩, hpure⟩ := Net.ackTo_eq hack
  by_cases hst : c.tcb.state = .synSent
  · simp [outOfWindow, hst]
  obtain ⟨isn, party, h⟩ := hr.agreed hlive
  obtain ⟨y, ys, hline, hshow, -⟩ := h.head hlog
  have hrst : g.has tcpRst = false := by
    unfold Seg.has
    rw [hpure.1]
    rfl
  obtain ⟨i, hi, hshown⟩ := Stands.located hshow hrst
  cases hi
  have hfirst := ((h.back s).head hline).last (hshown.last hpure)
  have hnxt : c.tcb.rcvNxt = pos (isn s.other) (party s).taken :=
    (((h.placed s).present c hc).level hst).2.nxt
  have hseq : g.seq = c.tcb.rcvNxt := by rw [hshown.seq, hfirst, hnxt]
  simp [outOfWindow, segAcceptable_next hpure.span hseq]

/-- No connection, and nothing under way. -/
def silence : Net := fun _ => Endpoint.idle

/-- One side connects, and the answer of the other has come back. -/
def greeting : List PipeEvent :=
  [.connect .active 0 none 1 5000 2 80 100 Stats.zero, .deliver .passive calm,
    .deliver .active calm]

/-- Two segments that are acknowledged. -/
def twoSegments : List PipeEvent :=
  [.call .active (.send 1 (List.replicate 2920 0)), .deliver .passive calm,
    .deliver .passive calm, .deliver .active calm]

/-- The handshake, and two segments of text under way to be acknowledged. -/
def exchange : List PipeEvent := greeting ++ [.deliver .passive calm] ++ twoSegments.take 3

theorem pure_acks_accepted_exchange :
    ∃ c g, (exchange.foldl Net.pipe silence).ackTo .active = some (c, g) ∧ g.ack = 3021 ∧
      outOfWindow c.tcb g = false := by
  have hr : (exchange.foldl Net.pipe silence).CleanReach :=
    Run.Reach.foldl (.start fun _ => rfl) exchange (by decide +kernel)
  have hsome : ((exchange.foldl Net.pipe silence).ackTo .active).any
      (fun x => decide (x.2.ack = 3021)) = true := by decide +kernel
  obtain ⟨⟨c, g⟩, hack, hnum⟩ := (Option.any_eq_true _ _).mp hsome
  exact ⟨c, g, hack, of_decide_eq_true hnum, pure_acks_accepted hr hack⟩

/-- The last bytes fill the window, and its closing is made known. A byte is
probed with and kept out. Then the other side sends a byte, which is
acknowledged. -/
def closing : List PipeEvent :=
  [.call .active (.send 1 (List.replicate 1295 0)), .deliver .passive calm,
    .call .passive (.tick 100), .deliver .active calm, .call .active (.send 100 [0]),
    .call .active (.tick 101), .deliver .passive calm, .call .passive (.send 102 [0]),
    .deliver .active calm, .deliver .active calm, .call .active (.tick 150)]

/-- A receiver that reads nothing until its window is closed and probed. -/
def stalled : List PipeEvent :=
  greeting ++ [.deliver .passive calm] ++ (List.replicate 22 twoSegments).flatten ++ closing

theorem probe_then_ack_rejected :
    (stalled.foldl Net.pipe silence).PipeReach ∧
      ∃ c g, (stalled.foldl Net.pipe silence).ackTo .passive = some (c, g) ∧
        outOfWindow c.tcb g = true ∧
        (tcpInputConn 151 none g c).stats .tcpRxOutOfWindow = c.stats .tcpRxOutOfWindow + 1 := by
  refine ⟨Run.Reach.foldl (.start fun _ => rfl) stalled (by decide +kernel), ?_⟩
  have hsome : ((stalled.foldl Net.pipe silence).ackTo .passive).any (fun x =>
      decide (outOfWindow x.1.tcb x.2 = true ∧
        (tcpInputConn 151 none x.2 x.1).stats .tcpRxOutOfWindow =
          x.1.stats .tcpRxOutOfWindow + 1)) = true := by decide +kernel
  obtain ⟨⟨c, g⟩, hack, hout⟩ := (Option.any_eq_true _ _).mp hsome
  exact ⟨c, g, hack, of_decide_eq_true hout⟩

end PacketForge
