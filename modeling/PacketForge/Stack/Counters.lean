import PacketForge.Host.Traffic
import PacketForge.Stack.Bounds

/-!
Every received packet is counted once at each layer. A layer of the input path
has counters for the packets that enter it and counters for the packets that
leave it; their difference is what it still owes. A counter of received packets
moves one packet out of a layer, into a layer or from one to the next, so that a
frame whose way is counted to its end leaves no layer in debt.
-/

namespace PacketForge

open Checked

inductive Layer where
  | eth | ip | delivery | icmp | udp
deriving DecidableEq

/-- The packets that enter a layer. A reassembled datagram enters IP again: its
fragments have left it. -/
def Layer.enters : Layer → List Stat
  | .eth => [.ethRxFrames]
  | .ip => [.ipRx, .ipReassCompleted]
  | .delivery => [.ipRxDelivered]
  | .icmp => [.icmpRx]
  | .udp => [.udpRx]

/-- The ways out of a layer. -/
def Layer.leaves : Layer → List Stat
  | .eth => [.ethRxRunts, .ethRxOtherDest, .ethRxUnknownEthertype, .arpRx, .ipRx]
  | .ip =>
    [.ipRxTruncated, .ipRxBadVersion, .ipRxBadIhl, .ipRxBadLen, .ipRxBadCsum, .ipRxBadSrc,
      .ipRxBcastIgnored, .ipRxNotForUs, .ipFwdBadDst, .ipFwdTtlExceeded, .ipFwdNoRoute,
      .ipFwdMtuDrop, .ipFwdForwarded, .ipFragsRx, .ipRxDelivered]
  | .delivery => [.icmpRx, .udpRx, .tcpRxSegs, .ipRxProtoUnreach]
  | .icmp =>
    [.icmpRxMalformed, .icmpRxBadCsum, .icmpEchoReqRx, .icmpEchoReplyRx, .icmpRxErrors,
      .icmpRxOther]
  | .udp => [.udpRxMalformed, .udpRxBadCsum, .udpRxNoSock, .udpRxQDrops, .udpRxDelivered]

theorem Layer.received {L : Layer} {c : Stat} (h : c ∈ L.enters ∨ c ∈ L.leaves) :
    c.received = true := by
  have hall : ∀ c ∈ L.enters ++ L.leaves, c.received = true := by cases L <;> decide
  exact hall c (List.mem_append.mpr h)

/-! ### What a layer owes -/

def Stats.sum (st : Stats) (l : List Stat) : UInt64 := (l.map st).foldr (· + ·) 0

variable (L : Layer) (st : Stats) (c : Stat)

theorem Stats.sum_cons (l : List Stat) : st.sum (c :: l) = st c + st.sum l := rfl

/-- What entered the layer and has not left it. -/
def Layer.due (L : Layer) (st : Stats) : UInt64 := st.sum L.enters - st.sum L.leaves

/-- What one more packet on a counter adds to that. -/
def Layer.weight (L : Layer) (c : Stat) : UInt64 :=
  UInt64.ofNat (L.enters.count c) - UInt64.ofNat (L.leaves.count c)

theorem Stats.sum_inc (l : List Stat) : (st.inc c).sum l = st.sum l + UInt64.ofNat (l.count c) := by
  induction l with
  | nil => rfl
  | cons d l ih =>
    rw [Stats.sum_cons, Stats.sum_cons, ih, List.count_cons]
    by_cases hdc : d = c
    · rw [hdc, Stats.inc_self, if_pos (beq_self_eq_true c), UInt64.ofNat_add]
      grind
    · rw [Stats.inc_of_ne st hdc, if_neg (by simpa using hdc), Nat.add_zero]
      grind

theorem Layer.due_inc : L.due (st.inc c) = L.due st + L.weight c := by
  unfold Layer.due Layer.weight
  rw [Stats.sum_inc, Stats.sum_inc]
  grind

theorem Stats.sum_congr {st st' : Stats} {l : List Stat} (h : ∀ c ∈ l, st' c = st c) :
    st'.sum l = st.sum l := by
  unfold Stats.sum
  rw [List.map_congr_left h]

theorem Layer.due_same {st st' : Stats} (h : st.Same st') : L.due st' = L.due st := by
  unfold Layer.due
  rw [Stats.sum_congr fun c hc => h c (Layer.received (Or.inl hc)),
    Stats.sum_congr fun c hc => h c (Layer.received (Or.inr hc))]

def Layer.weights (L : Layer) (cs : List Stat) : UInt64 := (cs.map L.weight).foldr (· + ·) 0

theorem Layer.weights_cons (cs : List Stat) : L.weights (c :: cs) = L.weight c + L.weights cs := rfl

theorem Layer.weights_append (cs ds : List Stat) :
    L.weights (cs ++ ds) = L.weights cs + L.weights ds := by
  induction cs with
  | nil =>
    change L.weights ds = 0 + L.weights ds
    grind
  | cons c cs ih =>
    rw [List.cons_append, Layer.weights_cons, Layer.weights_cons, ih]
    grind

theorem Layer.due_counts (s : Stack) (cs : List Stat) :
    L.due (s.counts cs).stats = L.due s.stats + L.weights cs := by
  induction cs generalizing s with
  | nil =>
    change L.due s.stats = L.due s.stats + 0
    grind
  | cons c cs ih =>
    have hcount : (s.counts (c :: cs)) = (s.count c).counts cs := rfl
    rw [hcount, ih, Layer.weights_cons, Stack.count, L.due_inc]
    grind

/-! ### Packets on their way -/

def Layer.all : List Layer := [.eth, .ip, .delivery, .icmp, .udp]

theorem Layer.mem_all : L ∈ Layer.all := by cases L <;> decide

/-- The counters say of one packet that it left the layer, and account for it in
every layer it then entered. -/
def Leaves (L : Layer) (cs : List Stat) : Prop :=
  ∀ M, M.weights cs = if M = L then -1 else 0

instance (L : Layer) (cs : List Stat) : Decidable (Leaves L cs) :=
  decidable_of_iff (∀ M ∈ Layer.all, M.weights cs = if M = L then -1 else 0)
    ⟨fun h M => h M M.mem_all, fun h M _ => h M⟩

theorem Leaves.cons {K L : Layer} {c : Stat} {cs : List Stat} (h : Leaves L cs)
    (hc : ∀ M ∈ Layer.all, M.weight c = (if M = K then -1 else 0) - if M = L then -1 else 0) :
    Leaves K (c :: cs) := by
  intro M
  rw [Layer.weights_cons, hc M M.mem_all, h M]
  grind

/-- What remains to be counted when an action is carried out. -/
def Action.owed : Action → List Stat
  | .segment _ => [.tcpRxSegs]
  | _ => []

/-- A decision accounts for the packet, unless the stack stops at it. -/
def Settles (L : Layer) (r : List Stat × Action) : Prop := r.2 ≠ .null → Leaves L (r.1 ++ r.2.owed)

theorem Settles.of_leaves {L : Layer} {cs : List Stat} {a : Action} (ha : a.owed = [])
    (h : Leaves L cs) : Settles L (cs, a) := by
  intro _
  rw [ha, List.append_nil]
  exact h

theorem Settles.tally {K L : Layer} {c : Stat} {r : List Stat × Action} (h : Settles L r)
    (hc : ∀ M ∈ Layer.all, M.weight c = (if M = K then -1 else 0) - if M = L then -1 else 0) :
    Settles K (tally c r) := fun hnull => Leaves.cons (h hnull) hc

section Settles

variable (s : Stack) (d : Datagram)

theorem icmpAct_settles : Settles .icmp (icmpAct d) := by
  unfold icmpAct
  simp only
  split
  · exact .of_leaves rfl (by decide)
  split
  · exact .of_leaves rfl (by decide)
  split
  · split
    · exact .of_leaves rfl (by decide)
    · exact .of_leaves rfl (by decide)
  split
  · exact .of_leaves rfl (by decide)
  split
  · exact .of_leaves rfl (by decide)
  · exact .of_leaves rfl (by decide)

theorem udpSockAct_settles : Settles .udp (udpSockAct s d) := by
  unfold udpSockAct
  simp only
  split
  · exact .of_leaves rfl (by decide)
  split
  · exact .of_leaves rfl (by decide)
  · exact .of_leaves rfl (by decide)

theorem udpAct_settles : Settles .udp (udpAct s d) := by
  unfold udpAct
  simp only
  split
  · exact .of_leaves rfl (by decide)
  split
  · exact .of_leaves rfl (by decide)
  split
  · exact (udpSockAct_settles s d).tally (by decide)
  split
  · exact .of_leaves rfl (by decide)
  · exact udpSockAct_settles s d

theorem tcpAct_settles : Settles .delivery (tcpAct d) := by
  unfold tcpAct
  simp only
  split
  · exact .of_leaves rfl (by decide)
  split
  · exact .of_leaves rfl (by decide)
  split
  · exact .of_leaves rfl (by decide)
  · intro _
    change Leaves .delivery [.tcpRxSegs]
    decide

theorem deliverAct_settles : Settles .ip (deliverAct s d) := by
  unfold deliverAct
  refine Settles.tally (L := .delivery) ?_ (by decide)
  split
  · exact (icmpAct_settles d).tally (by decide)
  split
  · exact (udpAct_settles s d).tally (by decide)
  split
  · exact tcpAct_settles d
  · exact .of_leaves rfl (by decide)

theorem forwardAct_settles (indev : DevIdx) (q : IpPkt) : Settles .ip (forwardAct s indev q) := by
  unfold forwardAct
  simp only
  split
  · exact .of_leaves rfl (by decide)
  split
  · exact .of_leaves rfl (by decide)
  split
  · exact .of_leaves rfl (by decide)
  split
  · exact .of_leaves rfl (by decide)
  split
  · exact fun hnull => absurd rfl hnull
  split
  · refine .of_leaves ?_ (by decide)
    split <;> rfl
  · refine .of_leaves rfl ?_
    split <;> decide

end Settles

/-- What remains to be counted of a frame. -/
def Verdict.owed : Verdict → List Stat
  | .act a => a.owed
  | .arp _ => [.arpRx]
  | .frag _ => []

def Verdict.Settles (L : Layer) (r : List Stat × Verdict) : Prop :=
  r.2 ≠ .act .null → Leaves L (r.1 ++ r.2.owed)

theorem Settles.verdict {L : Layer} {r : List Stat × Action} (h : Settles L r) :
    Verdict.Settles L (r.1, .act r.2) := fun hnull => h fun heq => hnull (congrArg Verdict.act heq)

theorem Verdict.Settles.tally {K L : Layer} {c : Stat} {r : List Stat × Verdict}
    (h : Verdict.Settles L r)
    (hc : ∀ M ∈ Layer.all, M.weight c = (if M = K then -1 else 0) - if M = L then -1 else 0) :
    Verdict.Settles K (tally c r) := fun hnull => Leaves.cons (h hnull) hc

theorem Verdict.Settles.of_leaves {L : Layer} {cs : List Stat} {v : Verdict}
    (h : Leaves L (cs ++ v.owed)) : Verdict.Settles L (cs, v) := fun _ => h

theorem ipParse_leaves {p : Pkt} {c : Stat} (h : ipParse p = .error c) : Leaves .ip [c] := by
  unfold ipParse at h
  simp only at h
  split at h
  · cases h
    decide
  split at h
  · cases h
    decide
  split at h
  · cases h
    decide
  split at h
  · cases h
    decide
  split at h
  · cases h
    decide
  split at h
  · cases h
    decide
  split at h
  · cases h
    decide
  split at h
  · cases h
    decide
  · cases h

theorem routeVerdict_settles (s : Stack) (dev : DevIdx) (q : IpPkt) :
    Verdict.Settles .ip (routeVerdict s dev q) := by
  unfold routeVerdict
  simp only
  split
  · split
    · exact .of_leaves (by decide)
    split
    · exact (forwardAct_settles s dev q).verdict
    · exact .of_leaves (by decide)
  split
  · refine .of_leaves ?_
    change Leaves .ip [.ipFragsRx]
    decide
  · exact (deliverAct_settles s q.datagram).verdict

theorem ipVerdict_settles (s : Stack) (dev : DevIdx) (p : Pkt) :
    Verdict.Settles .eth (ipVerdict s dev p) := by
  unfold ipVerdict
  refine Verdict.Settles.tally (L := .ip) ?_ (by decide)
  split
  · rename_i c hparse
    exact .of_leaves (ipParse_leaves hparse)
  · exact routeVerdict_settles s dev _

/-- A frame is counted to the end of its way. -/
theorem ethVerdict_settles (s : Stack) (dev : DevIdx) (p : Pkt)
    (hnull : (ethVerdict s dev p).2 ≠ .act .null) (L : Layer) :
    L.weights ((ethVerdict s dev p).1 ++ (ethVerdict s dev p).2.owed) = 0 := by
  have hframe {r : List Stat × Verdict} (h : Verdict.Settles .eth r) (hr : r.2 ≠ .act .null) :
      L.weights ((tally .ethRxFrames r).1 ++ (tally .ethRxFrames r).2.owed) = 0 := by
    have hin : ∀ M ∈ Layer.all, M.weight .ethRxFrames = if M = .eth then 1 else 0 := by decide
    change L.weights (.ethRxFrames :: (r.1 ++ r.2.owed)) = 0
    rw [Layer.weights_cons, hin L L.mem_all, h hr L]
    grind
  refine hframe ?_ hnull
  split
  · simp only
    split
    · exact .of_leaves (by decide)
    split
    · refine .of_leaves ?_
      change Leaves .eth [.arpRx]
      decide
    split
    · exact ipVerdict_settles s dev _
    · exact .of_leaves (by decide)
  · exact .of_leaves (by decide)

/-! ### Carrying it out -/

section Steps

variable {s : Stack} {now : Nat}

theorem perform_counts (s : Stack) (now : Nat) (a : Action) :
    Post Fault.inBounds (fun s' => (s.counts a.owed).stats.Same s'.stats) (perform s now a) := by
  cases a with
  | quiet => exact Stats.Same.refl _
  | echo d =>
    refine Post.bind (pktTx_inBounds _) fun p _ => ?_
    exact (ipOutput_sent (Sent.refl s) _ _ _ _ p).imp fun _ h => h.stats
  | error orig type code =>
    exact (icmpSendError_sent (Sent.refl s) orig type code).imp fun _ h => h.stats
  | hop out nextHop p => exact (arpOutput_sent (Sent.refl s) nextHop p).imp fun _ h => h.stats
  | queue sk x => exact Stats.Same.refl _
  | segment g =>
    exact (runHost_sent s now _).imp fun _ h => (tcpInput_same now g s.host).trans h.stats
  | null => exact Fault.inBounds_null

theorem perform_due (s : Stack) (now : Nat) (a : Action) :
    Post Fault.inBounds
      (fun s' => a ≠ .null ∧ ∀ L : Layer, L.due s'.stats = L.due s.stats + L.weights a.owed)
      (perform s now a) := by
  by_cases hnull : a = .null
  · rw [hnull]
    exact Fault.inBounds_null
  · refine (perform_counts s now a).imp fun s' h => ⟨hnull, fun L => ?_⟩
    rw [L.due_same h, L.due_counts]

theorem deliver_due (s : Stack) (now : Nat) (d : Datagram) :
    Post Fault.inBounds
      (fun s' => ∀ L : Layer, L.due s'.stats = L.due s.stats + if L = .ip then -1 else 0)
      (deliver s now d) := by
  refine (perform_due _ now _).imp fun s' h L => ?_
  have hleaves := deliverAct_settles s d h.1 L
  rw [Layer.weights_append] at hleaves
  rw [h.2 L, L.due_counts, ← hleaves]
  grind

theorem ctxFor_same (r : Reass) (now : Nat) (dev : Option DevIdx) (heap : Nat → UInt8)
    (d : Datagram) : (ctxFor r now dev heap d).2.delivered = r.delivered ∧
      r.stats.Same (ctxFor r now dev heap d).2.stats := by
  unfold ctxFor
  split
  · exact ⟨rfl, Stats.Same.refl _⟩
  · unfold ctxAlloc
    cases Slots.first fun i => !(r.ctxs i).inUse with
    | some i => exact ⟨rfl, Stats.Same.refl _⟩
    | none => exact ⟨rfl, (Stats.Same.refl r.stats).inc rfl⟩

theorem ctxAdd_error {c : ReassCtx} {d : Datagram} {x : Stat} (h : ctxAdd c d = .error x) :
    x.received = false := by
  unfold ctxAdd at h
  split at h
  · cases h
    rfl
  split at h
  · cases h
    rfl
  split at h
  · cases h
    rfl
  split at h
  · cases h
    rfl
  · cases h

/-- Reassembly counts the datagram that it hands up. -/
theorem ipReassInput_same (r : Reass) (now : Nat) (dev : Option DevIdx) (heap : Nat → UInt8)
    (d : Datagram) :
    ((ipReassInput r now dev heap d).delivered = r.delivered ∧
        r.stats.Same (ipReassInput r now dev heap d).stats) ∨
      ((ipReassInput r now dev heap d).delivered.length = r.delivered.length + 1 ∧
        (r.stats.inc .ipReassCompleted).Same (ipReassInput r now dev heap d).stats) := by
  obtain ⟨hdel, hs⟩ := ctxFor_same r now dev heap d
  unfold ipReassInput
  split
  · exact Or.inl ⟨rfl, (Stats.Same.refl _).inc rfl⟩
  generalize ctxFor r now dev heap d = picked at hdel hs
  obtain ⟨i, r'⟩ := picked
  simp only at hdel hs ⊢
  cases hadd : ctxAdd (r'.ctxs i) d with
  | error x => exact Or.inl ⟨hdel, hs.inc (ctxAdd_error hadd)⟩
  | ok c =>
    simp only
    split
    · refine Or.inr ⟨?_, fun x hx => ?_⟩
      · change (r'.delivered ++ [_]).length = _
        rw [List.length_append, hdel]
        rfl
      · change r'.stats.inc .ipReassCompleted x = r.stats.inc .ipReassCompleted x
        unfold Stats.inc Stats.add
        rw [hs .ipReassCompleted rfl]
        by_cases hxc : x = .ipReassCompleted
        · rw [hxc, Function.update_self, Function.update_self]
        · rw [Function.update_of_ne hxc, Function.update_of_ne hxc, hs x hx]
    · exact Or.inl ⟨hdel, hs⟩

/-- A fragment that completes a datagram makes it enter IP, and leave it again. -/
theorem reassemble_due (h : ReassOk s) (heap : Nat → UInt8) (dev : DevIdx) (d : Datagram) :
    Post Fault.inBounds (fun s' => ∀ L : Layer, L.due s'.stats = L.due s.stats)
      (reassemble s now heap dev d) := by
  have hsame := ipReassInput_same s.reass now (some dev) heap d
  have hcases := reassemble_cases h now heap dev d
  generalize reassemble s now heap dev d = m at hcases ⊢
  cases hcases with
  | held hdel =>
    rcases hsame with ⟨-, hst⟩ | ⟨hlen, -⟩
    · exact fun L => L.due_same hst
    · rw [hdel] at hlen
      cases hlen
  | handed hwhole hdel =>
    rcases hsame with ⟨hnone, -⟩ | ⟨-, hst⟩
    · rw [hdel] at hnone
      cases hnone
    · refine (deliver_due _ now _).imp fun s' hs' L => ?_
      have henter : ∀ M ∈ Layer.all, M.weight .ipReassCompleted = if M = .ip then 1 else 0 := by
        decide
      have hdone : L.due (s.putReass (ipReassInput s.reass now (some dev) heap d)).stats =
          L.due s.stats + L.weight .ipReassCompleted := by
        rw [← L.due_inc]
        exact L.due_same hst
      rw [hs' L, hdone, henter L L.mem_all]
      split
      · grind
      · grind

theorem ethInput_due (h : ReassOk s) (heap : Nat → UInt8) (dev : DevIdx) (p : Pkt) :
    Post Fault.inBounds (fun s' => ∀ L : Layer, L.due s'.stats = L.due s.stats)
      (ethInput s now heap dev p) := by
  have hsettles := ethVerdict_settles s dev p
  have hcounts (L : Layer) : L.due (s.counts (ethVerdict s dev p).1).stats =
      L.due s.stats + L.weights (ethVerdict s dev p).1 := L.due_counts s _
  have hok : ReassOk (s.counts (ethVerdict s dev p).1) := h.of_ctxs (Stack.counts_ctxs _ _)
  rw [ethInput_eq]
  generalize s.counts (ethVerdict s dev p).1 = t at hcounts hok
  generalize (ethVerdict s dev p).1 = cs at hsettles hcounts
  cases hv : (ethVerdict s dev p).2 with
  | act a =>
    rw [hv] at hsettles
    refine (perform_due t now a).imp fun s' hs' L => ?_
    have hzero := hsettles (fun heq => hs'.1 (by injection heq)) L
    rw [Layer.weights_append] at hzero
    change L.weights cs + L.weights a.owed = 0 at hzero
    rw [hs'.2 L, hcounts L]
    grind
  | arp p =>
    rw [hv] at hsettles
    refine Post.bind (arpInput_same p t.arp) fun a ha L => ?_
    have hzero := hsettles (fun heq => by cases heq) L
    rw [Layer.weights_append] at hzero
    change L.weights cs + (L.weight .arpRx + 0) = 0 at hzero
    have hdue : L.due a.stats = L.due t.stats + L.weight .arpRx := by
      rw [L.due_same ha]
      exact L.due_inc t.stats .arpRx
    change L.due a.stats = L.due s.stats
    rw [hdue, hcounts L]
    grind
  | frag d =>
    rw [hv] at hsettles
    refine (reassemble_due hok heap dev d).imp fun s' hs' L => ?_
    have hzero := hsettles (fun heq => by cases heq) L
    rw [Layer.weights_append] at hzero
    change L.weights cs + 0 = 0 at hzero
    rw [hs' L, hcounts L]
    grind

theorem ipReassTick_same (r : Reass) (now : Nat) : r.stats.Same (ipReassTick r now).stats := by
  refine Slots.each_invariant (P := fun t : Reass => r.stats.Same t.stats) (fun t i ht => ?_)
    (Stats.Same.refl _)
  unfold ipReassExpire
  simp only
  split
  · exact ht
  split
  · exact ht.inc rfl
  · exact ht.inc rfl

theorem pfTick_same (h : ReassOk s) :
    Post Fault.inBounds (fun s' => s.stats.Same s'.stats) (pfTick s now) := by
  refine Post.bind (arpTick_same (a := s.arp) (Stats.Same.refl _)) fun a ha => ?_
  have hput : ReassOk (s.putArp a) := h.of_ctxs rfl
  have hreass :
      Post Fault.inBounds (fun t => s.stats.Same t.stats) (ipReassTickStack (s.putArp a) now) := by
    have htick : s.stats.Same
        ((s.putArp a).putReass (ipReassTick (s.putArp a).reass now)).stats :=
      Stats.Same.trans ha (ipReassTick_same (s.putArp a).reass now)
    unfold ipReassTickStack
    refine Post.foldlM _ (fun t q hq ht => ?_) htick
    rw [ipReassTick_timedOut] at hq
    obtain ⟨i, -, hi⟩ := List.mem_filterMap.mp hq
    have hlen := timedOut_length hput.gathered hi
    rw [writeAt_ok (by rw [Nat.zero_add]; exact hlen), ok_bind]
    exact (icmpSendError_sent (Sent.refl t) q _ _).imp fun _ hs => ht.trans hs.stats
  refine Post.bind hreass fun t ht => ?_
  refine (runHost_sent t now _).imp fun _ hs => ?_
  exact (ht.trans (tcpTick_same (Stats.Same.refl _) now)).trans hs.stats

/-- No step leaves a layer in debt. -/
theorem stackStep_due (h : ReassOk s) (e : StackEvent) :
    Post Fault.inBounds (fun s' => ∀ L : Layer, L.due s'.stats = L.due s.stats)
      (stackStep s e) := by
  have hsame {m : Except Fault Stack}
      (hm : Post Fault.inBounds (fun s' => s.stats.Same s'.stats) m) :
      Post Fault.inBounds (fun s' => ∀ L : Layer, L.due s'.stats = L.due s.stats) m :=
    hm.imp fun _ hs L => L.due_same hs
  cases e with
  | frame now heap dev f => exact ethInput_due h heap dev f.pkt
  | tick now => exact hsame (pfTick_same h)
  | call now c =>
    unfold stackStep
    refine hsame ((runHost_sent s now _).imp fun _ hs => ?_)
    exact Stats.Same.trans (hostStep_call_same s.host now _) hs.stats
  | resume now expired =>
    unfold stackStep
    refine hsame ((runHost_sent s now _).imp fun _ hs => ?_)
    exact Stats.Same.trans (hostStep_resume_same s.host now expired) hs.stats
  | sendto now sock buf dstIp dstPort =>
    unfold stackStep
    simp only
    split
    · refine hsame ((pfSendto_sent s now sock buf dstIp dstPort).imp fun _ hs => ?_)
      exact Stats.Same.trans (sendtoSock_same sock buf.length dstPort s.host) hs.stats
    · exact fun _ => rfl
  | recvfrom sock =>
    intro L
    unfold pfRecvfrom
    split
    · rfl
    split <;> rfl
  | config op =>
    intro L
    cases op with
    | addr => rfl
    | route op => cases op <;> rfl
    | forwarding => rfl

end Steps

/-! ### Whole runs -/

/-- The identities between the counters of received packets, modulo 2^64. -/
structure Stats.Tallied (st : Stats) : Prop where
  eth : st .ethRxFrames =
    st .ethRxRunts + st .ethRxOtherDest + st .ethRxUnknownEthertype + st .arpRx + st .ipRx
  ip : st .ipRx =
    st .ipRxTruncated + st .ipRxBadVersion + st .ipRxBadIhl + st .ipRxBadLen + st .ipRxBadCsum +
      st .ipRxBadSrc + st .ipRxBcastIgnored + st .ipRxNotForUs + st .ipFwdBadDst +
      st .ipFwdTtlExceeded + st .ipFwdNoRoute + st .ipFwdMtuDrop + st .ipFwdForwarded +
      st .ipFragsRx + (st .ipRxDelivered - st .ipReassCompleted)
  delivered : st .ipRxDelivered =
    st .icmpRx + st .udpRx + st .tcpRxSegs + st .ipRxProtoUnreach
  icmp : st .icmpRx =
    st .icmpRxMalformed + st .icmpRxBadCsum + st .icmpEchoReqRx + st .icmpEchoReplyRx +
      st .icmpRxErrors + st .icmpRxOther
  udp : st .udpRx =
    st .udpRxMalformed + st .udpRxBadCsum + st .udpRxNoSock + st .udpRxQDrops + st .udpRxDelivered

theorem Stats.tallied {st : Stats} (h : ∀ L : Layer, L.due st = 0) : st.Tallied := by
  have heth := h .eth
  have hip := h .ip
  have hdel := h .delivery
  have hicmp := h .icmp
  have hudp := h .udp
  simp only [Layer.due, Layer.enters, Layer.leaves, Stats.sum, List.map_cons, List.map_nil,
    List.foldr_cons, List.foldr_nil] at heth hip hdel hicmp hudp
  constructor
  · grind
  · grind
  · grind
  · grind
  · grind

/-- In every state that frames, ticks, socket calls and changes of the
configuration lead to, each received packet is counted once at each layer. -/
theorem received_counted_once {s : Stack} (h : s.Reach) : s.stats.Tallied := by
  have hinv : ReassOk s ∧ ∀ L : Layer, L.due s.stats = 0 := by
    refine Checked.Reach.invariant (fun s => ReassOk s ∧ ∀ L : Layer, L.due s.stats = 0) ?_ ?_ h
    · intro s hs
      refine ⟨hs.reassOk, fun L => ?_⟩
      obtain ⟨devs, ndevs, forwarding, fib, -, rfl⟩ := hs
      change L.due Stats.zero = 0
      cases L <;> decide
    · intro s e _ hs
      refine ((stackStep_ok hs.1 e).and (stackStep_due hs.1 e)).mono (fun _ _ => trivial) ?_
      intro s' hs'
      exact ⟨hs'.1, fun L => (hs'.2 L).trans (hs.2 L)⟩
  exact Stats.tallied hinv.2

theorem received_counted_once_torn :
    ∃ s, stackStep lanStack (.frame 0 (fun _ => 0) lanDev tornFrame) = .ok s ∧
      s.stats .ethRxFrames = 1 ∧ s.stats .ipRxTruncated = 1 ∧ s.stats.Tallied :=
  ⟨_, rfl, rfl, rfl,
    received_counted_once
      (.next lanStack_reach (.frame 0 (fun _ => 0) lanDev tornFrame) trivial rfl)⟩

end PacketForge
