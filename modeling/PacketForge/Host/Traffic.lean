import PacketForge.Host.Calls
import PacketForge.Host.Listener
import PacketForge.Udp.Socket

/-!
What the host counts and whom it answers. A segment is counted once, a tick and
a socket call count no packet as received; and whatever TCP says to a segment,
it says to the host the segment came from.
-/

namespace PacketForge

/-! ### Counters -/

section Counts

variable {h : Host} {st : Stats} {i : TcbIdx}

theorem tcbDetachSock_stats (h : Host) (i : TcbIdx) (err : PfErr) :
    (tcbDetachSock h i err).stats = h.stats := by
  unfold tcbDetachSock
  split <;> rfl

theorem tcbClear_stats (h : Host) (i : TcbIdx) : (tcbClear h i).stats = h.stats :=
  tcbDetachSock_stats h i .none

theorem tcbFreeRec_same (hs : st.Same h.stats) (depth : Nat) (i : TcbIdx) :
    st.Same (tcbFreeRec depth h i).stats := by
  induction depth generalizing h i with
  | zero => exact (tcbClear_stats h i).symm ▸ hs
  | succ depth ih =>
    unfold tcbFreeRec
    simp only
    rw [tcbClear_stats]
    split
    · refine Slots.each_invariant (P := fun k : Host => st.Same k.stats) (fun k c hk => ?_) hs
      split
      · have hreset : k.stats.Same (tcpSendCtl (k.conn c) (tcpRst ||| tcpAck)).stats :=
          ((Proceeds.refl 0 none (k.conn c)).sendCtl _).counts
        exact ih (hk.trans hreset) c
      · exact hk
    · exact hs

theorem Host.commit_same {c : Conn} (hc : st.Same c.stats) (h : Host) (i : TcbIdx) :
    st.Same (h.commit i c).stats := by
  have henqueue : st.Same ((h.store i c).enqueue i c).stats := by
    unfold Host.enqueue
    split <;> exact hc
  unfold Host.commit
  simp only
  split
  · exact henqueue
  · refine tcbFreeRec_same ?_ _ i
    rw [tcbDetachSock_stats]
    exact henqueue

theorem Host.run_same (hs : st.Same h.stats) {f : Conn → Conn} {src : UInt32} {room : Option Bool}
    (hf : Proceeds src room (h.conn i) (f (h.conn i))) : st.Same (h.run i f).stats :=
  Host.commit_same (hs.trans hf.counts) h i

theorem Host.sendResetFor_same (hs : st.Same h.stats) (g : Seg) :
    st.Same (h.sendResetFor g).stats := by
  unfold Host.sendResetFor
  split
  · exact hs
  · exact hs.inc rfl

theorem tcpInput_same (now : Nat) (g : Seg) (h : Host) :
    (h.stats.inc .tcpRxSegs).Same (tcpInput now g h).stats := by
  have hs : (h.stats.inc .tcpRxSegs).Same (h.count .tcpRxSegs).stats := Stats.Same.refl _
  unfold tcpInput
  generalize h.count .tcpRxSegs = k at hs
  simp only
  cases hfind : tcbLookup k g.dst g.dport g.src g.sport with
  | none => exact Host.sendResetFor_same (hs.inc rfl) g
  | some i =>
    simp only
    obtain ⟨-, ⟨hst, -⟩ | ⟨hst, -⟩⟩ := tcbLookup_some hfind
    · rw [if_pos hst]
      unfold tcpInputListen
      split
      · exact hs
      split
      · exact Host.sendResetFor_same hs g
      split
      · exact hs
      split
      · exact hs.inc rfl
      split
      · exact hs.inc rfl
      · exact hs.trans (tcpOpenPassiveConn_proceeds now i _ _ g _).counts
    · rw [if_neg hst]
      exact Host.run_same hs (Proceeds.inputConn now _ g _)

theorem tcpTick_same (hs : st.Same h.stats) (now : Nat) : st.Same (tcpTick now h).stats := by
  refine Slots.each_invariant (P := fun k : Host => st.Same k.stats) (fun k i hk => ?_) hs
  split
  · exact Host.run_same hk ((Proceeds.refl 0 none _).tick now)
  · exact hk

theorem CallOps.same {R : Bindings → Bindings → Prop} {k : Host} (hops : CallOps R h k)
    (hs : st.Same h.stats) : st.Same k.stats := by
  refine hops.invariant (P := fun k => st.Same k.stats) ?_ hs
  intro a b hop ha
  cases hop with
  | run i hf => exact Host.run_same ha hf
  | opened i iss c hc => exact ha.trans hc
  | tcb | port | sock => exact ha

theorem hostStep_call_same (h : Host) (now : Nat) (c : Call) :
    h.stats.Same (hostStep h (.call now c)).stats := by
  have hs : h.stats.Same { h with out := [] }.stats := Stats.Same.refl _
  unfold hostStep
  simp only
  generalize { h with out := [] } = k at hs
  cases h.pending with
  | none => exact (hostCall_ops k now c).same hs
  | some p => exact hs

theorem hostStep_resume_same (h : Host) (now : Nat) (expired : Bool) :
    h.stats.Same (hostStep h (.resume now expired)).stats := by
  have hs : h.stats.Same { h with out := [] }.stats := Stats.Same.refl _
  unfold hostStep
  simp only
  generalize { h with out := [] } = k at hs
  cases h.pending with
  | none => exact hs
  | some p => exact (hostResume_ops k now expired p).same hs

theorem sendtoSock_same (sock : Int) (len : Nat) (dstPort : UInt16) (h : Host) :
    h.stats.Same (sendtoSock sock len dstPort h).1.stats := by
  have hs := Stats.Same.refl h.stats
  unfold sendtoSock
  split
  · exact hs
  split
  · exact hs
  split
  · exact hs
  split
  · simp only
    split <;> exact hs
  · exact hs

end Counts

/-! ### Answers -/

section Answers

variable {h : Host} {g : Seg}

theorem tcbDetachSock_out (h : Host) (i : TcbIdx) (err : PfErr) :
    (tcbDetachSock h i err).out = h.out := by
  unfold tcbDetachSock
  split <;> rfl

theorem tcbDetachSock_listen (h : Host) (i : TcbIdx) (err : PfErr) :
    ((tcbDetachSock h i err).tcbs i).state = (h.tcbs i).state := by
  unfold tcbDetachSock
  split
  · rfl
  · simp [Host.setTcb, Host.setSock]

theorem Host.enqueue_listen (h : Host) (i : TcbIdx) (c : Conn) :
    ((h.enqueue i c).tcbs i).state = (h.tcbs i).state := by
  unfold Host.enqueue acceptqPush
  split
  · rename_i l _ _
    by_cases hl : i = l
    · subst hl
      simp [Host.setTcb]
    · simp [Host.setTcb, hl]
  · rfl

theorem Host.commit_out (h : Host) {i : TcbIdx} {c : Conn} (hst : c.tcb.state ≠ .listen) :
    (h.commit i c).out = h.out ++ c.out := by
  have hout : ((h.store i c).enqueue i c).out = h.out ++ c.out := by
    unfold Host.enqueue
    split <;> rfl
  have hstored : ((h.store i c).tcbs i).state = c.tcb.state := by
    simp [Host.store, Host.setTcb]
  unfold Host.commit
  simp only
  split
  · exact hout
  · rename_i err _
    have hleaf : ((tcbDetachSock ((h.store i c).enqueue i c) i err).tcbs i).state ≠ .listen := by
      rw [tcbDetachSock_listen, Host.enqueue_listen, hstored]
      exact hst
    unfold tcbFree
    rw [tcbFreeRec_leaf _ hleaf, tcbClear]
    change (tcbDetachSock _ i .none).out = _
    rw [tcbDetachSock_out, tcbDetachSock_out, hout]

theorem Host.sendResetFor_dst (hout : ∀ r ∈ h.out, r.dst = g.src) :
    ∀ r ∈ (h.sendResetFor g).out, r.dst = g.src := by
  unfold Host.sendResetFor tcpResetFor
  split
  · exact hout
  · rename_i r hr
    split at hr
    · cases hr
    · cases hr
      intro r hmem
      rcases List.mem_append.mp hmem with hold | hnew
      · exact hout r hold
      · rw [List.mem_singleton.mp hnew]

theorem tcpInput_dst (now : Nat) (hout : h.out = []) :
    ∀ r ∈ (tcpInput now g h).out, r.dst = g.src := by
  have hnone : ∀ r ∈ (h.count .tcpRxSegs).out, r.dst = g.src := by
    intro r hr
    change r ∈ h.out at hr
    rw [hout] at hr
    cases hr
  have hempty : (h.count .tcpRxSegs).out = [] := hout
  have hto {c d : Conn} {room : Option Bool} (hd : Proceeds g.src room c d) (hc : c.out = [])
      (hpeer : c.tcb.remoteIp = g.src) : ∀ r ∈ d.out, r.dst = g.src := by
    intro r hr
    rcases hd.out r hr with hold | hnew | hnew
    · rw [hc] at hold
      cases hold
    · exact hnew.trans hpeer
    · exact hnew
  unfold tcpInput
  generalize h.count .tcpRxSegs = k at hnone hempty
  simp only
  cases hfind : tcbLookup k g.dst g.dport g.src g.sport with
  | none => exact Host.sendResetFor_dst (h := k.count _) hnone
  | some i =>
    simp only
    obtain ⟨-, ⟨hst, -⟩ | ⟨hst, hconn⟩⟩ := tcbLookup_some hfind
    · rw [if_pos hst]
      unfold tcpInputListen
      split
      · exact hnone
      split
      · exact Host.sendResetFor_dst hnone
      split
      · exact hnone
      split
      · exact hnone
      split
      · exact hnone
      · change ∀ r ∈ k.out ++ _, r.dst = g.src
        rw [hempty, List.nil_append]
        exact hto (tcpOpenPassiveConn_proceeds now i _ _ g _) rfl rfl
    · rw [if_neg hst]
      simp only [Tcb.connects, Bool.and_eq_true, decide_eq_true_eq] at hconn
      have hrun := Proceeds.inputConn now (acceptRoom k i) g (k.conn i)
      rw [Host.run, Host.commit_out k (hrun.not_listen hst), hempty, List.nil_append]
      exact hto hrun rfl hconn.1.2

end Answers

end PacketForge
