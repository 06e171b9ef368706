import PacketForge.Host.Socket

/-!
What TCP leaves alone. The functions that process a connection may take a socket's
connection away and mark it with an error; nothing else of the sockets changes,
nor does the call that waits for the event loop.
-/

namespace PacketForge

structure ApiView where
  socks : SockIdx → PfSock
  ephemeralNext : UInt16
  pending : Option Pending

def Host.api (h : Host) : ApiView where
  socks := fun s => { h.socks s with tcb := none, err := .none }
  ephemeralNext := h.ephemeralNext
  pending := h.pending

section Frame

variable (h : Host)

theorem Host.setSock_api {s : SockIdx} {x : PfSock}
    (hx : { x with tcb := none, err := .none } = { h.socks s with tcb := none, err := .none }) :
    (h.setSock s x).api = h.api := by
  unfold Host.api
  congr 1
  funext j
  by_cases hj : j = s
  · subst hj
    simp only [Host.setSock, Function.update_self]
    exact hx
  · simp only [Host.setSock, Function.update_of_ne hj]

variable (now : Nat) (g : Seg) (i : TcbIdx)

theorem tcbDetachSock_api (err : PfErr) : (tcbDetachSock h i err).api = h.api := by
  unfold tcbDetachSock
  split
  · rfl
  · exact h.setSock_api rfl

theorem tcbClear_api : (tcbClear h i).api = h.api := tcbDetachSock_api h i .none

theorem tcbFreeRec_api (depth : Nat) (i : TcbIdx) : (tcbFreeRec depth h i).api = h.api := by
  induction depth generalizing h i with
  | zero => exact tcbClear_api h i
  | succ depth ih =>
    unfold tcbFreeRec
    simp only
    rw [tcbClear_api]
    split
    · refine Slots.each_invariant (P := fun k : Host => k.api = h.api) (fun k c hk => ?_) rfl
      split
      · rw [ih]
        exact hk
      · exact hk
    · rfl

theorem Host.enqueue_api (c : Conn) : (h.enqueue i c).api = h.api := by
  unfold Host.enqueue
  split <;> rfl

theorem Host.run_api (f : Conn → Conn) : (h.run i f).api = h.api := by
  unfold Host.run Host.commit
  simp only
  split
  · exact Host.enqueue_api _ i _
  · unfold tcbFree
    rw [tcbFreeRec_api, tcbDetachSock_api]
    exact Host.enqueue_api _ i _

theorem Host.sendResetFor_api : (h.sendResetFor g).api = h.api := by
  unfold Host.sendResetFor
  split <;> rfl

theorem tcpInputListen_api : (tcpInputListen now g i h).api = h.api := by
  unfold tcpInputListen
  split
  · rfl
  split
  · exact h.sendResetFor_api g
  split
  · rfl
  split
  · rfl
  split <;> rfl

theorem tcpInput_api : (tcpInput now g h).api = h.api := by
  unfold tcpInput
  simp only
  split
  · exact Host.sendResetFor_api _ g
  split
  · exact tcpInputListen_api _ now g _
  · exact Host.run_api _ _ _

theorem tcpTick_api : (tcpTick now h).api = h.api := by
  refine Slots.each_invariant (P := fun k : Host => k.api = h.api) (fun k i hk => ?_) rfl
  split
  · rw [Host.run_api]
    exact hk
  · exact hk

end Frame

end PacketForge
