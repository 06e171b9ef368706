import PacketForge.Udp.Bindings
import Mathlib.Data.Fintype.Card
import Mathlib.Logic.Function.Iterate

/-!
Ephemeral ports. The counter runs round the 16384 ports from
`PF_EPHEMERAL_BASE` on. Any 33 candidates in a row are different ports and there
are 32 sockets, so that the search ends with a port that none of them holds.
-/

namespace PacketForge

/-! ### The counter -/

def nextEphemeral (port : UInt16) : UInt16 := if port + 1 = 0 then pfEphemeralBase else port + 1

theorem nextEphemeral_toNat {port : UInt16} (h : pfEphemeralBase ≤ port) :
    (nextEphemeral port).toNat = 49152 + (port.toNat - 49152 + 1) % 16384 := by
  have hport : 49152 ≤ port.toNat := UInt16.le_iff_toNat_le.mp h
  have hlt : port.toNat < 65536 := port.toNat_lt
  have hsucc : (port + 1).toNat = (port.toNat + 1) % 65536 := UInt16.toNat_add port 1
  unfold nextEphemeral
  split
  · rename_i hwrap
    rw [hwrap] at hsucc
    change 0 = _ at hsucc
    change 49152 = _
    omega
  · rename_i hne
    have hne' : (port + 1).toNat ≠ 0 := fun hz => hne (UInt16.toNat_inj.mp hz)
    rw [hsucc] at hne' ⊢
    omega

theorem iterate_nextEphemeral {port : UInt16} (h : pfEphemeralBase ≤ port) (k : Nat) :
    (nextEphemeral^[k] port).toNat = 49152 + (port.toNat - 49152 + k) % 16384 := by
  have hport : 49152 ≤ port.toNat := UInt16.le_iff_toNat_le.mp h
  have hlt : port.toNat < 65536 := port.toNat_lt
  induction k with
  | zero =>
    rw [Function.iterate_zero_apply]
    omega
  | succ k ih =>
    have hbase : pfEphemeralBase ≤ nextEphemeral^[k] port := by
      rw [UInt16.le_iff_toNat_le, ih]
      exact Nat.le_add_right _ _
    rw [Function.iterate_succ_apply', nextEphemeral_toNat hbase, ih]
    omega

theorem base_le_iterate {port : UInt16} (h : pfEphemeralBase ≤ port) (k : Nat) :
    pfEphemeralBase ≤ nextEphemeral^[k] port := by
  rw [UInt16.le_iff_toNat_le, iterate_nextEphemeral h]
  exact Nat.le_add_right _ _

/-- The counter comes back to a port only after all the others. -/
theorem iterate_inj {port : UInt16} (h : pfEphemeralBase ≤ port) {i j : Nat} (hi : i < 16384)
    (hj : j < 16384) (heq : nextEphemeral^[i] port = nextEphemeral^[j] port) : i = j := by
  have hnat := congrArg UInt16.toNat heq
  rw [iterate_nextEphemeral h, iterate_nextEphemeral h] at hnat
  omega

/-! ### The search -/

section Search

variable (h : Host)

def Host.Held (port : UInt16) : Prop :=
  ∃ s, ((h.socks s).type = .udp ∨ (h.socks s).type = .tcp) ∧ (h.socks s).localPort = port

theorem ephemeral_test_iff (port : UInt16) :
    (port ≥ pfEphemeralBase && !pfSockPortInUse h .udp 0 port && !pfSockPortInUse h .tcp 0 port) =
      true ↔ pfEphemeralBase ≤ port ∧ ¬ h.Held port := by
  have hinUse (type : PfSockType) : pfSockPortInUse h type 0 port = true ↔
      ∃ s, (h.socks s).type = type ∧ (h.socks s).localPort = port := by
    rw [pfSockPortInUse_iff]
    exact exists_congr fun s =>
      ⟨fun hs => ⟨hs.1, hs.2.1⟩, fun hs => ⟨hs.1, hs.2, Or.inr (Or.inl rfl)⟩⟩
  have hheld : h.Held port ↔
      pfSockPortInUse h .udp 0 port = true ∨ pfSockPortInUse h .tcp 0 port = true := by
    rw [hinUse, hinUse, ← exists_or]
    exact exists_congr fun s => or_and_right
  rw [hheld]
  simp [and_assoc]

/-- The search returns the first candidate that will do, and 0 only if none of them does. -/
theorem ephemeralLoop_cases (fuel : Nat) (port : UInt16) (hport : pfEphemeralBase ≤ port) :
    (∃ k, ¬ h.Held (nextEphemeral^[k] port) ∧
      ephemeralLoop h fuel port = (nextEphemeral^[k] port, nextEphemeral^[k + 1] port)) ∨
    ((∀ k < fuel, h.Held (nextEphemeral^[k] port)) ∧
      ephemeralLoop h fuel port = (0, nextEphemeral^[fuel] port)) := by
  induction fuel generalizing port with
  | zero => exact Or.inr ⟨fun k hk => absurd hk (Nat.not_lt_zero k), rfl⟩
  | succ fuel ih =>
    rw [ephemeralLoop]
    split
    · rename_i htest
      exact Or.inl ⟨0, ((ephemeral_test_iff h port).mp htest).2, rfl⟩
    · rename_i htest
      have hheld : h.Held port := by
        by_contra hfree
        exact htest ((ephemeral_test_iff h port).mpr ⟨hport, hfree⟩)
      have hnext := ih (nextEphemeral port) (base_le_iterate hport 1)
      rcases hnext with ⟨k, hfree, hloop⟩ | ⟨hall, hloop⟩
      · exact Or.inl ⟨k + 1, hfree, hloop⟩
      · refine Or.inr ⟨?_, hloop⟩
        intro k hk
        cases k with
        | zero => exact hheld
        | succ k => exact hall k (Nat.lt_of_succ_lt_succ hk)

/-- The sockets cannot hold 33 ports in a row. -/
theorem exists_not_held {port : UInt16} (hport : pfEphemeralBase ≤ port) :
    ∃ k < pfSockMax + 1, ¬ h.Held (nextEphemeral^[k] port) := by
  by_contra hno
  have hall (k : Fin (pfSockMax + 1)) :
      ∃ s, (h.socks s).localPort = nextEphemeral^[k.val] port := by
    by_contra hfree
    refine hno ⟨k.val, k.isLt, ?_⟩
    rintro ⟨s, -, hs⟩
    exact hfree ⟨s, hs⟩
  choose f hf using hall
  have hinj : Function.Injective f := by
    intro i j hij
    have hsame := (hf i).symm.trans ((congrArg (fun s => (h.socks s).localPort) hij).trans (hf j))
    exact Fin.ext (iterate_inj hport (i.isLt.trans (by decide)) (j.isLt.trans (by decide)) hsame)
  have hcard := Fintype.card_le_of_injective f hinj
  rw [Fintype.card_fin, Fintype.card_fin] at hcard
  exact Nat.not_succ_le_self _ hcard

theorem pfSockEphemeralPort_fresh (hnext : pfEphemeralBase ≤ h.ephemeralNext) :
    pfEphemeralBase ≤ (pfSockEphemeralPort h).2 ∧ ¬ h.Held (pfSockEphemeralPort h).2 ∧
      pfEphemeralBase ≤ (pfSockEphemeralPort h).1.ephemeralNext := by
  unfold pfSockEphemeralPort
  rcases ephemeralLoop_cases h 16384 h.ephemeralNext hnext with ⟨k, hfree, hloop⟩ | ⟨hall, -⟩
  · rw [hloop]
    exact ⟨base_le_iterate hnext k, hfree, base_le_iterate hnext (k + 1)⟩
  · obtain ⟨k, hk, hfree⟩ := exists_not_held h hnext
    exact absurd (hall k (hk.trans (by decide))) hfree

end Search

/-! ### Whole runs -/

section Step

variable {h : Host}

theorem Host.ephemeralNext_of_api {h k : Host} (heq : k.api = h.api) :
    k.ephemeralNext = h.ephemeralNext := congrArg ApiView.ephemeralNext heq

theorem CallOps.base {R : Bindings → Bindings → Prop} {k : Host} (hops : CallOps R h k)
    (hnext : pfEphemeralBase ≤ h.ephemeralNext) : pfEphemeralBase ≤ k.ephemeralNext := by
  refine hops.invariant (P := fun k => pfEphemeralBase ≤ k.ephemeralNext) ?_ hnext
  intro a b hop ha
  cases hop with
  | run i hf =>
    rw [Host.ephemeralNext_of_api (a.run_api i _)]
    exact ha
  | port => exact (pfSockEphemeralPort_fresh a ha).2.2
  | tcb | opened | sock => exact ha

theorem sockStep_base (e : SockEvent) (hnext : pfEphemeralBase ≤ h.ephemeralNext) :
    pfEphemeralBase ≤ (sockStep h e).ephemeralNext := by
  have hk : pfEphemeralBase ≤ ({ h with out := [] } : Host).ephemeralNext := hnext
  cases e with
  | host e =>
    change pfEphemeralBase ≤ (hostStep h e).ephemeralNext
    unfold hostStep
    simp only
    split
    · rw [Host.ephemeralNext_of_api (tcpInput_api _ _ _)]
      exact hk
    · rw [Host.ephemeralNext_of_api (tcpTick_api _ _)]
      exact hk
    · exact (hostCall_ops _ _ _).base hk
    · exact hk
    · exact (hostResume_ops _ _ _ _).base hk
    · exact hk
  | sendto sock len dstPort =>
    unfold sockStep sendtoSock
    simp only
    split
    · split
      · exact hnext
      split
      · exact hnext
      split
      · exact hnext
      split
      · split <;> exact (pfSockEphemeralPort_fresh h hnext).2.2
      · exact hnext
    · exact hnext

theorem SockReach.base (hr : SockReach h) : pfEphemeralBase ≤ h.ephemeralNext := by
  refine Run.Reach.invariant (fun h : Host => pfEphemeralBase ≤ h.ephemeralNext) (fun h h0 => ?_)
    (fun h e _ hnext => sockStep_base e hnext) hr
  subst h0
  exact UInt16.le_refl _

end Step

/-- In every state of a run the counter is an ephemeral port, and so is what
`pf_sock_ephemeral_port` returns, which no UDP or TCP socket holds: it never returns 0. The
counter is an ephemeral port again afterwards. -/
theorem ephemeral_port_fresh {h : Host} (hr : SockReach h) :
    pfEphemeralBase ≤ h.ephemeralNext ∧
    (pfSockEphemeralPort h).2 ≠ 0 ∧ pfEphemeralBase ≤ (pfSockEphemeralPort h).2 ∧
    (∀ s, (h.socks s).type = .udp ∨ (h.socks s).type = .tcp →
      (h.socks s).localPort ≠ (pfSockEphemeralPort h).2) ∧
    pfEphemeralBase ≤ (pfSockEphemeralPort h).1.ephemeralNext := by
  obtain ⟨hbase, hfree, hnext⟩ := pfSockEphemeralPort_fresh h hr.base
  refine ⟨hr.base, ?_, hbase, fun s htype hport => hfree ⟨s, htype, hport⟩, hnext⟩
  intro hz
  rw [hz] at hbase
  exact absurd hbase (by decide)

/-- The third socket of `twoServers` has taken the first port. -/
theorem ephemeral_port_fresh_servers :
    let h := twoServers.foldl sockStep Host.init
    SockReach h ∧ (pfSockEphemeralPort h).2 = 49153 ∧
      (h.socks 2).localPort ≠ (pfSockEphemeralPort h).2 := by
  intro h
  have hr : SockReach h := twoServers_reach
  have htype (k : Host) : (k.socks 2).type = (k.bindings 2).type := rfl
  have hudp : (h.socks 2).type = .udp := by rw [htype, twoServers_binds.2]
  have hport : (pfSockEphemeralPort h).2 = 49153 := by decide +kernel
  have hfresh := (ephemeral_port_fresh hr).2.2.2.1 2 (Or.inl hudp)
  exact ⟨hr, hport, hfresh⟩

end PacketForge
