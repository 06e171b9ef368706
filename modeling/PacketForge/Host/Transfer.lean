import PacketForge.Host.Connect

/-!
Progress of `pf_send` and `pf_recv`. Both cut a `size_t` length to 32 bits before
they take a minimum with it. A call of `pf_send` is followed through the run of the
event loop that it pumps: whatever is interleaved, it comes to its end when the
length fits in 32 bits, and otherwise it comes to a round that copies nothing. A
call of `pf_recv` with a multiple of `2 ^ 32` for its capacity returns 0 although
bytes are waiting.
-/

namespace PacketForge

/-! ### One round of `pf_send` -/

/-- The connection with space in its ring that a round of the loop finds. -/
def Host.sendTcb (h : Host) (s : SockIdx) : Option TcbIdx :=
  (h.socks s).tcb.filter fun i => canAppend (h.tcbs i) && 65535 - (h.tcbs i).sndLen != 0

/-- The bytes that the round appends. -/
def Host.sendBytes (h : Host) (s : SockIdx) (rest : List UInt8) : List UInt8 :=
  match h.sendTcb s with
  | none => []
  | some i => rest.take (sendAmount (h.tcbs i) rest).toNat

section Round

variable {h : Host} {s : SockIdx} {i : TcbIdx} {rest : List UInt8}

theorem sendAmount_toNat (t : Tcb) (data : List UInt8) :
    (sendAmount t data).toNat = min (data.length % 2 ^ 32) (65535 - t.sndLen).toNat := by
  rw [sendAmount, pfMin_toNat, UInt32.toNat_ofNat']

theorem Host.sendTcb_eq_some : h.sendTcb s = some i ↔
    (h.socks s).tcb = some i ∧ canAppend (h.tcbs i) = true ∧
      0 < (65535 - (h.tcbs i).sndLen).toNat := by
  have hne : (65535 - (h.tcbs i).sndLen != 0) = true ↔ 0 < (65535 - (h.tcbs i).sndLen).toNat := by
    rw [bne_iff_ne, ne_eq, ← UInt32.toNat_inj, UInt32.toNat_zero]
    omega
  rw [Host.sendTcb, Option.filter_eq_some_iff, Bool.and_eq_true, hne]

/-- A round copies all the ring has room for of the length cut to 32 bits. -/
theorem Host.sendBytes_length (hi : h.sendTcb s = some i) : (h.sendBytes s rest).length =
    min (rest.length % 2 ^ 32) (65535 - (h.tcbs i).sndLen).toNat := by
  have hle := Nat.mod_le rest.length (2 ^ 32)
  rw [Host.sendBytes, hi]
  simp only
  rw [List.length_take, sendAmount_toNat]
  omega

theorem Host.sendBytes_eq_nil_iff (hi : h.sendTcb s = some i) :
    h.sendBytes s rest = [] ↔ rest.length % 2 ^ 32 = 0 := by
  have hroom := (Host.sendTcb_eq_some.mp hi).2.2
  rw [← List.length_eq_zero_iff, Host.sendBytes_length hi]
  omega

theorem Host.sendBytes_append (h : Host) (s : SockIdx) (rest : List UInt8) :
    h.sendBytes s rest ++ rest.drop (h.sendBytes s rest).length = rest := by
  unfold Host.sendBytes
  split
  · rfl
  · rw [List.length_take]
    rcases Nat.le_total (sendAmount (h.tcbs _) rest).toNat rest.length with hle | hle
    · rw [Nat.min_eq_left hle, List.take_append_drop]
    · rw [Nat.min_eq_right hle, List.take_of_length_le hle, List.drop_length, List.append_nil]

/-- A round with space puts the bytes behind those in the ring, and sends. -/
theorem sendPoll_round (hi : h.sendTcb s = some i) (hrest : rest ≠ []) (now len : Nat)
    (expired : Bool) : sendPoll now s rest len expired h =
      (h.run i fun c => tcpOutput now (sndAppend (h.sendBytes s rest) c),
        if (rest.drop (h.sendBytes s rest).length).isEmpty then .ret len
        else .wait (.send s (rest.drop (h.sendBytes s rest).length) len)) := by
  obtain ⟨htcb, hopen, hroom⟩ := Host.sendTcb_eq_some.mp hi
  have hspace : ¬ 65535 - (h.tcbs i).sndLen = 0 := by
    rw [← UInt32.toNat_inj, UInt32.toNat_zero]
    omega
  have hbytes : h.sendBytes s rest = rest.take (sendAmount (h.tcbs i) rest).toNat := by
    rw [Host.sendBytes, hi]
  have hdrop :
      rest.drop (h.sendBytes s rest).length = rest.drop (sendAmount (h.tcbs i) rest).toNat := by
    rw [Host.sendBytes_length hi, sendAmount_toNat]
  have hcopy : pfSendCopy now rest (h.conn i) =
      tcpOutput now (sndAppend (h.sendBytes s rest) (h.conn i)) := by
    rw [hbytes, pfSendCopy, if_neg]
    · rfl
    · rw [Bool.or_eq_true, Bool.or_eq_true, decide_eq_true_eq, List.isEmpty_iff]
      rintro ((hnil | hclosed) | hfull)
      · exact hrest hnil
      · rw [show canAppend (h.conn i).tcb = true from hopen] at hclosed
        cases hclosed
      · exact hspace hfull
  rw [sendPoll, if_neg (by rwa [List.isEmpty_iff]), htcb]
  simp only
  rw [hopen, Bool.not_true, if_neg Bool.false_ne_true, if_neg hspace, hdrop, Host.run, hcopy]
  split
  · rfl
  · rfl

theorem sendPoll_full (htcb : (h.socks s).tcb = some i) (hopen : canAppend (h.tcbs i) = true)
    (hnone : h.sendTcb s = none) (hrest : rest ≠ []) (now len : Nat) :
    sendPoll now s rest len false h = (h, .wait (.send s rest len)) := by
  have hspace : 65535 - (h.tcbs i).sndLen = 0 := by
    by_contra hne
    rw [← UInt32.toNat_inj, UInt32.toNat_zero] at hne
    have hsome := Host.sendTcb_eq_some.mpr ⟨htcb, hopen, Nat.pos_of_ne_zero hne⟩
    rw [hnone] at hsome
    cases hsome
  rw [sendPoll, if_neg (by rwa [List.isEmpty_iff]), htcb]
  simp only
  rw [hopen, Bool.not_true, if_neg Bool.false_ne_true, if_pos hspace, if_neg Bool.false_ne_true]

end Round

/-! ### A call of `pf_send` -/

/-- What happens while a call waits: the event loop handles segments and ticks, and
the caller looks again. No other call can start. -/
def HostEvent.Pumped : HostEvent → Prop
  | .segment _ _ => True
  | .tick _ => True
  | .call _ _ => False
  | .resume _ expired => expired = false

/-- A call of `pf_send` with a buffer, in a run of the event loop. The connection stays in
a state that takes data, and as long as the call waits its ring has space again in some
later round. -/
structure SendRun (s : SockIdx) (buf : List UInt8) where
  host : Nat → Host
  event : Nat → HostEvent
  next : ∀ k, host (k + 1) = hostStep (host k) (event k)
  enter : (host 0).pending = some (.send s buf buf.length)
  pumped : ∀ k, (event k).Pumped
  steady : ∀ k rest, (host k).pending = some (.send s rest buf.length) →
    ∃ i, ((host k).socks s).tcb = some i ∧ canAppend ((host k).tcbs i) = true
  freed : ∀ k rest, (host k).pending = some (.send s rest buf.length) →
    ∃ j, k ≤ j ∧ (∃ now, event j = .resume now false) ∧ ((host j).sendTcb s).isSome

namespace SendRun

variable {s : SockIdx} {buf rest : List UInt8} (r : SendRun s buf) {k : Nat}

/-- The loop has these bytes left to send. -/
def Left (k : Nat) (rest : List UInt8) : Prop :=
  (r.host k).pending = some (.send s rest buf.length)

def Looks (k : Nat) : Prop := ∃ now, r.event k = .resume now false

def Iterates (k : Nat) (rest : List UInt8) : Prop :=
  r.Looks k ∧ r.Left k rest ∧ rest ≠ [] ∧ ((r.host k).sendTcb s).isSome

/-- The bytes that a step of the run appends to the ring. -/
def copied (k : Nat) : List UInt8 :=
  match r.event k, (r.host k).pending with
  | .resume _ _, some (.send _ rest _) => (r.host k).sendBytes s rest
  | _, _ => []

def Returns (k : Nat) : Prop :=
  ∃ now p, r.event k = .resume now false ∧ (r.host k).pending = some p ∧
    (hostResume now false { r.host k with out := [] } p).2 = .ret buf.length

/-- The bytes, if any, are put into the ring of the socket's connection, and sent
as far as the windows allow. -/
def Appends (k : Nat) (bytes : List UInt8) : Prop :=
  bytes ≠ [] → ∃ now i p, r.event k = .resume now false ∧ (r.host k).sendTcb s = some i ∧
    r.host (k + 1) =
      { ({ r.host k with out := [] } : Host).run i
          (fun c => tcpOutput now (sndAppend bytes c)) with pending := p }

/-- Every iteration with free space appends a byte. -/
def Progresses : Prop :=
  ∀ k rest, r.Iterates k rest → r.copied k ≠ [] ∧ r.Appends k (r.copied k)

/-- The call returns, and has appended its buffer. -/
def Completes : Prop :=
  ∃ k, r.Returns k ∧ (List.range (k + 1)).flatMap r.copied = buf ∧
    ∀ j ≤ k, r.Appends j (r.copied j)

theorem copied_of_left (hlook : r.Looks k) (hleft : r.Left k rest) :
    r.copied k = (r.host k).sendBytes s rest := by
  obtain ⟨now, hevent⟩ := hlook
  rw [copied, hevent, hleft]

/-- A step that is no round of the loop leaves the call waiting. -/
theorem left_of_not_looks (hlook : ¬ r.Looks k) (hleft : r.Left k rest) :
    r.Left (k + 1) rest ∧ r.copied k = [] := by
  have hpump := r.pumped k
  have hnext := r.next k
  unfold Left copied
  rw [hnext]
  cases hevent : r.event k with
  | segment now g => exact ⟨(congrArg ApiView.pending (tcpInput_api _ now g)).trans hleft, rfl⟩
  | tick now => exact ⟨(congrArg ApiView.pending (tcpTick_api _ now)).trans hleft, rfl⟩
  | call now c =>
    rw [hevent] at hpump
    exact absurd hpump id
  | resume now expired =>
    rw [hevent] at hpump
    cases hpump
    exact absurd ⟨now, hevent⟩ hlook

/-- A step of the run at which the loop is entered. -/
theorem host_of_looks {now : Nat} (hevent : r.event k = .resume now false) (hleft : r.Left k rest) :
    r.host (k + 1) = settle (sendPoll now s rest buf.length false { r.host k with out := [] }) := by
  rw [r.next, hevent]
  unfold hostStep
  simp only [show (r.host k).pending = _ from hleft]
  rfl

/-- What a round comes to: it returns, waits with the same bytes left, or appends bytes and
waits with the others. -/
theorem round_cases (hlook : r.Looks k) (hleft : r.Left k rest) :
    (r.Returns k ∧ (r.host (k + 1)).pending = none ∧ r.copied k = rest) ∨
    (¬ r.Returns k ∧ rest ≠ [] ∧ (r.host k).sendTcb s = none ∧ r.copied k = [] ∧
      r.Left (k + 1) rest) ∨
    (¬ r.Returns k ∧ r.Iterates k rest ∧
      ∃ more, r.Left (k + 1) more ∧ r.copied k ++ more = rest) := by
  have hcopied := r.copied_of_left hlook hleft
  obtain ⟨now, hevent⟩ := id hlook
  have hnext := r.host_of_looks hevent hleft
  have hreturns : r.Returns k ↔
      (sendPoll now s rest buf.length false { r.host k with out := [] }).2 = .ret buf.length := by
    constructor
    · rintro ⟨now', p, hevent', hp, hret⟩
      cases hevent.symm.trans hevent'
      cases hleft.symm.trans hp
      exact hret
    · intro hret
      exact ⟨now, _, hevent, hleft, hret⟩
  rw [hreturns]
  by_cases hrest : rest = []
  · subst hrest
    have hpoll : sendPoll now s [] buf.length false { r.host k with out := [] } =
        ({ r.host k with out := [] }, .ret buf.length) := rfl
    refine Or.inl ⟨by rw [hpoll], by rw [hnext, hpoll]; rfl, ?_⟩
    have happ := (r.host k).sendBytes_append s []
    rw [hcopied]
    exact (List.append_eq_nil_iff.mp happ).1
  obtain ⟨i, htcb, hopen⟩ := r.steady k rest hleft
  cases hi : (r.host k).sendTcb s with
  | none =>
    have hpoll :=
      sendPoll_full (h := { r.host k with out := [] }) htcb hopen hi hrest now buf.length
    refine Or.inr (Or.inl ⟨by rw [hpoll]; exact CallResult.noConfusion, hrest, rfl, ?_, ?_⟩)
    · rw [hcopied, Host.sendBytes, hi]
    · rw [Left, hnext, hpoll]
      rfl
  | some i =>
    have hpoll := sendPoll_round (h := { r.host k with out := [] }) hi hrest now buf.length false
    have happ := (r.host k).sendBytes_append s rest
    rw [show Host.sendBytes { r.host k with out := [] } s rest = r.copied k from hcopied.symm]
      at hpoll
    rw [← hcopied] at happ
    by_cases hdone : rest.drop (r.copied k).length = []
    · rw [hdone] at hpoll happ
      refine Or.inl ⟨by rw [hpoll]; rfl, by rw [hnext, hpoll]; rfl, ?_⟩
      rw [← happ, List.append_nil]
    · rw [if_neg (by rwa [List.isEmpty_iff])] at hpoll
      refine Or.inr (Or.inr ⟨by rw [hpoll]; exact CallResult.noConfusion,
        ⟨hlook, hleft, hrest, by rw [hi]; rfl⟩, _, ?_, happ⟩)
      rw [Left, hnext, hpoll]
      rfl

/-- No step copies more than the length cut to 32 bits. -/
theorem copied_length (hleft : r.Left k rest) : (r.copied k).length ≤ rest.length % 2 ^ 32 := by
  by_cases hlook : r.Looks k
  · rw [r.copied_of_left hlook hleft]
    cases hi : (r.host k).sendTcb s with
    | none =>
      rw [Host.sendBytes, hi]
      exact Nat.zero_le _
    | some i =>
      rw [Host.sendBytes_length hi]
      exact Nat.min_le_left _ _
  · rw [(r.left_of_not_looks hlook hleft).2]
    exact Nat.zero_le _

theorem pending_none (hidle : (r.host k).pending = none) : (r.host (k + 1)).pending = none := by
  have hpump := r.pumped k
  rw [r.next]
  cases hevent : r.event k with
  | segment now g => exact (congrArg ApiView.pending (tcpInput_api _ now g)).trans hidle
  | tick now => exact (congrArg ApiView.pending (tcpTick_api _ now)).trans hidle
  | call now c =>
    rw [hevent] at hpump
    exact absurd hpump id
  | resume now expired =>
    unfold hostStep
    simp only [hidle]

theorem step_left (hleft : r.Left k rest) :
    (r.Returns k ∧ (r.host (k + 1)).pending = none ∧ r.copied k = rest) ∨
      ∃ more, r.Left (k + 1) more ∧ r.copied k ++ more = rest := by
  by_cases hlook : r.Looks k
  · rcases r.round_cases hlook hleft with hdone | ⟨-, -, -, hnil, hsame⟩ | ⟨-, -, hmore⟩
    · exact Or.inl hdone
    · exact Or.inr ⟨rest, hsame, by rw [hnil, List.nil_append]⟩
    · exact Or.inr hmore
  · obtain ⟨hsame, hnil⟩ := r.left_of_not_looks hlook hleft
    exact Or.inr ⟨rest, hsame, by rw [hnil, List.nil_append]⟩

theorem flatMap_copied_succ (k : Nat) : (List.range (k + 1)).flatMap r.copied =
    (List.range k).flatMap r.copied ++ r.copied k := by
  rw [List.range_succ, List.flatMap_append, List.flatMap_singleton]

/-- As long as the call waits, the buffer is what was appended and what is left. -/
theorem ledger (k : Nat) :
    (∃ rest, r.Left k rest ∧ (List.range k).flatMap r.copied ++ rest = buf) ∨
      (r.host k).pending = none := by
  induction k with
  | zero => exact Or.inl ⟨buf, r.enter, rfl⟩
  | succ k ih =>
    rcases ih with ⟨rest, hleft, hbuf⟩ | hidle
    · rcases r.step_left hleft with ⟨-, hidle, -⟩ | ⟨more, hmore, happ⟩
      · exact Or.inr hidle
      · refine Or.inl ⟨more, hmore, ?_⟩
        rw [r.flatMap_copied_succ, List.append_assoc, happ, hbuf]
    · exact Or.inr (r.pending_none hidle)

theorem left_unique {more : List UInt8} (h : r.Left k rest) (h' : r.Left k more) : rest = more := by
  cases h.symm.trans h'
  rfl

theorem ledger_left (hleft : r.Left k rest) : (List.range k).flatMap r.copied ++ rest = buf := by
  rcases r.ledger k with ⟨more, hmore, hbuf⟩ | hidle
  · rw [r.left_unique hleft hmore]
    exact hbuf
  · cases hleft.symm.trans hidle

theorem left_length_le (hleft : r.Left k rest) : rest.length ≤ buf.length := by
  rw [← r.ledger_left hleft, List.length_append]
  exact Nat.le_add_left _ _

/-- A call that returns its length waited until then, and has appended everything. -/
theorem Returns.left (hret : r.Returns k) : ∃ rest, r.Left k rest ∧ r.copied k = rest := by
  obtain ⟨now, p, hevent, hp, -⟩ := id hret
  rcases r.ledger k with ⟨rest, hleft, -⟩ | hidle
  · rcases r.round_cases ⟨now, hevent⟩ hleft with ⟨-, -, hall⟩ | ⟨hno, -⟩ | ⟨hno, -⟩
    · exact ⟨rest, hleft, hall⟩
    · exact absurd hret hno
    · exact absurd hret hno
  · cases hp.symm.trans hidle

theorem appends_copied (k : Nat) : r.Appends k (r.copied k) := by
  intro hne
  rcases r.ledger k with ⟨rest, hleft, -⟩ | hidle
  · by_cases hlook : r.Looks k
    · have hcopied := r.copied_of_left hlook hleft
      obtain ⟨now, hevent⟩ := hlook
      have hrest : rest ≠ [] := by
        rintro rfl
        have happ := (r.host k).sendBytes_append s []
        exact hne (hcopied.trans (List.append_eq_nil_iff.mp happ).1)
      cases hi : (r.host k).sendTcb s with
      | none =>
        rw [hcopied, Host.sendBytes, hi] at hne
        exact absurd rfl hne
      | some i =>
        have hpoll :=
          sendPoll_round (h := { r.host k with out := [] }) hi hrest now buf.length false
        have hbytes : Host.sendBytes { r.host k with out := [] } s rest = r.copied k := hcopied.symm
        rw [hbytes] at hpoll
        refine ⟨now, i, (r.host (k + 1)).pending, hevent, rfl, ?_⟩
        rw [r.host_of_looks hevent hleft, hpoll]
        split
        · rfl
        · rfl
    · exact absurd (r.left_of_not_looks hlook hleft).2 hne
  · have hnil : r.copied k = [] := by
      rw [copied, hidle]
      cases r.event k <;> rfl
    exact absurd hnil hne

theorem Returns.completes (hret : r.Returns k) : r.Completes := by
  obtain ⟨rest, hleft, hall⟩ := Returns.left r hret
  refine ⟨k, hret, ?_, fun j _ => r.appends_copied j⟩
  rw [r.flatMap_copied_succ, hall, r.ledger_left hleft]

/-- What is left of a buffer of `2 ^ 32` bytes or more never falls below that. -/
theorem left_long (hbuf : 2 ^ 32 ≤ buf.length) (hleft : r.Left k rest) : 2 ^ 32 ≤ rest.length := by
  induction k generalizing rest with
  | zero =>
    rw [r.left_unique hleft r.enter]
    exact hbuf
  | succ k ih =>
    rcases r.ledger k with ⟨before, hbefore, -⟩ | hidle
    · have hlong := ih hbefore
      have hshort := r.copied_length hbefore
      rcases r.step_left hbefore with ⟨-, hidle, -⟩ | ⟨more, hmore, happ⟩
      · cases hleft.symm.trans hidle
      · rw [r.left_unique hleft hmore]
        have hlen := congrArg List.length happ
        rw [List.length_append] at hlen
        omega
    · cases hleft.symm.trans (r.pending_none hidle)

/-- The loop comes to a round with space, or to one with nothing left. -/
theorem reaches_round (d : Nat) (hleft : r.Left k rest) (hlook : r.Looks (k + d))
    (hroom : ((r.host (k + d)).sendTcb s).isSome) :
    ∃ j, r.Looks j ∧ r.Left j rest ∧ (rest = [] ∨ ((r.host j).sendTcb s).isSome) := by
  induction d generalizing k with
  | zero => exact ⟨k, hlook, hleft, Or.inr hroom⟩
  | succ d ih =>
    rw [Nat.add_succ, ← Nat.succ_add] at hlook hroom
    by_cases hl : r.Looks k
    · rcases r.round_cases hl hleft with ⟨-, -, hall⟩ | ⟨-, -, -, -, hsame⟩ | ⟨-, hiter, -⟩
      · refine ⟨k, hl, hleft, ?_⟩
        rw [r.copied_of_left hl hleft] at hall
        cases hi : (r.host k).sendTcb s with
        | none =>
          rw [Host.sendBytes, hi] at hall
          exact Or.inl hall.symm
        | some i => exact Or.inr rfl
      · exact ih hsame hlook hroom
      · exact ⟨k, hl, hleft, Or.inr hiter.2.2.2⟩
    · exact ih (r.left_of_not_looks hl hleft).1 hlook hroom

/-- An iteration makes progress unless what is left counts for 0. -/
theorem copied_eq_nil_iff (hiter : r.Iterates k rest) :
    r.copied k = [] ↔ rest.length % 2 ^ 32 = 0 := by
  obtain ⟨hlook, hleft, -, hsome⟩ := hiter
  obtain ⟨i, hi⟩ := Option.isSome_iff_exists.mp hsome
  rw [r.copied_of_left hlook hleft, Host.sendBytes_eq_nil_iff hi]

/-- A call that waits comes to its end, or to a round that has space for bytes but takes
the length of what is left for 0. -/
theorem ends_or_stalls (hleft : r.Left k rest) :
    (∃ j, r.Returns j) ∨ ∃ j more, r.Iterates j more ∧ more.length % 2 ^ 32 = 0 := by
  -- on the length that is left, cut to 32 bits
  induction hn : rest.length % 2 ^ 32 using Nat.strong_induction_on generalizing k rest with
  | _ n ih =>
    subst hn
    obtain ⟨j, hj, hlook, hroom⟩ := r.freed k rest hleft
    obtain ⟨d, rfl⟩ := Nat.exists_eq_add_of_le hj
    obtain ⟨j, hlook, hleft, hready⟩ := r.reaches_round d hleft hlook hroom
    rcases r.round_cases hlook hleft with
      ⟨hret, -⟩ | ⟨-, hrest, hnone, -⟩ | ⟨-, hiter, more, hmore, happ⟩
    · exact Or.inl ⟨j, hret⟩
    · rw [hnone] at hready
      exact absurd hready (not_or_intro hrest Bool.false_ne_true)
    by_cases hzero : rest.length % 2 ^ 32 = 0
    · exact Or.inr ⟨j, rest, hiter, hzero⟩
    have hpos : r.copied j ≠ [] := mt (r.copied_eq_nil_iff hiter).mp hzero
    have hshort := r.copied_length hleft
    have hlen := congrArg List.length happ
    rw [List.length_append] at hlen
    rw [← List.length_pos_iff] at hpos
    exact ih _ (by omega) hmore rfl

theorem iterates_length (hbuf : buf.length < 2 ^ 32) (hiter : r.Iterates k rest) :
    rest.length % 2 ^ 32 ≠ 0 := by
  have hle := r.left_length_le hiter.2.1
  have hpos := List.length_pos_iff.mpr hiter.2.2.1
  omega

theorem not_returns_long (hbuf : 2 ^ 32 ≤ buf.length) : ¬ r.Returns k := by
  intro hret
  obtain ⟨rest, hleft, hall⟩ := Returns.left r hret
  have hlong := r.left_long hbuf hleft
  have hshort := r.copied_length hleft
  rw [hall] at hshort
  omega

/-- Every iteration with free space appends a byte when the length fits in 32 bits, and only
then. -/
theorem progresses_iff : r.Progresses ↔ buf.length < 2 ^ 32 := by
  constructor
  · intro hprog
    by_contra hbuf
    rcases r.ends_or_stalls r.enter with ⟨j, hret⟩ | ⟨j, more, hiter, hzero⟩
    · exact r.not_returns_long (Nat.le_of_not_lt hbuf) hret
    · exact (hprog j more hiter).1 ((r.copied_eq_nil_iff hiter).mpr hzero)
  · intro hbuf k rest hiter
    refine ⟨fun hnil => ?_, r.appends_copied k⟩
    exact r.iterates_length hbuf hiter ((r.copied_eq_nil_iff hiter).mp hnil)

theorem completes_iff : r.Completes ↔ buf.length < 2 ^ 32 := by
  constructor
  · rintro ⟨k, hret, -⟩
    by_contra hbuf
    exact r.not_returns_long (Nat.le_of_not_lt hbuf) hret
  · intro hbuf
    rcases r.ends_or_stalls r.enter with ⟨j, hret⟩ | ⟨j, more, hiter, hzero⟩
    · exact Returns.completes r hret
    · exact absurd hzero (r.iterates_length hbuf hiter)

end SendRun

/-! ### A call of `pf_recv` -/

def CallResult.value : CallResult → Option Int
  | .ret rc => some rc
  | .data bytes => some bytes.length
  | .accepted sock _ _ => some sock.val
  | .wait _ => none

def Host.Readable (h : Host) (s : SockIdx) : Prop :=
  ∃ i, (h.socks s).tcb = some i ∧ 0 < (h.tcbs i).rcvLen

/-- The reader has got everything: the connection is gone without an error, or its ring is
empty and the peer has closed. -/
def Host.EndOfStream (h : Host) (s : SockIdx) : Prop :=
  match (h.socks s).tcb with
  | none => (h.socks s).err = .none
  | some i => (h.tcbs i).rcvLen = 0 ∧ (h.tcbs i).rcvEof = true

/-- `pf_recv` returns a byte when there is one, and 0 only at the end of the stream. -/
structure RecvProgress (h : Host) (s : SockIdx) (cap : Nat) (expired : Bool) : Prop where
  some_byte : h.Readable s → ∃ bytes, (recvPoll s cap expired h).2 = .data bytes ∧ bytes ≠ []
  zero_ends : (recvPoll s cap expired h).2.value = some 0 → h.EndOfStream s

section Recv

variable {h : Host} {s : SockIdx} {i : TcbIdx} {cap : Nat}

theorem recvPoll_readable (htcb : (h.socks s).tcb = some i) (hlen : 0 < (h.tcbs i).rcvLen)
    (expired : Bool) : (recvPoll s cap expired h).2 = .data (recvBytes (h.tcbs i) cap) := by
  rw [recvPoll, htcb]
  simp only
  rw [if_pos hlen]

theorem recvBytes_eq_nil_iff {t : Tcb} (hlen : 0 < t.rcvLen) :
    recvBytes t cap = [] ↔ cap % 2 ^ 32 = 0 := by
  rw [UInt32.lt_iff_toNat_lt, UInt32.toNat_zero] at hlen
  rw [← List.length_eq_zero_iff, recvBytes, RingBuf.read_length, recvAmount, pfMin_toNat,
    UInt32.toNat_ofNat']
  omega

/-- Without bytes in the ring the call returns 0 at the end of the stream only. -/
theorem recvPoll_zero (hempty : ¬ h.Readable s) {expired : Bool}
    (hzero : (recvPoll s cap expired h).2.value = some 0) : h.EndOfStream s := by
  unfold recvPoll at hzero
  unfold Host.EndOfStream
  cases htcb : (h.socks s).tcb with
  | none =>
    simp only [htcb] at hzero ⊢
    by_contra herr
    rw [if_neg herr] at hzero
    cases hzero
  | some i =>
    have hlen : ¬ (h.tcbs i).rcvLen > 0 := fun hpos => hempty ⟨i, htcb, hpos⟩
    simp only [htcb] at hzero ⊢
    rw [if_neg hlen] at hzero
    refine ⟨UInt32.toNat_inj.mp ?_, ?_⟩
    · rw [gt_iff_lt, UInt32.lt_iff_toNat_lt, UInt32.toNat_zero] at hlen
      exact Nat.eq_zero_of_not_pos hlen
    · by_contra heof
      rw [if_neg heof] at hzero
      cases expired with
      | false => cases hzero
      | true => cases hzero

theorem recvProgress_iff (expired : Bool) :
    RecvProgress h s cap expired ↔ ¬ (h.Readable s ∧ cap % 2 ^ 32 = 0) := by
  constructor
  · rintro hok ⟨hread, hcut⟩
    obtain ⟨bytes, hdata, hne⟩ := hok.some_byte hread
    obtain ⟨i, htcb, hlen⟩ := hread
    rw [recvPoll_readable htcb hlen] at hdata
    cases hdata
    exact hne ((recvBytes_eq_nil_iff hlen).mpr hcut)
  · intro hgood
    by_cases hread : h.Readable s
    · obtain ⟨i, htcb, hlen⟩ := id hread
      have hne : recvBytes (h.tcbs i) cap ≠ [] :=
        fun hnil => hgood ⟨hread, (recvBytes_eq_nil_iff hlen).mp hnil⟩
      have hpoll : (recvPoll s cap expired h).2 = .data (recvBytes (h.tcbs i) cap) :=
        recvPoll_readable htcb hlen expired
      refine ⟨fun _ => ⟨_, hpoll, hne⟩, fun hzero => ?_⟩
      rw [hpoll, CallResult.value, Option.some_inj] at hzero
      exact absurd (List.length_eq_zero_iff.mp (Int.ofNat_inj.mp hzero)) hne
    · exact ⟨fun h => absurd h hread, recvPoll_zero hread⟩

end Recv

/-- When transfers make progress. A call of `pf_send` appends its buffer and returns,
with a byte in every iteration that has space, when its length fits in 32 bits, and otherwise
neither; a call of `pf_recv` with bytes in the ring returns some unless its capacity is a
multiple of `2 ^ 32`, in which case it returns 0. -/
theorem transfers_progress_iff {s : SockIdx} {buf : List UInt8} (r : SendRun s buf) (h : Host)
    (sock : SockIdx) (cap : Nat) (expired : Bool) :
    (r.Progresses ↔ buf.length < 2 ^ 32) ∧ (r.Completes ↔ buf.length < 2 ^ 32) ∧
      (RecvProgress h sock cap expired ↔ ¬ (h.Readable sock ∧ cap % 2 ^ 32 = 0)) :=
  ⟨r.progresses_iff, r.completes_iff, recvProgress_iff expired⟩

def connectedHost : Host := hostStep acceptedHost (.resume 1 false)

theorem connectedHost_reach : Host.Reach (fun _ _ => True) connectedHost :=
  (connectHost_reach.next _ trivial).next _ trivial

theorem pfSockMax_pos : 0 < pfSockMax := Nat.succ_pos _

def firstSock : SockIdx := ⟨0, pfSockMax_pos⟩

/-- A call of `pf_send` with one byte. -/
def oneByteHost : Host := { connectedHost with pending := some (.send firstSock [7] 1) }

def oneByteHosts : Nat → Host
  | 0 => oneByteHost
  | k + 1 => hostStep (oneByteHosts k) (.resume 2 false)

theorem oneByteHosts_idle (k : Nat) : (oneByteHosts (k + 1)).pending = none := by
  induction k with
  | zero => decide +kernel
  | succ k ih =>
    rw [oneByteHosts]
    unfold hostStep
    simp only [ih]

theorem oneByteHost_sends : (oneByteHost.socks 0).tcb = some 0 ∧
    canAppend (oneByteHost.tcbs 0) = true ∧ oneByteHost.sendTcb 0 = some 0 := by
  decide +kernel

def oneByteRun : SendRun firstSock [7] where
  host := oneByteHosts
  event := fun _ => .resume 2 false
  next := fun _ => rfl
  enter := rfl
  pumped := fun _ => rfl
  steady := fun k _ hleft => by
    cases k with
    | zero => exact ⟨0, oneByteHost_sends.1, oneByteHost_sends.2.1⟩
    | succ k => cases hleft.symm.trans (oneByteHosts_idle k)
  freed := fun k _ hleft => by
    cases k with
    | zero => exact ⟨0, le_rfl, ⟨2, rfl⟩, Option.isSome_iff_exists.mpr ⟨0, oneByteHost_sends.2.2⟩⟩
    | succ k => cases hleft.symm.trans (oneByteHosts_idle k)

theorem serverText_lt : ([1, 2, 3] : List UInt8).length < 2 ^ 16 := by decide

def readyHost : Host :=
  hostStep connectedHost
    (.segment 2 { serverSeg tcpAck 501 with payload := [1, 2, 3], payload_lt := serverText_lt })

/-- One byte is sent, and three that wait are there for a reader. -/
theorem transfers_progress_iff_one_byte :
    oneByteRun.Progresses ∧ oneByteRun.Completes ∧ readyHost.Readable 0 ∧
      RecvProgress readyHost 0 100 false := by
  obtain ⟨hprogress, hcomplete, hrecv⟩ := transfers_progress_iff oneByteRun readyHost 0 100 false
  exact ⟨hprogress.mpr (by decide), hcomplete.mpr (by decide),
    ⟨0, by decide +kernel, by decide +kernel⟩, hrecv.mpr fun hcut => absurd hcut.2 (by decide)⟩

/-- A call of `pf_send` whose length counts for 0 has all of its bytes left after a round
with space. -/
theorem send_stalls {h : Host} {sock : Int} {s : SockIdx} {i : TcbIdx} {data : List UInt8}
    (hidle : h.pending = none) (hget : tcpSockGet h sock = some s) (hi : h.sendTcb s = some i)
    (hne : data ≠ []) (hcut : data.length % 2 ^ 32 = 0) (now : Nat) :
    (hostStep h (.call now (.send sock data))).pending = some (.send s data data.length) := by
  have hpoll := sendPoll_round (h := { h with out := [] }) hi hne now data.length false
  have hnil : Host.sendBytes { h with out := [] } s data = [] :=
    (Host.sendBytes_eq_nil_iff (h := { h with out := [] }) hi).mpr hcut
  rw [hnil, List.length_nil, List.drop_zero, if_neg (by rwa [List.isEmpty_iff])] at hpoll
  rw [hostStep_call hidle]
  change (settle (pfSend now sock data { h with out := [] })).pending = _
  rw [pfSend, show tcpSockGet { h with out := [] } sock = some s from hget]
  simp only
  rw [hpoll]
  rfl

/-- With `2 ^ 32` for a length, `pf_recv` returns 0 before the end of the stream, and
`pf_send` has all of its bytes left after a round with an empty ring. -/
theorem transfers_of_4GiB_stall :
    Host.Reach (fun _ _ => True) readyHost ∧ readyHost.Readable 0 ∧ ¬ readyHost.EndOfStream 0 ∧
      (recvPoll 0 (2 ^ 32) false readyHost).2 = .data [] ∧
      (readyHost.sendTcb 0).isSome = true ∧
      (hostStep readyHost (.call 3 (.send 0 (List.replicate (2 ^ 32) 0)))).pending =
        some (.send 0 (List.replicate (2 ^ 32) 0) (2 ^ 32)) := by
  have hstate : (readyHost.socks 0).tcb = some 0 ∧ (readyHost.tcbs 0).rcvLen = 3 ∧
      readyHost.pending = none ∧ tcpSockGet readyHost 0 = some 0 ∧
        readyHost.sendTcb 0 = some 0 := by
    decide +kernel
  obtain ⟨htcb, hlen, hidle, hget, hi⟩ := hstate
  have hpos : 0 < (readyHost.tcbs 0).rcvLen := by
    rw [hlen]
    decide
  refine ⟨connectedHost_reach.next _ trivial, ⟨0, htcb, hpos⟩, ?_, ?_, by rw [hi]; rfl, ?_⟩
  · unfold Host.EndOfStream
    simp only [htcb, hlen]
    exact fun hend => absurd hend.1 (by decide)
  · rw [recvPoll_readable htcb hpos, (recvBytes_eq_nil_iff hpos).mpr (Nat.mod_self _)]
  · obtain ⟨data, hdata⟩ : ∃ data, data = List.replicate (2 ^ 32) (0 : UInt8) := ⟨_, rfl⟩
    have hcount : data.length = 2 ^ 32 := by rw [hdata, List.length_replicate]
    have hne : data ≠ [] := by
      rw [← List.length_pos_iff, hcount]
      exact Nat.two_pow_pos 32
    have hstall := send_stalls hidle hget hi hne (by rw [hcount, Nat.mod_self]) 3
    rw [hcount] at hstall
    rw [← hdata]
    exact hstall

end PacketForge
