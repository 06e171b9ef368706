import PacketForge.Core.Pkt
import PacketForge.Ipv4.Checksum
import PacketForge.Tcp.Input

/-!
The options of a SYN (`tcp_parse_mss`). An option area is a list of options
followed by the place where parsing ends: the end of the area, an END option, or
an option whose length byte is missing, too small, or too large. The loop of the
source reads the bytes of the area alone, ends for every area, and returns what
the last MSS option before that place says.
-/

namespace PacketForge

open Checked

/-! ### The loop of the source -/

theorem two_le_toNat {len : UInt8} (h : ¬ len < 2) : 2 ≤ len.toNat := by
  rw [UInt8.lt_iff_toNat_lt] at h
  exact Nat.le_of_not_lt h

/-- The loop of `tcp_parse_mss` on an option area: `o` is the offset of the pointer, and a
read outside the area is a fault. -/
def parseMssWalk (area : List UInt8) (o left : Nat) (mss : UInt16) : Except Fault (UInt16 × Bool) :=
  if left = 0 then .ok (mss, false)
  else do
    let kind := (← readAt area o 1).getD 0 0
    if kind = tcpOptEnd then return (mss, false)
    else if kind = tcpOptNop then parseMssWalk area (o + 1) (left - 1) mss
    else if left < 2 then return (mss, true)
    else
      let len := (← readAt area (o + 1) 1).getD 0 0
      if len < 2 ∨ len.toNat > left then return (mss, true)
      else
        let mss ←
          if kind = tcpOptMss ∧ len = 4 then (be16 · 0) <$> readAt area (o + 2) 2 else pure mss
        parseMssWalk area (o + len.toNat) (left - len.toNat) mss
termination_by left
decreasing_by
  · omega
  · rename_i hgood
    have htwo := two_le_toNat (not_or.mp hgood).1
    change left - len.toNat < left
    omega

theorem readAt_cons {l m : List UInt8} {o : Nat} {a : UInt8} (h : l.drop o = a :: m) :
    readAt l o 1 = .ok [a] := by
  have hlen := congrArg List.length h
  rw [List.length_drop, List.length_cons] at hlen
  rw [readAt_ok (by omega), h]
  rfl

/-- The loop reads inside the area only, and what it returns is `tcpParseMss`. -/
theorem parseMssWalk_eq (area : List UInt8) (fuel o left : Nat) (mss : UInt16)
    (harea : o + left = area.length) (hfuel : left ≤ fuel) :
    parseMssWalk area o left mss = .ok (parseMssLoop fuel (area.drop o) mss) := by
  induction fuel generalizing o left mss with
  | zero =>
    obtain rfl : left = 0 := Nat.le_zero.mp hfuel
    rw [parseMssWalk, if_pos rfl]
    rfl
  | succ fuel ih =>
    rw [parseMssWalk]
    cases hdrop : area.drop o with
    | nil =>
      have hlen := congrArg List.length hdrop
      rw [List.length_drop, List.length_nil] at hlen
      rw [if_pos (by omega)]
      rfl
    | cons kind rest =>
      have hlen := congrArg List.length hdrop
      rw [List.length_drop, List.length_cons] at hlen
      have hrest : area.drop (o + 1) = rest := by
        rw [← List.drop_drop, hdrop]
        rfl
      rw [if_neg (by omega), readAt_cons hdrop, ok_bind]
      simp only [List.getD_cons_zero, parseMssLoop]
      split
      · rfl
      split
      · rw [ih (o + 1) (left - 1) mss (by omega) (by omega), hrest]
      cases rest with
      | nil =>
        rw [List.length_nil] at hlen
        rw [if_pos (by omega)]
        rfl
      | cons len body =>
        rw [List.length_cons] at hlen
        have hbody : area.drop (o + 2) = body := by
          rw [← List.drop_drop, hdrop]
          rfl
        rw [if_neg (by omega), readAt_cons hrest, ok_bind]
        simp only [List.getD_cons_zero, List.length_cons, show body.length + 1 + 1 = left by omega]
        split
        · rfl
        rename_i hgood
        simp only [not_or, not_lt] at hgood
        have hskip : area.drop (o + len.toNat) = (kind :: len :: body).drop len.toNat := by
          rw [← hdrop, List.drop_drop]
        have htwo := two_le_toNat hgood.1
        rw [← hskip]
        split
        · rename_i hmss
          have hfour : len.toNat = 4 := by
            rw [hmss.2]
            rfl
          have hread : readAt area (o + 2) 2 = .ok (body.take 2) := by
            rw [readAt_ok (by omega), hbody]
          have hval : be16 (body.take 2) 0 =
              (body.getD 0 0).toUInt16 <<< 8 ||| (body.getD 1 0).toUInt16 := by
            match body, hlen with
            | [], hlen => simp only [List.length_nil] at hlen; omega
            | [_], hlen => simp only [List.length_cons, List.length_nil] at hlen; omega
            | _ :: _ :: _, _ => rfl
          rw [hread]
          change parseMssWalk area _ _ (be16 (body.take 2) 0) = _
          rw [hval]
          exact ih _ _ _ (by omega) (by omega)
        · exact ih _ _ _ (by omega) (by omega)

/-! ### The grammar -/

/-- An option with a length byte, which counts the whole option: its kind, and the bytes behind
the length. -/
structure TlvOption where
  kind : UInt8
  body : List UInt8
  ne_end : kind ≠ tcpOptEnd
  ne_nop : kind ≠ tcpOptNop
  len_lt : body.length + 2 < 256

inductive TcpOption where
  | nop
  | tlv (o : TlvOption)

namespace TcpOption

def bytes : TcpOption → List UInt8
  | .nop => [tcpOptNop]
  | .tlv o => o.kind :: UInt8.ofNat (o.body.length + 2) :: o.body

/-- What an MSS option of length 4 says. -/
def mss : TcpOption → Option UInt16
  | .nop => none
  | .tlv o => if o.kind = tcpOptMss ∧ o.body.length = 2 then some (be16 o.body 0) else none

end TcpOption

/-- What the last MSS option says, 0 if there is none. -/
def lastMss (opts : List TcpOption) : UInt16 := (opts.filterMap TcpOption.mss).getLast?.getD 0

/-- An option whose length byte is missing, too small for the option, or too large for the area. -/
inductive Malformed : List UInt8 → Prop where
  | missing (kind : UInt8) (hend : kind ≠ tcpOptEnd) (hnop : kind ≠ tcpOptNop) : Malformed [kind]
  | short (kind len : UInt8) (rest : List UInt8) (hend : kind ≠ tcpOptEnd) (hnop : kind ≠ tcpOptNop)
      (hlen : len < 2) : Malformed (kind :: len :: rest)
  | overlong (kind len : UInt8) (rest : List UInt8) (hend : kind ≠ tcpOptEnd)
      (hnop : kind ≠ tcpOptNop) (hlen : rest.length + 2 < len.toNat) :
          Malformed (kind :: len :: rest)

/-- An option area: options, then the place where parsing ends. -/
structure OptionArea (area : List UInt8) (opts : List TcpOption) (rest : List UInt8) : Prop where
  bytes : area = opts.flatMap TcpOption.bytes ++ rest
  ends : rest = [] ∨ rest.head? = some tcpOptEnd ∨ Malformed rest

/-! ### Parsing -/

/-- A round takes one option off the front of the area. -/
theorem parseMssLoop_option (o : TcpOption) (fuel : Nat) (tail : List UInt8) (mss : UInt16) :
    parseMssLoop (fuel + 1) (o.bytes ++ tail) mss = parseMssLoop fuel tail (o.mss.getD mss) := by
  cases o with
  | nop => rfl
  | tlv o =>
    have hlt := o.len_lt
    have hlen : (UInt8.ofNat (o.body.length + 2)).toNat = o.body.length + 2 :=
      UInt8.toNat_ofNat_of_lt' hlt
    have hgood : ¬ (UInt8.ofNat (o.body.length + 2) < 2 ∨
        o.body.length + 2 > o.body.length + tail.length + 1 + 1) := by
      rw [not_or, UInt8.lt_iff_toNat_lt, hlen]
      change ¬ o.body.length + 2 < 2 ∧ _
      omega
    have hfour : UInt8.ofNat (o.body.length + 2) = 4 ↔ o.body.length = 2 := by
      rw [← UInt8.toNat_inj, hlen]
      change o.body.length + 2 = 4 ↔ _
      omega
    have hdrop : (o.kind :: UInt8.ofNat (o.body.length + 2) :: (o.body ++ tail)).drop
        (o.body.length + 2) = tail := List.drop_left
    simp only [TcpOption.bytes, List.cons_append, parseMssLoop, if_neg o.ne_end, if_neg o.ne_nop,
      List.length_cons, List.length_append, hlen, if_neg hgood, hfour, hdrop, TcpOption.mss]
    split
    · rename_i hmss
      have hbyte (i : Nat) (hi : i < 2) : (o.body ++ tail).getD i 0 = o.body.getD i 0 := by
        rw [List.getD_eq_getElem?_getD, List.getElem?_append_left (by omega),
          List.getD_eq_getElem?_getD]
      rw [hbyte 0 (by decide), hbyte 1 (by decide)]
      rfl
    · rfl

/-- Where parsing ends nothing more is read. -/
theorem parseMssLoop_end {rest : List UInt8} (fuel : Nat) (mss : UInt16)
    (h : rest = [] ∨ rest.head? = some tcpOptEnd ∨ Malformed rest) (hfuel : rest.length ≤ fuel) :
    (parseMssLoop fuel rest mss).1 = mss ∧
      ((parseMssLoop fuel rest mss).2 = true ↔ Malformed rest) := by
  have hnil : ¬ Malformed [] := fun hbad => nomatch hbad
  cases fuel with
  | zero =>
    rw [List.eq_nil_of_length_eq_zero (Nat.le_zero.mp hfuel)]
    exact ⟨rfl, iff_of_false Bool.false_ne_true hnil⟩
  | succ fuel =>
    rcases h with rfl | hend | hbad
    · exact ⟨rfl, iff_of_false Bool.false_ne_true hnil⟩
    · obtain ⟨tail, rfl⟩ : ∃ tail, rest = tcpOptEnd :: tail := by
        cases rest with
        | nil => cases hend
        | cons a tail => exact ⟨tail, by rw [Option.some.inj hend]⟩
      refine ⟨rfl, iff_of_false Bool.false_ne_true ?_⟩
      rintro (⟨_, hne, -⟩ | ⟨_, _, _, hne, -, -⟩ | ⟨_, _, _, hne, -, -⟩)
      all_goals exact hne rfl
    · have hstop : parseMssLoop (fuel + 1) rest mss = (mss, true) := by
        cases hbad with
        | missing kind hend hnop => simp only [parseMssLoop, if_neg hend, if_neg hnop]
        | short kind len rest hend hnop hlen =>
          simp only [parseMssLoop, if_neg hend, if_neg hnop, if_pos (Or.inl hlen)]
        | overlong kind len rest hend hnop hlen =>
          simp only [parseMssLoop, if_neg hend, if_neg hnop]
          rw [if_pos (Or.inr (by simpa using hlen))]
      rw [hstop]
      exact ⟨rfl, iff_of_true rfl hbad⟩

/-- The rounds take the options off one by one, and keep what the last MSS option says. -/
theorem parseMssLoop_options (opts : List TcpOption) (fuel : Nat) (rest : List UInt8)
    (mss : UInt16) : parseMssLoop (opts.length + fuel) (opts.flatMap TcpOption.bytes ++ rest) mss =
      parseMssLoop fuel rest ((opts.filterMap TcpOption.mss).getLast?.getD mss) := by
  induction opts generalizing mss with
  | nil =>
    rw [List.length_nil, Nat.zero_add]
    rfl
  | cons o opts ih =>
    have hlast : ((o :: opts).filterMap TcpOption.mss).getLast?.getD mss =
        (opts.filterMap TcpOption.mss).getLast?.getD (o.mss.getD mss) := by
      cases hmss : o.mss with
      | none => rw [List.filterMap_cons_none hmss, Option.getD_none]
      | some m =>
        rw [List.filterMap_cons_some hmss, List.getLast?_cons, Option.getD_some, Option.getD_some]
    rw [List.length_cons, Nat.succ_add, List.flatMap_cons, List.append_assoc,
      parseMssLoop_option, ih, hlast]

theorem length_le_bytes (opts : List TcpOption) :
    opts.length ≤ (opts.flatMap TcpOption.bytes).length := by
  induction opts with
  | nil => exact Nat.le_refl 0
  | cons o opts ih =>
    have hpos : 0 < o.bytes.length := by cases o <;> exact Nat.succ_pos _
    rw [List.flatMap_cons, List.length_append, List.length_cons]
    omega

/-- Every string of bytes is an option area. -/
theorem exists_optionArea (area : List UInt8) : ∃ opts rest, OptionArea area opts rest := by
  induction hn : area.length using Nat.strong_induction_on generalizing area with
  | _ n ih =>
    -- an option at the front, before an area that is shorter
    have hcons (o : TcpOption) (tail : List UInt8) (harea : area = o.bytes ++ tail) :
        ∃ opts rest, OptionArea area opts rest := by
      have hpos : 0 < o.bytes.length := by cases o <;> exact Nat.succ_pos _
      have hlen := congrArg List.length harea
      rw [List.length_append] at hlen
      obtain ⟨opts, rest, htail⟩ := ih tail.length (by omega) tail rfl
      refine ⟨o :: opts, rest, ?_, htail.ends⟩
      rw [List.flatMap_cons, List.append_assoc, ← htail.bytes, harea]
    cases area with
    | nil => exact ⟨[], [], rfl, Or.inl rfl⟩
    | cons kind rest =>
      by_cases hend : kind = tcpOptEnd
      · exact ⟨[], kind :: rest, rfl, Or.inr (Or.inl (by rw [hend]; rfl))⟩
      by_cases hnop : kind = tcpOptNop
      · exact hcons .nop rest (by rw [hnop]; rfl)
      cases rest with
      | nil => exact ⟨[], _, rfl, Or.inr (Or.inr (.missing kind hend hnop))⟩
      | cons len body =>
        by_cases hshort : len < 2
        · exact ⟨[], _, rfl, Or.inr (Or.inr (.short kind len body hend hnop hshort))⟩
        by_cases hover : body.length + 2 < len.toNat
        · exact ⟨[], _, rfl, Or.inr (Or.inr (.overlong kind len body hend hnop hover))⟩
        have htwo := two_le_toNat hshort
        have htake : (body.take (len.toNat - 2)).length + 2 = len.toNat := by
          rw [List.length_take]
          omega
        refine hcons (.tlv ⟨kind, body.take (len.toNat - 2), hend, hnop, ?_⟩)
          (body.drop (len.toNat - 2)) ?_
        · exact htake.trans_lt len.toNat_lt
        simp only [TcpOption.bytes, htake, UInt8.ofNat_toNat, List.cons_append,
          List.take_append_drop]

theorem tcpApplyMss_bounds (t : Tcb) (mss : UInt16) :
    1 ≤ (tcpApplyMss t mss).mss ∧ (tcpApplyMss t mss).mss ≤ tcpOurMss := by
  simp only [tcpApplyMss]
  split
  · rename_i hne
    have hpos : 1 ≤ mss := by
      rw [UInt16.le_iff_toNat_le]
      exact Nat.pos_of_ne_zero fun hz => hne (UInt16.toNat_inj.mp hz)
    split
    · rename_i hlt
      exact ⟨hpos, UInt16.le_of_lt hlt⟩
    · exact ⟨by decide, UInt16.le_refl _⟩
  · exact ⟨by decide, by decide⟩

/-- `tcp_parse_mss` for every option area: it ends, without a read outside the area, and returns
what the last MSS option before the first END, the first malformed option or the end of the area
says, and 0 if there is none. The MSS that `tcp_apply_mss` makes of it is at least 1 and at most
our own. -/
theorem tcp_parse_mss_exact (area : List UInt8) :
    parseMssWalk area 0 area.length 0 = .ok (tcpParseMss area) ∧
    (∃ opts rest, OptionArea area opts rest) ∧
    (∀ opts rest, OptionArea area opts rest →
      (tcpParseMss area).1 = lastMss opts ∧ ((tcpParseMss area).2 = true ↔ Malformed rest)) ∧
    ∀ t, 1 ≤ (tcpApplyMss t (tcpParseMss area).1).mss ∧
      (tcpApplyMss t (tcpParseMss area).1).mss ≤ tcpOurMss := by
  refine ⟨?_, exists_optionArea area, ?_, fun t => tcpApplyMss_bounds t _⟩
  · rw [parseMssWalk_eq area area.length 0 area.length 0 (Nat.zero_add _) (Nat.le_refl _)]
    rfl
  · intro opts rest harea
    have hlen := congrArg List.length harea.bytes
    rw [List.length_append] at hlen
    have hopts := length_le_bytes opts
    -- after one round for each option there is fuel for what is left
    have hsplit : area.length = opts.length + (area.length - opts.length) := by omega
    have hparse : tcpParseMss area =
        parseMssLoop (area.length - opts.length) rest (lastMss opts) := by
      rw [tcpParseMss, hsplit, harea.bytes, parseMssLoop_options, ← harea.bytes, ← hsplit]
      rfl
    rw [hparse]
    exact parseMssLoop_end _ _ harea.ends (by omega)

/-- An area with a NOP, two MSS options and an option that runs over its end. -/
example : tcpParseMss [1, 2, 4, 5, 0xb4, 2, 4, 2, 0x18, 3, 9] = (0x218, true) := by decide

end PacketForge
