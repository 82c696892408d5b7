import FlexSwitch.Go.Scan
import FlexSwitch.Packet.CapScan
import FlexSwitch.Tiling

/-! The capabilities of an optional parameter, one after the other. -/

namespace FlexSwitch.Packet

open Go List Outcome

/-- The bytes of a capability: type, length, and as many bytes as the length says. -/
def CapCovers (base : BGPCapabilityBase) (piece : Bytes) : Prop :=
  ∃ body, piece = base.type :: base.len :: body ∧ body.length = base.len.toNat

/-- The capabilities cover the bytes one after the other. -/
def CapsTile (capabilities : List BGPCapability) (whole : Bytes) : Prop :=
  Tiles CapCovers (capabilities.map BGPCapability.base) whole

/--
The positions the loop over the capabilities of a parameter comes to.

They are counted from the start of the parameter, whose own type and length come first.
-/
def CapReached (pkt : Bytes) (len : UInt8) : Nat → Prop :=
  Walk (fun position base => CapTaken (pkt.drop position) base)
    (fun base : BGPCapabilityBase => base.len.toNat + 2) (2 + len.toNat) 2

/-- Decoding the capabilities of the parameter stays inside the bytes. -/
def CapsSafe (pkt : Bytes) (len : UInt8) : Prop :=
  ∀ position, CapReached pkt len position → position < 2 + len.toNat → CapSafe (pkt.drop position)

/-- What a decoder takes is inside the bytes, and covers a piece of them. -/
theorem CapTaken.piece {pkt : Bytes} {base : BGPCapabilityBase} {position : Nat}
    (taken : CapTaken (pkt.drop position) base) :
    position + (base.len.toNat + 2) ≤ pkt.length ∧
    CapCovers base ((pkt.drop position).take (base.len.toNat + 2)) := by
  obtain ⟨body, same, fits, _⟩ := taken.present
  have long := congrArg length same
  simp only [length_drop, length_cons] at long
  refine ⟨by omega, body.take base.len.toNat, ?_, ?_⟩
  · rw [same]
    rfl
  · rw [length_take]
    omega

section Capabilities

variable {fuel : Nat} {base : BGPOptParamBase} {pkt : Bytes} {cursor : CapCursor}

/-- The cursor behind a capability that was read. -/
def CapCursor.push (cursor : CapCursor) (cap : BGPCapability) : CapCursor :=
  ⟨cursor.offset + cap.totalLen, cursor.paramsLen - cap.totalLen.toNat, cursor.value ++ [cap]⟩

/-- A round with bytes left decodes one capability and moves behind it. -/
theorem capRound_decides (enough : 65 ≤ fuel) (left : 0 < cursor.paramsLen) :
    (capRound fuel base pkt cursor).Decides (∃ taken, CapTaken (pkt.drop cursor.offset.toNat) taken)
      (CapSafe (pkt.drop cursor.offset.toNat))
      fun round => ∃ cap : BGPCapability, CapTaken (pkt.drop cursor.offset.toNat) cap.base ∧
        round = .next (cursor.push cap) := by
  have decides := BGPCapability.decode_decides enough (pkt.drop cursor.offset.toNat)
  unfold capRound
  rw [if_pos left]
  by_cases within : cursor.offset.toNat ≤ pkt.length
  · rw [sliceFrom_of_le within, ok_bind]
    exact decides.map fun cap taken => ⟨cap, taken, rfl⟩
  · -- Behind the end there is nothing to choose a decoder by.
    have nothing : pkt.drop cursor.offset.toNat = [] := drop_of_length_le (by omega)
    rw [sliceFrom, if_neg within, nothing]
    refine ⟨?_, fun _ safe => absurd rfl safe.present, fun _ => rfl⟩
    intro returned
    obtain ⟨_, taken⟩ := returned
    exact absurd rfl taken.safe.present

/-- What holds of the loop's state in every round. -/
structure CapPlaced (pkt : Bytes) (len : UInt8) (cursor : CapCursor) : Prop where
  counted : (cursor.offset.toNat : Int) + cursor.paramsLen = 2 + len.toNat
  bounded : cursor.offset.toNat ≤ len.toNat + 258
  within : cursor.offset.toNat ≤ pkt.length
  begun : 2 ≤ cursor.offset.toNat
  tiled : CapsTile cursor.value ((pkt.drop 2).take (cursor.offset.toNat - 2))

/-- One more capability keeps the state in place. -/
theorem CapPlaced.next {len : UInt8} (placed : CapPlaced pkt len cursor)
    (left : 0 < cursor.paramsLen) {cap : BGPCapability}
    (taken : CapTaken (pkt.drop cursor.offset.toNat) cap.base) :
    CapPlaced pkt len (cursor.push cap) ∧ (cursor.push cap).offset.toNat =
      cursor.offset.toNat + (cap.base.len.toNat + 2) := by
  obtain ⟨counted, bounded, within, begun, tiled⟩ := placed
  obtain ⟨inside, covers⟩ := taken.piece
  have small := cap.base.len.toNat_lt
  have limit := len.toNat_lt
  have total : cap.totalLen.toNat = cap.base.len.toNat + 2 :=
    cap.base.totalLen_toNat
  have moved : (cursor.push cap).offset.toNat = cursor.offset.toNat + (cap.base.len.toNat + 2) := by
    rw [CapCursor.push, UInt16.toNat_add, total]
    omega
  refine ⟨⟨?_, ?_, ?_, ?_, ?_⟩, moved⟩
  · rw [moved]
    simp only [CapCursor.push, total]
    omega
  · rw [moved]
    omega
  · rw [moved]
    omega
  · rw [moved]
    omega
  · -- The capability covers the bytes between the old position and the new one.
    rw [moved, CapCursor.push, CapsTile, map_append]
    exact tiled.extend begun covers

/-- The loop over the capabilities of the parameter. -/
abbrev capLoopStart (base : BGPOptParamBase) : CapCursor := ⟨2, base.len.toNat, []⟩

theorem capLoopStart_placed (long : 2 ≤ pkt.length) :
    CapPlaced pkt base.len (capLoopStart base) where
  counted := rfl
  bounded := by simp
  within := long
  begun := le_refl _
  tiled := .nil

theorem capRound_next (enough : 65 ≤ fuel) {later : CapCursor}
    (advanced : capRound fuel base pkt cursor = .ok (.next later)) :
    0 < cursor.paramsLen ∧ ∃ cap : BGPCapability, CapTaken (pkt.drop cursor.offset.toNat) cap.base ∧
      later = cursor.push cap := by
  by_cases left : 0 < cursor.paramsLen
  · obtain ⟨_, cap, taken, same⟩ := (capRound_decides enough left).of_ok advanced
    cases same
    exact ⟨left, cap, taken, rfl⟩
  · -- With no bytes left the round stops or fails.
    unfold capRound at advanced
    rw [if_neg left] at advanced
    split at advanced <;> cases advanced

theorem Reaches.capPlaced (enough : 65 ≤ fuel) (long : 2 ≤ pkt.length)
    (reached : Reaches (capRound fuel base pkt) (capLoopStart base) cursor) :
    CapPlaced pkt base.len cursor := by
  refine reached.invariant _ (capLoopStart_placed long) ?_
  intro state later placed advanced
  obtain ⟨left, cap, taken, rfl⟩ := capRound_next enough advanced
  exact (placed.next left taken).1

theorem CapTaken.unique {rest : Bytes} {first second : BGPCapabilityBase}
    (taken : CapTaken rest first) (again : CapTaken rest second) : first = second := by
  obtain ⟨_, same, _⟩ := taken.present
  obtain ⟨_, other, _⟩ := again.present
  rw [same] at other
  injection other with type others
  injection others with len _
  cases first
  cases second
  simp_all

/-- The loop over the capabilities scans them up to the end of the parameter. -/
theorem capRound_scans (enough : 65 ≤ fuel) (long : 2 ≤ pkt.length) :
    Scans (capRound fuel base pkt) (capLoopStart base) (fun cursor => cursor.offset.toNat)
      2 (2 + base.len.toNat) (fun position found => CapTaken (pkt.drop position) found)
      (fun found => found.len.toNat + 2) (fun position => CapSafe (pkt.drop position)) where
  begins := rfl
  inside state reached before := by
    have placed := Reaches.capPlaced enough long reached
    have counted := placed.counted
    have left : 0 < state.paramsLen := by omega
    refine (capRound_decides enough left).weaken ?_
    intro round ⟨cap, taken, same⟩
    exact ⟨_, cap.base, same, taken, (placed.next left taken).2⟩
  ends state reached here := by
    have counted := (Reaches.capPlaced enough long reached).counted
    refine ⟨{ toBGPOptParamBase := base, value := state.value }, ?_⟩
    rw [capRound, if_neg (by omega), if_neg (by omega)]
    rfl
  overrun state reached behind := by
    have counted := (Reaches.capPlaced enough long reached).counted
    rw [capRound, if_neg (by omega), if_pos (by omega)]
    exact ⟨_, rfl⟩
  unique position item other read again := by
    rw [read.unique again]

theorem capLoop_ends (enough : 256 ≤ fuel) (long : 2 ≤ pkt.length) :
    loop (capRound fuel base pkt) fuel (capLoopStart base) ≠ .hang := by
  have small := base.len.toNat_lt
  refine (capRound_scans (by omega) long).ne_hang (fun _ _ _ _ _ => by omega) (by omega)

/-- The loop comes back exactly when each capability it comes to is inside the bytes. -/
theorem capLoop_returns (enough : 256 ≤ fuel) (long : 2 ≤ pkt.length) :
    (loop (capRound fuel base pkt) fuel (capLoopStart base)).Returns ↔ CapsSafe pkt base.len := by
  have small := base.len.toNat_lt
  refine (capRound_scans (by omega) long).returns_iff (fun _ _ _ _ _ => by omega) (by omega)

/-- The loop succeeds with capabilities that tile the value of the parameter. -/
theorem capLoop_ok {param : BGPOptParamCapability} (enough : 65 ≤ fuel) (long : 2 ≤ pkt.length)
    (ended : loop (capRound fuel base pkt) fuel (capLoopStart base) = .ok param) :
    param.toBGPOptParamBase = base ∧ CapReached pkt base.len (2 + base.len.toNat) ∧
      2 + base.len.toNat ≤ pkt.length ∧
      CapsTile param.value ((pkt.drop 2).take base.len.toNat) := by
  obtain ⟨last, reached, here, stopped⟩ := (capRound_scans enough long).of_ok ended
  obtain ⟨counted, _, within, _, tiled⟩ := Reaches.capPlaced enough long reached
  have walked : CapReached pkt base.len last.offset.toNat :=
    (capRound_scans enough long).walk reached
  rw [here] at walked within tiled
  rw [Nat.add_sub_cancel_left] at tiled
  rw [capRound, if_neg (by omega), if_neg (by omega)] at stopped
  cases stopped
  exact ⟨rfl, walked, within, tiled⟩

/-- The loop succeeds whenever a walk arrives at the end of the parameter. -/
theorem capLoop_takes (enough : 256 ≤ fuel) (long : 2 ≤ pkt.length)
    (walked : CapReached pkt base.len (2 + base.len.toNat)) :
    ∃ param, loop (capRound fuel base pkt) fuel (capLoopStart base) = .ok param :=
  (capRound_scans (by omega) long).succeeds (capLoop_ends enough long) walked

end Capabilities

section Parameter

/-- The bytes start with the header of a parameter that is not refused for its length. -/
structure ParamHeader (pkt : Bytes) (base : BGPOptParamBase) : Prop where
  present : ∃ body, pkt = base.type :: base.len :: body
  fits : base.totalLen.toNat ≤ pkt.length

/-- The bytes start with a parameter whose capabilities end where it does. -/
structure ParamTaken (pkt : Bytes) (base : BGPOptParamBase) : Prop where
  header : ParamHeader pkt base
  capabilities : CapReached pkt base.len (2 + base.len.toNat)

namespace BGPOptParamBase

theorem decode_cons (type len : UInt8) (body : Bytes) : decode (type :: len :: body) =
      if (mk type len).totalLen.toNat ≤ (type :: len :: body).length then
        .ok ⟨type, len⟩
      else .error ⟨bgpUpdateMsgError, bgpUnspecific, [],
        "Not enough data to decode Opt params data"⟩ := by
  unfold decode
  rw [if_neg (by simp)]
  simp only [index, getElem?_cons_zero, getElem?_cons_succ, ok_bind, pure_eq]
  by_cases fits : (mk type len).totalLen.toNat ≤ (type :: len :: body).length
  · rw [if_pos fits, if_neg (by omega)]
  · rw [if_neg fits, if_pos (by omega)]
    rfl

/-- A header is read exactly when it is there. -/
theorem decode_ok {pkt : Bytes} {base : BGPOptParamBase} :
    decode pkt = .ok base ↔ ParamHeader pkt base := by
  constructor
  · intro decoded
    match pkt with
    | [] => cases decoded
    | [_] => cases decoded
    | type :: len :: body =>
      rw [decode_cons] at decoded
      split at decoded
      · rename_i fits
        cases decoded
        exact ⟨⟨body, rfl⟩, fits⟩
      · cases decoded
  · intro header
    obtain ⟨⟨body, rfl⟩, fits⟩ := header
    rw [decode_cons, if_pos fits]

theorem decode_returns (pkt : Bytes) : (decode pkt).Returns := by
  match pkt with
  | [] => trivial
  | [_] => trivial
  | type :: len :: body =>
    rw [decode_cons]
    split <;> trivial

end BGPOptParamBase

variable {fuel : Nat} {pkt : Bytes}

theorem ParamHeader.long {base : BGPOptParamBase} (header : ParamHeader pkt base) :
    2 ≤ pkt.length := by
  obtain ⟨body, rfl⟩ := header.present
  simp

namespace BGPOptParamCapability

/-- A parameter comes back exactly when its capabilities stay inside the bytes. -/
theorem decode_returns (enough : 256 ≤ fuel) : (decode fuel pkt).Returns ↔
      ∀ base, ParamHeader pkt base → CapsSafe pkt base.len := by
  unfold decode
  rw [bind_returns]
  constructor
  · intro returned base header
    exact (capLoop_returns enough header.long).mp
      (returned.2 base (BGPOptParamBase.decode_ok.mpr header))
  · intro safe
    refine ⟨BGPOptParamBase.decode_returns pkt, ?_⟩
    intro base decoded
    have header := BGPOptParamBase.decode_ok.mp decoded
    exact (capLoop_returns enough header.long).mpr (safe base header)

theorem decode_ok {param : BGPOptParamCapability} (enough : 65 ≤ fuel)
    (decoded : decode fuel pkt = .ok param) :
    ParamTaken pkt param.toBGPOptParamBase ∧ 2 + param.len.toNat ≤ pkt.length ∧
      CapsTile param.value ((pkt.drop 2).take param.len.toNat) := by
  obtain ⟨base, read, ended⟩ := bind_eq_ok.mp decoded
  have header := BGPOptParamBase.decode_ok.mp read
  obtain ⟨same, walked, within, tiled⟩ := capLoop_ok enough header.long ended
  rw [← same] at header walked within tiled
  exact ⟨⟨header, walked⟩, within, tiled⟩

theorem decode_takes {base : BGPOptParamBase} (enough : 256 ≤ fuel)
    (taken : ParamTaken pkt base) :
    ∃ param, decode fuel pkt = .ok param := by
  unfold decode
  rw [BGPOptParamBase.decode_ok.mpr taken.header, ok_bind]
  exact capLoop_takes enough taken.header.long taken.capabilities

theorem decode_ends (enough : 256 ≤ fuel) : decode fuel pkt ≠ .hang := by
  have returned := BGPOptParamBase.decode_returns pkt
  refine bind_ne_hang ((returns_iff _).mp returned).2 ?_
  intro base decoded
  exact capLoop_ends enough (BGPOptParamBase.decode_ok.mp decoded).long

end BGPOptParamCapability

end Parameter

end FlexSwitch.Packet
