import FlexSwitch.Packet.HeaderWire
import FlexSwitch.Packet.MaxSizedRoutes
import FlexSwitch.Packet.NlriWire

/-! Multiprotocol attributes on the wire: what comes back of next hops and prefixes. -/

namespace FlexSwitch.Packet

open Go List Outcome UInt16
open Rib (IPText ipString to4 v4InV6Prefix)

section Building

/-- `MPNextHopIP.SetNextHop`. An address of either length also passes the source's second check. -/
def setNextHop (ip : Bytes) : Call MPNextHop :=
  if ip.length ≠ 4 ∧ ip.length ≠ 16 then
    .error (plainError ("Next hop IP address is not 4 bytes or 16 bytes, length=" ++
      toString ip.length))
  else .ok (.ip (if to4 ip ≠ [] then 4 else 16) ip)

/-- The fields of an IPv6 next hop, the link-local address of which may be nil. -/
structure MPNextHopIP6 where
  length : UInt8
  value : Bytes
  linkLocal : Option Bytes
deriving DecidableEq, Repr

namespace MPNextHopIP6

def new : MPNextHopIP6 := ⟨0, [], none⟩

def setGlobalNextHop (nextHop : MPNextHopIP6) (ip : Bytes) : Call MPNextHopIP6 :=
  if ip.length ≠ 16 then
    .error (plainError ("IPv6 next hop address is not 16 bytes, length =" ++ toString ip.length))
  else .ok { nextHop with
    value := ip
    length := if nextHop.linkLocal.isSome then UInt8.ofNat ip.length * 2
      else UInt8.ofNat ip.length }

/-- The address has been set by then, so the source's test for nil always passes. -/
def setLinkLocalNextHop (nextHop : MPNextHopIP6) (ip : Bytes) : Call MPNextHopIP6 :=
  if ip.length ≠ 16 then
    .error (plainError ("IPv6 next hop address is not 16 bytes, length =" ++ toString ip.length))
  else .ok { nextHop with linkLocal := some ip, length := UInt8.ofNat ip.length * 2 }

def toMPNextHop (nextHop : MPNextHopIP6) : MPNextHop :=
  .ip6 nextHop.length nextHop.value nextHop.linkLocal

/-- The IPv6 next hops that the setters can make. -/
inductive Built : MPNextHopIP6 → Prop where
  | new : Built new
  | setGlobal {nextHop later : MPNextHopIP6} {ip : Bytes} (built : Built nextHop)
      (set : nextHop.setGlobalNextHop ip = .ok later) : Built later
  | setLinkLocal {nextHop later : MPNextHopIP6} {ip : Bytes} (built : Built nextHop)
      (set : nextHop.setLinkLocalNextHop ip = .ok later) : Built later

end MPNextHopIP6

/-- The next hops that can be set: an IPv6 one needs its global address. -/
inductive BuiltNextHop : MPNextHop → Prop where
  | ip {address : Bytes} {nextHop : MPNextHop} (set : setNextHop address = .ok nextHop) :
      BuiltNextHop nextHop
  | ip6 {nextHop : MPNextHopIP6} (built : nextHop.Built) (globalSet : nextHop.value ≠ []) :
      BuiltNextHop nextHop.toMPNextHop

end Building

namespace MPNextHop

/-- The addresses of a next hop: the global one, and the link-local one if there is one. -/
def addresses : MPNextHop → IPText × Option IPText
  | ip _ value => (ipString value, none)
  | ip6 _ value linkLocal => (ipString value, linkLocal.map ipString)
  | unknown _ value => (ipString value, none)

/-- A next hop that has a link-local address. -/
def hasLinkLocal : MPNextHop → Bool
  | ip6 _ _ linkLocal => linkLocal.isSome
  | _ => false

/-- The forms a next hop has once it is set. -/
inductive Sound : MPNextHop → Prop where
  | four {value : Bytes} (short : value.length = 4 ∨ value.length = 16 ∧
      value.take 12 = v4InV6Prefix) : Sound (.ip 4 value)
  | sixteen {value : Bytes} (long : value.length = 16) : Sound (.ip 16 value)
  | globalOnly {value : Bytes} (long : value.length = 16) : Sound (.ip6 16 value none)
  | linkLocal {value address : Bytes} (long : value.length = 16)
      (longToo : address.length = 16) : Sound (.ip6 32 value (some address))

/-- The bytes a next hop is written as: its length, and then its addresses. -/
def wire : MPNextHop → Bytes
  | ip length value => length :: value.drop (value.length - if length = 4 then 4 else 16)
  | ip6 length value linkLocal => length :: value ++ linkLocal.getD []
  | unknown length value => length :: value

end MPNextHop

variable {pkt : Bytes}

section NextHops

/-- A link-local address makes the next hop twice as long. -/
theorem MPNextHopIP6.Built.sound {nextHop : MPNextHopIP6} (built : nextHop.Built) :
    (nextHop.value ≠ [] → nextHop.value.length = 16 ∧
      nextHop.length = if nextHop.linkLocal.isSome then 32 else 16) ∧
    ∀ address, nextHop.linkLocal = some address → address.length = 16 := by
  -- Each setter checks its address, and counts the other one in if it is there.
  induction built with
  | new => exact ⟨fun some => absurd rfl some, nofun⟩
  | @setGlobal nextHop later ip built set ih =>
    rw [MPNextHopIP6.setGlobalNextHop] at set
    split at set
    · cases set
    · rename_i long
      cases set
      have sixteen : ip.length = 16 := not_not.mp long
      refine ⟨fun _ => ⟨sixteen, ?_⟩, ih.2⟩
      rw [sixteen]
      rfl
  | @setLinkLocal nextHop later ip built set ih =>
    rw [MPNextHopIP6.setLinkLocalNextHop] at set
    split at set
    · cases set
    · rename_i long
      cases set
      have sixteen : ip.length = 16 := not_not.mp long
      refine ⟨fun some => ⟨(ih.1 some).1, ?_⟩, ?_⟩
      · rw [sixteen]
        rfl
      · intro address same
        cases same
        exact sixteen

/-- The setters only make next hops with the length their address needs. -/
theorem BuiltNextHop.sound {nextHop : MPNextHop} (built : BuiltNextHop nextHop) :
    nextHop.Sound := by
  cases built with
  | @ip address nextHop set =>
    rw [setNextHop] at set
    split at set
    · cases set
    · rename_i sized
      cases set
      -- An address with a four-byte form is announced with four bytes.
      by_cases four : to4 address ≠ []
      · rw [if_pos four]
        refine .four ?_
        by_cases short : address.length = 4
        · exact .inl short
        · refine .inr ?_
          by_contra other
          rw [to4, if_neg short, if_neg other] at four
          exact four rfl
      · rw [if_neg four]
        refine .sixteen ?_
        by_contra long
        have short : address.length = 4 := by
          by_contra other
          exact sized ⟨other, long⟩
        rw [to4, if_pos short] at four
        exact four fun empty => by rw [empty] at short; cases short
  | @ip6 nextHop built globalSet =>
    obtain ⟨value, linkLocal⟩ := built.sound
    obtain ⟨long, length⟩ := value globalSet
    rw [MPNextHopIP6.toMPNextHop, length]
    cases there : nextHop.linkLocal with
    | none => exact .globalOnly long
    | some address => exact .linkLocal long (linkLocal address there)

/-- The length and the last bytes of the address are written, one behind the other. -/
theorem encodeNextHopIP_writes {length : UInt8} {value : Bytes} {size : Nat}
    (sized : length = 4 ∧ size = 4 ∨ (length = 16 ∨ length = 32) ∧ size = 16)
    (long : size ≤ value.length) :
    Writes (encodeNextHopIP length value []) (length :: value.drop (value.length - size)) := by
  have allowed : ¬ (length ≠ 4 ∧ length ≠ 16 ∧ length ≠ 32) := by
    rcases sized with ⟨rfl, _⟩ | ⟨rfl | rfl, _⟩ <;> decide
  have width : (if length = 16 ∨ length = 32 then 16 else 4) = size := by
    rcases sized with ⟨rfl, rfl⟩ | ⟨rfl | rfl, rfl⟩ <;> decide
  unfold encodeNextHopIP
  simp only [if_neg allowed, width, lastBytes_eq long, ok_bind]
  exact (storeAt_writes [length]).seq rfl (copyAt_writes _)

variable {nextHop : MPNextHop}

namespace MPNextHop

theorem Sound.wire_length (sound : nextHop.Sound) : nextHop.wire.length = nextHop.len.toNat := by
  cases sound with
  | four short =>
    rcases short with four | ⟨sixteen, _⟩
    · simp [wire, len, length, four]
    · simp [wire, len, length, sixteen]
  | sixteen long | globalOnly long => simp [wire, len, length, long]
  | linkLocal long longToo => simp [wire, len, length, long, longToo]

/-- A next hop is written as a whole where there is room for it. -/
theorem Sound.writes (sound : nextHop.Sound) :
    Writes (nextHop.encodeHeld [] []) nextHop.wire := by
  cases sound with
  | @four value short =>
    have long : 4 ≤ value.length := by rcases short with four | ⟨sixteen, _⟩ <;> omega
    rw [wire, if_pos rfl]
    exact encodeNextHopIP_writes (.inl ⟨rfl, rfl⟩) long
  | @sixteen value long =>
    rw [wire, if_neg (by decide)]
    exact encodeNextHopIP_writes (.inr ⟨.inl rfl, rfl⟩) (le_of_eq long.symm)
  | @globalOnly value long =>
    have plain : (ip6 16 value none).encodeHeld [] [] = encodeNextHopIP 16 value [] := by
      funext pkt position
      exact bind_pure _
    have written := @encodeNextHopIP_writes 16 value 16 (.inr ⟨.inl rfl, rfl⟩) (by omega)
    rw [long, Nat.sub_self] at written
    simpa [plain, wire] using written
  | @linkLocal value address long longToo =>
    have written := @encodeNextHopIP_writes 32 value 16 (.inr ⟨.inr rfl, rfl⟩) (by omega)
    have last := lastBytes_eq (le_of_eq longToo.symm)
    rw [longToo, Nat.sub_self, drop_zero] at last
    rw [long, Nat.sub_self, drop_zero] at written
    -- The link-local address stands seventeen bytes on, behind the global one.
    have both := written.seq (by rw [length_cons, long]) (copyAt_writes address)
    unfold encodeHeld
    simpa only [last, ok_bind, wire, Option.getD_some, cons_append] using both

/-- The global address of a next hop is read back, and its length. -/
theorem Sound.decode (sound : nextHop.Sound) {afi : UInt16}
    (known : afi = afiIP ∨ afi = afiIP6) (tail : Bytes) :
    ∃ value, decode afi (nextHop.wire ++ tail) = .ok (.ip nextHop.length value, none) ∧
      ipString value = nextHop.addresses.1 := by
  rw [MPNextHop.decode, if_pos known]
  -- Sixteen bytes behind the length are taken for the address.
  have global : ∀ {length : UInt8} {value : Bytes} (rest : Bytes), length = 16 ∨ length = 32 →
      value.length = 16 →
      MPNextHopIP.decode (length :: (value ++ rest)) = .ok (.ip length value, none) := by
    intro length value rest more long
    have copied : (copyAt (zeros 16) 0 (value ++ rest) : Call Bytes) = .ok value := by
      simp [copyAt, zeros, take_left' long, long]
    rcases more with rfl | rfl <;> simp [MPNextHopIP.decode, index, sliceFrom, copied]
  cases sound with
  | @four value short =>
    have long : (value.drop (value.length - 4)).length = 4 := by
      rw [length_drop]
      rcases short with four | ⟨sixteen, _⟩ <;> omega
    have text : ipString value = value.drop (value.length - 4) := by
      rw [ipString]
      rcases short with four | ⟨sixteen, mapped⟩
      · rw [if_neg (by rw [four]; exact fun long => absurd long.1 (by decide)), four]
        rfl
      · rw [if_pos ⟨sixteen, mapped⟩, sixteen]
    show ∃ read, MPNextHopIP.decode (wire (.ip 4 value) ++ tail) = _ ∧
      ipString read = ipString value
    rw [text, wire, if_pos rfl]
    -- Four bytes are read one by one into the form of sixteen.
    obtain ⟨a, b, c, d, four⟩ := length_eq_four.mp long
    rw [four]
    exact ⟨netIPv4 a b c d, rfl, rfl⟩
  | @sixteen value long =>
    refine ⟨value, ?_, rfl⟩
    rw [wire, if_neg (by decide), long]
    exact global tail (.inl rfl) long
  | @globalOnly value long =>
    refine ⟨value, ?_, rfl⟩
    rw [wire, Option.getD_none, append_nil]
    exact global tail (.inl rfl) long
  | @linkLocal value address long longToo =>
    refine ⟨value, ?_, rfl⟩
    rw [wire, Option.getD_some, append_assoc]
    exact global _ (.inr rfl) long

/-- No next hop is read with a link-local address. -/
theorem decode_addresses {afi : UInt16} {read : MPNextHop × Option String}
    (decoded : decode afi pkt = .ok read) : read.1.addresses.2 = none := by
  unfold decode at decoded
  split at decoded
  · rw [MPNextHopIP.decode, bind_eq_ok] at decoded
    obtain ⟨length, _, decoded⟩ := decoded
    split at decoded
    · cases decoded
      rfl
    · split at decoded
      · simp only [bind_eq_ok] at decoded
        obtain ⟨_, _, _, _, same⟩ := decoded
        cases same
        rfl
      · simp only [bind_eq_ok] at decoded
        obtain ⟨_, _, _, _, _, _, _, _, same⟩ := decoded
        cases same
        rfl
  · rw [MPNextHopUnknown.decode] at decoded
    simp only [bind_eq_ok] at decoded
    obtain ⟨_, _, _, _, _, _, same⟩ := decoded
    cases same
    rfl

end MPNextHop

end NextHops

section Headers

/-- The lengths are added up in sixteen bits. -/
theorem nlriListLen16_toNat (nlris : List NLRI) :
    (nlriListLen16 nlris).toNat = nlriBytes nlris % 65536 := by
  have general : ∀ (nlris : List NLRI) (total : UInt16),
      (nlris.foldl (fun total nlri => total + nlri.len.toUInt16) total).toNat =
        (total.toNat + nlriBytes nlris) % 65536 := by
    intro nlris
    induction nlris with
    | nil =>
      intro total
      have bound := total.toNat_lt
      simp only [foldl_nil, nlriBytes_nil]
      omega
    | cons nlri nlris ih =>
      intro total
      have small := nlri.len_le
      rw [foldl_cons, ih, UInt16.toNat_add, UInt32.toNat_toUInt16, nlriBytes_cons]
      omega
  have whole := general nlris 0
  rw [show (0 : UInt16).toNat = 0 from rfl, zero_add] at whole
  exact whole

/-- The constructors of multiprotocol attributes announce the wide header they use. -/
theorem mpHeader_wide : (4 : UInt16) =
    if (flagOptional ||| flagExtendedLen) &&& flagExtendedLen ≠ 0 then 4 else 3 := by
  decide

/-- The header of a multiprotocol attribute whose value takes so many bytes. -/
def mpBase (code : UInt8) (length : Nat) : BGPPathAttrBase :=
  ⟨flagOptional ||| flagExtendedLen, code, UInt16.ofNat length, 4⟩

variable {code : UInt8} {length : Nat}

theorem mpBase_headerExact (code : UInt8) (length : Nat) : (mpBase code length).HeaderExact :=
  mpHeader_wide

theorem mpBase_headerBytes_length (code : UInt8) (length : Nat) :
    (mpBase code length).headerBytes.length = 4 :=
  BGPPathAttrBase.headerBytes_length (mpBase_headerExact code length)

theorem mpBase_length (code : UInt8) (length : Nat) :
    (mpBase code length).length.toNat = length % 65536 :=
  toNat_ofNat'

theorem mpBase_accepted (known : code = attrTypeMPReachNLRI ∨ code = attrTypeMPUnreachNLRI)
    (length : Nat) : (mpBase code length).Accepted := by
  rcases known with rfl | rfl
  · exact BGPPathAttrBase.accepted_of_table rfl (.inr (.inl rfl)) (.inr rfl) nofun
      (by decide : attrTypeMPReachNLRI < attrTypeUnknown)
  · exact BGPPathAttrBase.accepted_of_table rfl (.inr (.inl rfl)) (.inr rfl) nofun
      (by decide : attrTypeMPUnreachNLRI < attrTypeUnknown)

theorem mpBase_encode (code : UInt8) (length : Nat) : (mpBase code length).encode =
      .ok ((mpBase code length).headerBytes ++ zeros (length % 65536)) := by
  rw [BGPPathAttrBase.encode_header (mpBase_headerExact code length), mpBase_length]

theorem mpBase_decode (known : code = attrTypeMPReachNLRI ∨ code = attrTypeMPUnreachNLRI)
    {body : Bytes} :
    BGPPathAttrBase.decode ((mpBase code body.length).headerBytes ++ body) =
      .ok (mpBase code body.length) := by
  refine BGPPathAttrBase.decode_extended ?_ rfl (mpBase_accepted known _) ?_
  · exact (by decide : (flagOptional ||| flagExtendedLen) &&& flagExtendedLen ≠ 0)
  · rw [mpBase_length]
    exact Nat.mod_le _ _

end Headers

section Attributes

variable {afi : UInt16} {safi : UInt8} {nextHop : MPNextHop} {nlris : List NLRI}
  {peerAttrs : BGPPeerAttrs}

/-- Whatever an encoder finds at the address, a prefix takes up the bytes it announces. -/
theorem NLRI.encode_length {nlri : NLRI} (done : nlri.encode afi = .ok pkt) :
    pkt.length = nlri.len.toNat := by
  have plain : ∀ {ip : IPPrefix} {out : Bytes}, ip.encode afi = .ok out →
      out.length = ip.len.toNat := by
    intro ip out done
    simp only [IPPrefix.encode, bind_eq_ok] at done
    obtain ⟨first, stored, used, -, copied⟩ := done
    rw [copyAt_length copied, storeAt_length stored, zeros_length]
  cases nlri with
  | ip ip => exact plain done
  | ext nlri =>
    have size := nlri.ipPrefix.len_toNat
    rw [NLRI.encode, ExtNLRI.encode, bind_eq_ok] at done
    obtain ⟨bytes, encoded, same⟩ := done
    cases same
    rw [length_append, uint32Bytes_length, plain encoded, NLRI.len, nlri.len_toNat]
    omega

/-- Prefixes that do not fit are noticed at the second one that starts past the buffer. -/
theorem encodeNLRIs_bound {idx : Nat} {result : Bytes × Nat}
    (done : encodeNLRIs afi pkt idx nlris = .ok result) :
    nlris = [] ∨ idx + nlriBytes nlris ≤ pkt.length + 36 := by
  induction nlris generalizing pkt idx with
  | nil => exact .inl rfl
  | cons nlri rest ih =>
    have small := nlri.len_le
    rw [encodeNLRIs, foldlM_cons] at done
    simp only [bind_eq_ok] at done
    obtain ⟨state, ⟨bytes, encoded, next, copied, same⟩, others⟩ := done
    cases same
    have size := NLRI.encode_length encoded
    have kept := copyAt_length copied
    have inside : idx ≤ pkt.length := by
      by_contra past
      rw [copyAt, if_neg past] at copied
      cases copied
    right
    rw [nlriBytes_cons]
    -- The next prefix starts where this one ends, in a buffer of the same size.
    rcases ih others with rfl | bound
    · rw [nlriBytes_nil]
      omega
    · omega

/-- The value of an MP_REACH_NLRI attribute on the wire. -/
def reachBody (afi : UInt16) (safi : UInt8) (nextHop : MPNextHop) (nlriList : List NLRI) : Bytes :=
  uint16Bytes afi ++ safi :: (nextHop.wire ++ 0 :: nlrisWire afi nlriList)

/-- The value of an MP_UNREACH_NLRI attribute on the wire. -/
def unreachBody (afi : UInt16) (safi : UInt8) (nlriList : List NLRI) : Bytes :=
  uint16Bytes afi ++ safi :: nlrisWire afi nlriList

/-- The attribute as its constructor and its setters make it. -/
def mpReach (afi : UInt16) (safi : UInt8) (nextHop : MPNextHop) (nlriList : List NLRI) :
    BGPPathAttrMPReachNLRI :=
  (newBGPPathAttrMPReachNLRI afi safi nextHop).setNLRIList nlriList

/-- The attribute as its constructor and calls of its setter make it. -/
def mpUnreach (afi : UInt16) (safi : UInt8) (nlriLists : List (List NLRI)) :
    BGPPathAttrMPUnreachNLRI :=
  nlriLists.foldl BGPPathAttrMPUnreachNLRI.addNLRIList (newBGPPathAttrMPUnreachNLRI afi safi)

theorem reachBody_length (sound : nextHop.Sound) (list : CanonicalList peerAttrs afi nlris) :
    (reachBody afi safi nextHop nlris).length = 4 + nextHop.len.toNat + nlriBytes nlris := by
  rw [reachBody, length_append, uint16Bytes_length, length_cons, length_append,
    sound.wire_length, length_cons, list.wire_length]
  omega

theorem unreachBody_length (list : CanonicalList peerAttrs afi nlris) :
    (unreachBody afi safi nlris).length = 3 + nlriBytes nlris := by
  rw [unreachBody, length_append, uint16Bytes_length, length_cons, list.wire_length]
  omega

theorem mpReach_base : (mpReach afi safi nextHop nlris).toBGPPathAttrBase =
      mpBase attrTypeMPReachNLRI (4 + nextHop.len.toNat + nlriBytes nlris) := by
  -- The lengths are added up in sixteen bits, as the header keeps them.
  have length : (4 : UInt16) + nextHop.len.toUInt16 + nlriListLen16 nlris =
      ofNat (4 + nextHop.len.toNat + nlriBytes nlris) := by
    apply UInt16.toNat_inj.mp
    rw [UInt16.toNat_add, UInt16.toNat_add, nlriListLen16_toNat, UInt16.toNat_ofNat',
      UInt8.toNat_toUInt16]
    simp only [reduceToNat]
    omega
  show BGPPathAttrBase.mk _ _ (4 + nextHop.len.toUInt16 + nlriListLen16 nlris) 4 = _
  rw [length]
  rfl

/-- Several calls add up to one with all their prefixes. -/
theorem mpUnreach_eq (nlriLists : List (List NLRI)) : mpUnreach afi safi nlriLists =
      { mpBase attrTypeMPUnreachNLRI (3 + nlriBytes nlriLists.flatten) with
        afi := afi, safi := safi, nlri := nlriLists.flatten } := by
  -- The lists before the last call are one list by then.
  have general : ∀ (nlriLists : List (List NLRI)) (done : List NLRI),
      nlriLists.foldl BGPPathAttrMPUnreachNLRI.addNLRIList
        { mpBase attrTypeMPUnreachNLRI (3 + nlriBytes done) with
          afi := afi, safi := safi, nlri := done } =
      { mpBase attrTypeMPUnreachNLRI (3 + nlriBytes (done ++ nlriLists.flatten)) with
        afi := afi, safi := safi, nlri := done ++ nlriLists.flatten } := by
    intro nlriLists
    induction nlriLists with
    | nil =>
      intro done
      rw [flatten_nil, append_nil]
      rfl
    | cons nlris rest ih =>
      intro done
      have length : ofNat (3 + nlriBytes done) + nlriListLen16 nlris =
          ofNat (3 + nlriBytes (done ++ nlris)) := by
        apply UInt16.toNat_inj.mp
        rw [UInt16.toNat_add, nlriListLen16_toNat, UInt16.toNat_ofNat', UInt16.toNat_ofNat',
          nlriBytes, nlriBytes, nlriBytes, map_append, sum_append]
        omega
      rw [foldl_cons, flatten_cons, ← append_assoc, ← ih _]
      congr 1
      show BGPPathAttrMPUnreachNLRI.mk ⟨_, _, ofNat (3 + nlriBytes done) +
        nlriListLen16 nlris, 4⟩ afi safi (done ++ nlris) = _
      rw [length]
      rfl
  exact general nlriLists []

/-- An attribute with a next hop is written as its header and its value. -/
theorem mpReach_encode (sound : nextHop.Sound) (list : CanonicalList peerAttrs afi nlris)
    (small : 4 + nextHop.len.toNat + nlriBytes nlris ≤ 65535) :
    (mpReach afi safi nextHop nlris).encode =
      .ok ((mpBase attrTypeMPReachNLRI (reachBody afi safi nextHop nlris).length).headerBytes ++
        reachBody afi safi nextHop nlris) := by
  have size := @reachBody_length afi safi nextHop nlris peerAttrs sound list
  have fits := (mpBase_length attrTypeMPReachNLRI _).trans
    (Nat.mod_eq_of_lt (Nat.lt_succ_of_le small))
  rw [BGPPathAttrMPReachNLRI.encode, BGPPathAttrMPReachNLRI.encodeHeld, mpReach_base, size]
  -- Each field is written behind the ones before it.
  exact BGPPathAttrBase.encode_fill (mpBase_headerExact _ _) ((storeAt_writes _).seq
    rfl ((storeAt_writes [safi]).seq rfl (sound.writes.seq sound.wire_length
      ((storeAt_writes [0]).seq rfl list.writes)))) (size.trans fits.symm)

/-- An attribute of withdrawn prefixes is written as its header and its value. -/
theorem mpUnreach_encode {nlriLists : List (List NLRI)}
    (list : CanonicalList peerAttrs afi nlriLists.flatten)
    (small : 3 + nlriBytes nlriLists.flatten ≤ 65535) :
    (mpUnreach afi safi nlriLists).encode = .ok ((mpBase attrTypeMPUnreachNLRI
        (unreachBody afi safi nlriLists.flatten).length).headerBytes ++
        unreachBody afi safi nlriLists.flatten) := by
  have size := @unreachBody_length afi safi nlriLists.flatten peerAttrs list
  have fits := (mpBase_length attrTypeMPUnreachNLRI _).trans
    (Nat.mod_eq_of_lt (Nat.lt_succ_of_le small))
  rw [mpUnreach_eq, BGPPathAttrMPUnreachNLRI.encode, size]
  exact BGPPathAttrBase.encode_fill (mpBase_headerExact _ _) ((storeAt_writes _).seq
    rfl ((storeAt_writes [safi]).seq rfl list.writes)) (size.trans fits.symm)

/-- A next hop is written into the buffer and never makes it longer. -/
theorem MPNextHop.encodeHeld_length {spare linkSpare out : Bytes} {position : Nat}
    (done : nextHop.encodeHeld spare linkSpare pkt position = .ok out) :
    out.length = pkt.length := by
  have plain : ∀ {length : UInt8} {value out : Bytes},
      encodeNextHopIP length value spare pkt position = .ok out → out.length = pkt.length := by
    intro length value out done
    rw [encodeNextHopIP, bind_eq_ok] at done
    obtain ⟨first, stored, done⟩ := done
    dsimp only at done
    split at done
    · cases done
    · simp only [bind_eq_ok] at done
      obtain ⟨last, _, copied⟩ := done
      rw [copyAt_length copied, storeAt_length stored]
  cases nextHop with
  | ip length value => exact plain done
  | ip6 length value linkLocal =>
    rw [MPNextHop.encodeHeld, bind_eq_ok] at done
    obtain ⟨first, stored, done⟩ := done
    cases linkLocal with
    | none =>
      cases done
      exact plain stored
    | some address =>
      obtain ⟨last, _, copied⟩ := bind_eq_ok.mp done
      rw [copyAt_length copied, plain stored]
  | unknown length value =>
    rw [MPNextHop.encodeHeld, bind_eq_ok] at done
    obtain ⟨first, stored, copied⟩ := done
    rw [copyAt_length copied, storeAt_length stored]

/-- An attribute that is too long for its length field cannot be written. -/
theorem mpReach_encode_fits {spare linkSpare : Bytes}
    (encoded : (mpReach afi safi nextHop nlris).encodeHeld spare linkSpare = .ok pkt) :
    4 + nextHop.len.toNat + nlriBytes nlris ≤ 65535 := by
  rw [BGPPathAttrMPReachNLRI.encodeHeld, mpReach_base, mpBase_encode, ok_bind] at encoded
  generalize total : 4 + nextHop.len.toNat + nlriBytes nlris = sum at encoded ⊢
  have four := mpBase_headerBytes_length attrTypeMPReachNLRI sum
  have byte := nextHop.len.toNat_lt
  simp only [bind_eq_ok] at encoded
  obtain ⟨first, stored, second, storedToo, third, hop, fourth, reserved, last, prefixes, _⟩ :=
    encoded
  -- The buffer has the size that the sixteen bits of the length say.
  have size : fourth.length = 4 + sum % 65536 := by
    rw [storeAt_length reserved, MPNextHop.encodeHeld_length hop, storeAt_length storedToo,
      storeAt_length stored, length_append, four, zeros_length]
  have bound := encodeNLRIs_bound prefixes
  rw [size] at bound
  rcases bound with rfl | bound
  · rw [nlriBytes_nil] at total
    omega
  · have late : 4 + 3 + nextHop.len.toNat + 1 + nlriBytes nlris ≤ 4 + sum % 65536 + 36 := bound
    omega

theorem mpUnreach_encode_fits {nlriLists : List (List NLRI)}
    (encoded : (mpUnreach afi safi nlriLists).encode = .ok pkt) :
    3 + nlriBytes nlriLists.flatten ≤ 65535 := by
  have four := mpBase_headerBytes_length attrTypeMPUnreachNLRI
    (3 + nlriBytes nlriLists.flatten)
  rw [mpUnreach_eq, BGPPathAttrMPUnreachNLRI.encode, mpBase_encode, ok_bind] at encoded
  simp only [bind_eq_ok] at encoded
  obtain ⟨first, stored, second, storedToo, last, prefixes, _⟩ := encoded
  have size : second.length = 4 + (3 + nlriBytes nlriLists.flatten) % 65536 := by
    rw [storeAt_length storedToo, storeAt_length stored, length_append, four, zeros_length]
  have bound := encodeNLRIs_bound prefixes
  rw [size] at bound
  rcases bound with empty | bound
  · rw [empty, nlriBytes_nil]
    decide
  · have late : 7 + nlriBytes nlriLists.flatten ≤
        4 + (3 + nlriBytes nlriLists.flatten) % 65536 + 36 := bound
    omega

/-- A value with a next hop is read field by field, and its prefixes come back. -/
theorem mpReach_decode (sound : nextHop.Sound) (list : CanonicalList peerAttrs afi nlris)
    (known : afi = afiIP ∨ afi = afiIP6)
    (small : 4 + nextHop.len.toNat + nlriBytes nlris ≤ 65535) {fuel : Nat}
    (enough : nlris.length < fuel) :
    ∃ value, BGPPathAttrMPReachNLRI.decode fuel
        ((mpBase attrTypeMPReachNLRI (reachBody afi safi nextHop nlris).length).headerBytes ++
          reachBody afi safi nextHop nlris) peerAttrs =
      .ok { mpBase attrTypeMPReachNLRI (4 + nextHop.len.toNat + nlriBytes nlris) with
        afi := afi, safi := safi, nextHop := .ip nextHop.length value, reserved := 0,
        nlri := nlris.map (NLRI.normal afi) } ∧
      ipString value = nextHop.addresses.1 := by
  have wire := sound.wire_length
  have length := @reachBody_length afi safi nextHop nlris peerAttrs sound list
  have header := @mpBase_decode _ (.inl rfl) (reachBody afi safi nextHop nlris)
  obtain ⟨value, hop, text⟩ := sound.decode known (0 :: nlrisWire afi nlris)
  refine ⟨value, ?_, text⟩
  rw [BGPPathAttrMPReachNLRI.decode, header, ok_bind, length]
  generalize total : 4 + nextHop.len.toNat + nlriBytes nlris = size at small ⊢
  have field := mpBase_length attrTypeMPReachNLRI size
  have opened : (mpBase attrTypeMPReachNLRI size).bgpPathAttrLen.toNat = 4 := rfl
  have body : Behind _ 4 (reachBody afi safi nextHop nlris) :=
    ⟨_, rfl, mpBase_headerBytes_length attrTypeMPReachNLRI size⟩
  generalize mpBase attrTypeMPReachNLRI size = base at *
  generalize base.headerBytes ++ reachBody afi safi nextHop nlris = pkt at *
  -- Each field is read from behind the ones before it.
  have family : (slice pkt 4 6 : Call Bytes) = _ := body.slice
  have second : Behind pkt 6 (safi :: _) := body.skip rfl
  have rest : Behind pkt 7 (nextHop.wire ++ _) := @Behind.skip _ _ _ [safi] 7 second rfl
  have reserved : Behind pkt (7 + nextHop.len.toNat) (0 :: _) := rest.skip (by rw [wire])
  have prefixes : Behind pkt (7 + nextHop.len.toNat + 1) (nlrisWire afi nlris) :=
    @Behind.skip _ _ _ [0] _ reserved rfl
  -- What the header announces, less the fields in front, is what the prefixes take up.
  have left : (base.length.toUInt32 - 4 - nextHop.len.toUInt32).toNat = nlriBytes nlris := by
    have byte := nextHop.len.toNat_lt
    rw [UInt32.toNat_sub, UInt32.toNat_sub, toNat_toUInt32, UInt8.toNat_toUInt32, field]
    simp only [UInt32.reduceToNat]
    omega
  have bounded : (nlrisWire afi nlris ++ []).length < 2 ^ 32 := by
    rw [append_nil, list.wire_length]
    omega
  have read := list.decode known left bounded enough
  rw [append_nil] at read
  have same : (MPNextHop.ip nextHop.length value).len = nextHop.len := rfl
  simp only [BGPPathAttrMPReachNLRI.decodeValue, opened, Nat.reduceAdd, family, ok_bind, uint16_all,
    second.index, rest.sliceFrom, hop, same, reserved.index, prefixes.sliceFrom, read, pure_eq]

/-- A value without a next hop is read the same way. -/
theorem mpUnreach_decode (list : CanonicalList peerAttrs afi nlris)
    (known : afi = afiIP ∨ afi = afiIP6) (small : 3 + nlriBytes nlris ≤ 65535) {fuel : Nat}
    (enough : nlris.length < fuel) :
    BGPPathAttrMPUnreachNLRI.decode fuel
        ((mpBase attrTypeMPUnreachNLRI (unreachBody afi safi nlris).length).headerBytes ++
          unreachBody afi safi nlris) peerAttrs =
      .ok { mpBase attrTypeMPUnreachNLRI (3 + nlriBytes nlris) with
        afi := afi, safi := safi, nlri := nlris.map (NLRI.normal afi) } := by
  have length := @unreachBody_length afi safi nlris peerAttrs list
  have header := @mpBase_decode _ (.inr rfl) (unreachBody afi safi nlris)
  rw [BGPPathAttrMPUnreachNLRI.decode, header, ok_bind, length]
  have field := mpBase_length attrTypeMPUnreachNLRI (3 + nlriBytes nlris)
  have opened : (mpBase attrTypeMPUnreachNLRI
      (3 + nlriBytes nlris)).bgpPathAttrLen.toNat = 4 := rfl
  have body : Behind _ 4 (unreachBody afi safi nlris) :=
    ⟨_, rfl, mpBase_headerBytes_length attrTypeMPUnreachNLRI (3 + nlriBytes nlris)⟩
  generalize mpBase attrTypeMPUnreachNLRI (3 + nlriBytes nlris) = base at *
  generalize base.headerBytes ++ unreachBody afi safi nlris = pkt at *
  have family : (slice pkt 4 6 : Call Bytes) = _ := body.slice
  have second : Behind pkt 6 (safi :: _) := body.skip rfl
  have rest : Behind pkt 7 (nlrisWire afi nlris) := @Behind.skip _ _ _ [safi] 7 second rfl
  have left : (base.length.toUInt32 - 3).toNat = nlriBytes nlris := by
    rw [UInt32.toNat_sub, toNat_toUInt32, field]
    simp only [UInt32.reduceToNat]
    omega
  have bounded : (nlrisWire afi nlris ++ []).length < 2 ^ 32 := by
    rw [append_nil, list.wire_length]
    omega
  have read := list.decode known left bounded enough
  rw [append_nil] at read
  simp only [BGPPathAttrMPUnreachNLRI.decodeValue, opened, Nat.reduceAdd, family, ok_bind,
    uint16_all, second.index, rest.sliceFrom, read, pure_eq]

end Attributes

section Capacities

variable {afi : UInt16} {safi : UInt8} {nextHop : MPNextHop} {peerAttrs : BGPPeerAttrs}
  {helds : List (NLRI × Bytes)}

/-- A prefix as encoders see it: with the memory behind the end of its address. -/
def inMemory (held : NLRI × Bytes) : NLRI := held.1.upToCapacity held.2

/-- The bytes that an encoder finds by the capacity are those of the address. -/
def InPlace (afi : UInt16) (held : NLRI × Bytes) : Prop :=
  let ip := (inMemory held).getIPPrefix
  ip.prefixIP.length - addressLen afi + ip.bytes.toNat ≤ 255 ∧
    (ip.ownBytes afi).take ip.bytes.toNat = (held.1.getIPPrefix.ownBytes afi).take ip.bytes.toNat

instance (afi : UInt16) (held : NLRI × Bytes) : Decidable (InPlace afi held) :=
  inferInstanceAs (Decidable (_ ∧ _))

theorem inMemory_nlriBytes : nlriBytes (helds.map inMemory) = nlriBytes (helds.map Prod.fst) := by
  have same (held : NLRI × Bytes) : (inMemory held).len = held.1.len := by
    rcases held with ⟨_ | _, _⟩ <;> rfl
  simp [nlriBytes, Function.comp_def, same]

theorem InPlace.encode {held : NLRI × Bytes} (inPlace : InPlace afi held)
    (canonical : held.1.Canonical afi) : (inMemory held).encode afi = held.1.encode afi := by
  have window {ip : IPPrefix} {spare : Bytes} (canonical : ip.Canonical afi)
      (bound : (ip.prefixIP ++ spare).length - addressLen afi + ip.bytes.toNat ≤ 255)
      (same : (IPPrefix.ownBytes ⟨ip.length, ip.prefixIP ++ spare⟩ afi).take ip.bytes.toNat =
        (ip.ownBytes afi).take ip.bytes.toNat) :
      IPPrefix.encode ⟨ip.length, ip.prefixIP ++ spare⟩ afi = ip.encode afi := by
    have own := canonical.ownBytes_length
    rw [IPPrefix.ownBytes, length_drop] at own
    have long : addressLen afi ≤ (ip.prefixIP ++ spare).length := by
      rw [length_append]
      omega
    rw [canonical.encode, @IPPrefix.encode_window ⟨ip.length, ip.prefixIP ++ spare⟩ afi long
      canonical.bytes_toNat.2 bound]
    exact congrArg (fun bytes => ok (ip.length :: bytes)) same
  obtain ⟨plain | extended, spare⟩ := held
  · exact window canonical inPlace.1 inPlace.2
  · exact congrArg (· >>= _) (window canonical inPlace.1 inPlace.2)

/-- Prefixes that are in place are written as if their addresses ended at their capacities. -/
theorem encodeNLRIs_inPlace (inPlace : ∀ held ∈ helds, InPlace afi held)
    (list : CanonicalList peerAttrs afi (helds.map Prod.fst)) (pkt : Bytes) (idx : Nat) :
    encodeNLRIs afi pkt idx (helds.map inMemory) =
      encodeNLRIs afi pkt idx (helds.map Prod.fst) := by
  induction helds generalizing pkt idx with
  | nil => rfl
  | cons held helds ih =>
    rw [forall_mem_cons] at inPlace
    have first := inPlace.1.encode (list.canonical held.1 mem_cons_self)
    have rest := ih inPlace.2 list.tail
    simp only [encodeNLRIs] at rest ⊢
    simp only [map_cons, foldlM_cons, first, rest]

theorem mpReach_inPlace (inPlace : ∀ held ∈ helds, InPlace afi held)
    (list : CanonicalList peerAttrs afi (helds.map Prod.fst)) :
    (mpReach afi safi nextHop (helds.map inMemory)).encode =
      (mpReach afi safi nextHop (helds.map Prod.fst)).encode := by
  have written := encodeNLRIs_inPlace inPlace list
  simp only [BGPPathAttrMPReachNLRI.encode, BGPPathAttrMPReachNLRI.encodeHeld, mpReach_base,
    inMemory_nlriBytes]
  simp only [mpReach, newBGPPathAttrMPReachNLRI, BGPPathAttrMPReachNLRI.setNLRIList, written]

end Capacities

section RoundTrip

variable {afi : UInt16} {safi : UInt8} {nextHop : MPNextHop} {helds : List (NLRI × Bytes)}
  {heldLists : List (List (NLRI × Bytes))} {peerAttrs : BGPPeerAttrs}

/-- What is written of the attribute is read back, with the same addresses and prefixes. -/
def MPReachRoundTrips (peerAttrs : BGPPeerAttrs) (afi : UInt16) (safi : UInt8)
    (nextHop : MPNextHop) (spare linkSpare : Bytes) (helds : List (NLRI × Bytes)) : Prop :=
  ∃ pkt fuel read,
    (mpReach afi safi nextHop (helds.map inMemory)).encodeHeld spare linkSpare = .ok pkt ∧
    BGPPathAttrMPReachNLRI.decode fuel pkt peerAttrs = .ok read ∧
    read.afi = afi ∧ read.safi = safi ∧ read.nextHop.addresses = nextHop.addresses ∧
    read.nlri.map NLRI.listed = (helds.map Prod.fst).map NLRI.listed

/-- What is written of the attribute is read back, with the same prefixes. -/
def MPUnreachRoundTrips (peerAttrs : BGPPeerAttrs) (afi : UInt16) (safi : UInt8)
    (heldLists : List (List (NLRI × Bytes))) : Prop :=
  ∃ pkt fuel read, (mpUnreach afi safi (heldLists.map (map inMemory))).encode = .ok pkt ∧
    BGPPathAttrMPUnreachNLRI.decode fuel pkt peerAttrs = .ok read ∧
    read.afi = afi ∧ read.safi = safi ∧
    read.nlri.map NLRI.listed = (heldLists.flatten.map Prod.fst).map NLRI.listed

/-- The next hop of a decoded attribute has no link-local address. -/
theorem mpReach_read_addresses {fuel : Nat} {read : BGPPathAttrMPReachNLRI}
    (decoded : BGPPathAttrMPReachNLRI.decode fuel pkt peerAttrs = .ok read) :
    read.nextHop.addresses.2 = none := by
  rw [BGPPathAttrMPReachNLRI.decode, bind_eq_ok] at decoded
  obtain ⟨base, _, decoded⟩ := decoded
  simp only [BGPPathAttrMPReachNLRI.decodeValue, bind_eq_ok] at decoded
  obtain ⟨_, _, _, _, _, _, _, _, hop, decodedHop, decoded⟩ := decoded
  obtain ⟨_, _, _, _, _, _, same⟩ := decoded
  cases same
  exact MPNextHop.decode_addresses decodedHop

/-- A link-local address, and only that, stands beside the global one. -/
theorem MPNextHop.addresses_linkLocal (nextHop : MPNextHop) :
    nextHop.addresses.2.isSome = nextHop.hasLinkLocal := by
  cases nextHop <;> simp [MPNextHop.addresses, MPNextHop.hasLinkLocal]

/-- Only a next hop that fits and has no link-local address is read back. -/
theorem MPReachRoundTrips.fits {spare linkSpare : Bytes}
    (back : MPReachRoundTrips peerAttrs afi safi nextHop spare linkSpare helds) :
    nextHop.hasLinkLocal = false ∧
      4 + nextHop.len.toNat + nlriBytes (helds.map Prod.fst) ≤ 65535 := by
  obtain ⟨pkt, fuel, read, encoded, decoded, _, _, addresses, _⟩ := back
  rw [← inMemory_nlriBytes]
  refine ⟨?_, mpReach_encode_fits encoded⟩
  have gone := mpReach_read_addresses decoded
  rw [addresses] at gone
  rw [← nextHop.addresses_linkLocal]
  exact congrArg Option.isSome gone

/-- With addresses in their places nothing else is lost. -/
theorem mpReach_round_trips (built : BuiltNextHop nextHop)
    (list : CanonicalList peerAttrs afi (helds.map Prod.fst)) (known : afi = afiIP ∨ afi = afiIP6)
    (inPlace : ∀ held ∈ helds, InPlace afi held) (noLinkLocal : nextHop.hasLinkLocal = false)
    (small : 4 + nextHop.len.toNat + nlriBytes (helds.map Prod.fst) ≤ 65535) (linkSpare : Bytes) :
    MPReachRoundTrips peerAttrs afi safi nextHop [] linkSpare helds := by
  have sound := built.sound
  obtain ⟨value, decoded, text⟩ := @mpReach_decode afi safi nextHop _ peerAttrs sound list
    known small _ (Nat.lt_succ_self _)
  have unused : nextHop.encodeHeld [] linkSpare = nextHop.encodeHeld [] [] := by
    rcases nextHop with _ | ⟨_, _, _ | _⟩ | _
    · rfl
    · rfl
    · cases noLinkLocal
    · rfl
  have encoded : (mpReach afi safi nextHop (helds.map inMemory)).encodeHeld [] linkSpare =
      (mpReach afi safi nextHop (helds.map inMemory)).encode := by
    simp only [BGPPathAttrMPReachNLRI.encode, BGPPathAttrMPReachNLRI.encodeHeld, mpReach,
      newBGPPathAttrMPReachNLRI, BGPPathAttrMPReachNLRI.setNLRIList, unused]
  refine ⟨_, _, _, encoded.trans ((mpReach_inPlace inPlace list).trans
    (mpReach_encode sound list small)), decoded, rfl, rfl, ?_, list.normal_listed⟩
  rw [← nextHop.addresses_linkLocal, Option.isSome_eq_false_iff, Option.isNone_iff_eq_none]
    at noLinkLocal
  exact Prod.ext text noLinkLocal.symm

theorem MPUnreachRoundTrips.fits (back : MPUnreachRoundTrips peerAttrs afi safi heldLists) :
    3 + nlriBytes (heldLists.flatten.map Prod.fst) ≤ 65535 := by
  obtain ⟨pkt, fuel, read, encoded, _⟩ := back
  have fits := mpUnreach_encode_fits encoded
  rwa [← map_flatten, inMemory_nlriBytes] at fits

/-- Without a next hop, nothing is lost of prefixes in their places that the length field has room for. -/
theorem mpUnreach_round_trips (list : CanonicalList peerAttrs afi (heldLists.flatten.map Prod.fst))
    (known : afi = afiIP ∨ afi = afiIP6) (inPlace : ∀ held ∈ heldLists.flatten, InPlace afi held)
    (small : 3 + nlriBytes (heldLists.flatten.map Prod.fst) ≤ 65535) :
    MPUnreachRoundTrips peerAttrs afi safi heldLists := by
  have decoded := @mpUnreach_decode afi safi _ peerAttrs list known small _ (Nat.lt_succ_self _)
  refine ⟨_, _, _, ?_, decoded, rfl, rfl, list.normal_listed⟩
  have plain := @mpUnreach_encode afi safi peerAttrs [heldLists.flatten.map Prod.fst]
    (by simpa using list) (by simpa using small)
  simp only [mpUnreach_eq, BGPPathAttrMPUnreachNLRI.encode, ← map_flatten, inMemory_nlriBytes,
    encodeNLRIs_inPlace inPlace list] at plain ⊢
  simpa using plain

/-- The prefixes 2001:db8::/32, whose slice ends at its capacity, and ::/0, which has more memory. -/
def heldPrefixes : List (NLRI × Bytes) :=
  [(.ip ⟨32, [0x20, 1, 0xd, 0xb8, 0, 0, 0, 0, 0, 0, 0, 0, 0, 0, 0, 0]⟩, []),
    (.ip ⟨0, zeros 16⟩, [1, 2, 3, 4])]

/-- A global and a link-local address, as the two setters put them in. -/
def dualNextHop : MPNextHop :=
  .ip6 32 [0x20, 1, 0xd, 0xb8, 0, 0, 0, 0, 0, 0, 0, 0, 0, 0, 0, 1]
    (some [0xfe, 0x80, 0, 0, 0, 0, 0, 0, 0, 0, 0, 0, 0, 0, 0, 1])

theorem dualNextHop_built : BuiltNextHop dualNextHop := by
  have first : MPNextHopIP6.Built ⟨16, _, none⟩ :=
    @MPNextHopIP6.Built.setGlobal _ _ [0x20, 1, 0xd, 0xb8, 0, 0, 0, 0, 0, 0, 0, 0, 0, 0, 0, 1]
      .new rfl
  have second : MPNextHopIP6.Built ⟨32, _, some _⟩ :=
    @MPNextHopIP6.Built.setLinkLocal _ _ [0xfe, 0x80, 0, 0, 0, 0, 0, 0, 0, 0, 0, 0, 0, 0, 0, 1]
      first rfl
  exact .ip6 second (by decide)

end RoundTrip

end FlexSwitch.Packet
