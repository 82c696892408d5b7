import FlexSwitch.Rib.Path

/-! The keys under which the route tables store IPv4 networks. -/

namespace FlexSwitch.NetUtils

open Go List Outcome
open Rib (v4InV6Prefix)

/-- Errors are told apart by their text. -/
abbrev Try := Outcome String

/-- `IsZeros`. -/
def isZeros (p : Bytes) : Bool := p.all (· == 0)

/-- `IsIPv4Mask`, which slices the mask without a look at its length. -/
def isIPv4Mask (mask : Bytes) : Try Bool := do
  if !isZeros (← slice mask 0 10) then return false
  if (← index mask 10) ≠ 0xff then return false
  return (← index mask 11) == 0xff

/-- `net.ParseIP`, which gives both kinds of address sixteen bytes. -/
def parseIP (text : Rib.IPText) : Option Bytes :=
  if text.length = 4 then some (v4InV6Prefix ++ text)
  else if text.length = 16 then some text
  else none

/-- `GetIP`, and the `getIP` of ribd. -/
def getIP (ipAddr : Rib.IPText) : Try Bytes :=
  match parseIP ipAddr with
  | none => .error "Invalid destination network IP Address"
  | some ip => .ok ip

/-- `IsZerosIPString`, which leaves the last byte of an IPv4 address out. -/
def isZerosIPString (ipAddr : Rib.IPText) : Try Bool := do
  let ip ← (getIP ipAddr).withError "Invalid IP address"
  if ← isIPv4Mask ip then return isZeros (← slice ip 12 15)
  else return isZeros ip

/-- The ones a byte starts with, unless a one follows a zero. -/
def leadingOnes : Nat → UInt8 → Option Nat
  | 0, _ => some 0
  | bits + 1, byte =>
    -- A byte is looked at bit by bit, the highest one first.
    if byte &&& 0x80 ≠ 0 then (leadingOnes bits (byte <<< 1)).map (· + 1)
    else if byte = 0 then some 0 else none

/-- The ones a mask starts with, unless a one follows a zero. -/
def simpleMaskLength : Bytes → Option Nat
  | [] => some 0
  | byte :: rest =>
    if byte = 0xff then (simpleMaskLength rest).map (· + 8)
    -- The first byte with a zero ends the ones, and the rest has to be zero.
    else match leadingOnes 8 byte with
      | some ones => if isZeros rest then some ones else none
      | none => none

/-- The first result of `net.IPMask.Size`, zero for a mask that is not contiguous. -/
def maskSize (mask : Bytes) : Nat := (simpleMaskLength mask).getD 0

/-- `net.IP.Mask`, where the result is nil when the lengths do not fit. -/
def applyMask (ip mask : Bytes) : Option Bytes :=
  let mask :=
    if mask.length = 16 ∧ ip.length = 4 ∧ (mask.take 12).all (· == 0xff) then mask.drop 12 else mask
  let ip :=
    if mask.length = 4 ∧ ip.length = 16 ∧ ip.take 12 = v4InV6Prefix then ip.drop 12 else ip
  if ip.length = mask.length then some (List.zipWith (· &&& ·) ip mask) else none

/-- `GetPrefixLen` and ribd's `getPrefixLen`. -/
def getPrefixLen (networkMask : Bytes) : Try Nat := do
  if ← isIPv4Mask networkMask then return maskSize (← slice networkMask 12 16)
  else return maskSize networkMask

section

variable (destNetIp networkMask : Bytes)

/-- The address under the mask, of which an IPv4 one is cut out first. -/
def maskedAddress : Try Bytes := do
  let mask ← if ← isIPv4Mask networkMask then slice networkMask 12 16 else .ok networkMask
  match applyMask destNetIp mask with
  | some netIp => return netIp
  | none => .error "netIp nil"

/-- The bytes that a prefix length reaches into. -/
def numBytes (prefixLen : Nat) : Nat :=
  if prefixLen % 8 ≠ 0 then prefixLen / 8 + 1 else prefixLen / 8

/-- The first bytes of an address, filled up with zeros. -/
def keyBytes (numbytes : Nat) (netIp : Bytes) : Bytes :=
  netIp.take numbytes ++ zeros (numbytes - netIp.length)

/-- `GetNetworkPrefix`. -/
def getNetworkPrefix : Try Bytes := do
  let prefixLen ← getPrefixLen networkMask
  let netIp ← maskedAddress destNetIp networkMask
  return keyBytes (numBytes prefixLen) netIp

/-- A network as text: its address, where nil has a text too, and its length. -/
structure NetworkText where
  address : Option Bytes
  prefixLen : Nat
deriving DecidableEq, Repr

/-- The `getNetworkPrefix` of ribd, which gives the text of the network too. -/
def getNetworkPrefixAndText : Try (Bytes × NetworkText) := do
  let prefixLen ← getPrefixLen networkMask
  let netIp ← maskedAddress destNetIp networkMask
  return (keyBytes (numBytes prefixLen) netIp,
    ⟨(applyMask destNetIp networkMask).map Rib.ipString, prefixLen⟩)

/-- A byte of a mask that has some ones left. -/
def maskByte (ones : Nat) : UInt8 :=
  if ones = 0 then 0 else if 8 ≤ ones then 0xff else 0xff <<< UInt8.ofNat (8 - ones)

/-- A contiguous mask of some bytes. -/
def contiguousMask : Nat → Nat → Bytes
  | 0, _ => []
  | size + 1, ones => maskByte ones :: contiguousMask size (ones - 8)

/-- An IPv4 network: an address of four bytes, and the ones of its mask. -/
structure IPv4Network where
  address : Bytes
  prefixLen : Nat
  sized : address.length = 4
  fits : prefixLen ≤ 32

end

namespace IPv4Network

/-- The mask of the network. -/
def mask (network : IPv4Network) : Bytes := contiguousMask 4 network.prefixLen

/-- The address of the network under its mask. -/
def masked (network : IPv4Network) : Bytes :=
  List.zipWith (· &&& ·) network.address network.mask

/-- The address as `net.ParseIP` gives it, or cut to its four bytes. -/
def IsAddress (network : IPv4Network) (ip : Bytes) : Prop :=
  ip = v4InV6Prefix ++ network.address ∨ ip = network.address

/-- The mask as `net.ParseIP` gives it. -/
def parsedMask (network : IPv4Network) : Bytes := v4InV6Prefix ++ network.mask

end IPv4Network

variable {ip : Bytes}

theorem parseIP_length {text : Rib.IPText} (parsed : parseIP text = some ip) : ip.length = 16 := by
  unfold parseIP at parsed
  split at parsed
  · cases parsed
    simp [v4InV6Prefix, *]
  · split at parsed
    · cases parsed
      assumption
    · cases parsed

theorem isIPv4Mask_returns (sized : ip.length = 16) : (isIPv4Mask ip).Returns := by
  have ten := @index_of_lt String ip 10 (by omega)
  have eleven := @index_of_lt String ip 11 (by omega)
  simp only [isIPv4Mask, slice, sized, ten, eleven, ok_bind]
  -- Whatever the bytes are, one of three answers is given.
  cases zero : isZeros (ip.take 10) with
  | true => by_cases ones : ip[10] = 0xff <;> simp [zero, ones]
  | false => simp [zero]

theorem getIP_cases (ipAddr : Rib.IPText) :
    (∃ err, getIP ipAddr = .error err) ∨ ∃ ip, ip.length = 16 ∧ getIP ipAddr = .ok ip := by
  cases parsed : parseIP ipAddr with
  | none => exact .inl ⟨_, by rw [getIP, parsed]⟩
  | some ip => exact .inr ⟨ip, parseIP_length parsed, by rw [getIP, parsed]⟩

theorem isZerosIPString_returns (ipAddr : Rib.IPText) : (isZerosIPString ipAddr).Returns := by
  rcases getIP_cases ipAddr with ⟨err, invalid⟩ | ⟨ip, sized, valid⟩
  · simp [isZerosIPString, invalid, withError]
  · simp only [isZerosIPString, valid, ok_withError, ok_bind]
    rw [bind_returns]
    refine ⟨isIPv4Mask_returns sized, ?_⟩
    intro v4 _
    cases v4 <;> simp [slice, sized]

/-- The key of a network is computed, or the address does not go with the mask. -/
theorem getNetworkPrefix_returns (destNetIp : Bytes) {networkMask : Bytes}
    (sized : networkMask.length = 16) : (getNetworkPrefix destNetIp networkMask).Returns := by
  have checked := isIPv4Mask_returns sized
  have cut : (slice networkMask 12 16 : Try Bytes) = .ok ((networkMask.drop 12).take (16 - 12)) := by
    rw [slice, if_pos (by omega)]
  have length : (getPrefixLen networkMask).Returns := by
    rw [getPrefixLen, bind_returns]
    refine ⟨checked, fun v4 _ => ?_⟩
    cases v4 <;> simp [cut]
  have masked : (maskedAddress destNetIp networkMask).Returns := by
    rw [maskedAddress, bind_returns]
    refine ⟨checked, fun v4 _ => ?_⟩
    cases v4 with
    | true =>
      simp only [cut, if_true, ok_bind]
      cases applyMask destNetIp _ <;> simp
    | false =>
      simp only [Bool.false_eq_true, if_false, ok_bind]
      cases applyMask destNetIp networkMask <;> simp
  rw [getNetworkPrefix, bind_returns]
  refine ⟨length, fun prefixLen _ => ?_⟩
  rw [bind_returns]
  exact ⟨masked, fun netIp _ => trivial⟩

theorem contiguousMask_length (size ones : Nat) : (contiguousMask size ones).length = size := by
  -- Every step of the recursion adds one byte.
  induction size generalizing ones with
  | zero => rfl
  | succ size ih => simp [contiguousMask, ih]

theorem maskSize_contiguousMask {ones : Nat} (fits : ones ≤ 32) :
    maskSize (contiguousMask 4 ones) = ones := by
  -- There are thirty-three masks of an IPv4 address.
  have all : ∀ count : Fin 33, maskSize (contiguousMask 4 count) = count := by decide
  exact all ⟨ones, Nat.lt_succ_of_le fits⟩

/-- Behind the bytes that the ones reach into the mask is zero. -/
theorem contiguousMask_drop {ones : Nat} (fits : ones ≤ 32) :
    (contiguousMask 4 ones).drop (numBytes ones) = zeros (4 - numBytes ones) := by
  have all : ∀ count : Fin 33,
      (contiguousMask 4 count).drop (numBytes count) = zeros (4 - numBytes count) := by decide
  exact all ⟨ones, Nat.lt_succ_of_le fits⟩

/-- The mask of an IPv4 network is seen as one, and its four bytes are cut out. -/
theorem isIPv4Mask_parsed (mask : Bytes) (sized : mask.length = 4) :
    isIPv4Mask (v4InV6Prefix ++ mask) = .ok true ∧
      (slice (v4InV6Prefix ++ mask) 12 16 : Try Bytes) = .ok mask := by
  -- The twelve bytes in front are the same for every mask.
  match mask, sized with
  | [_, _, _, _], _ => exact ⟨rfl, rfl⟩

namespace IPv4Network

variable (network : IPv4Network)

theorem mask_length : network.mask.length = 4 := contiguousMask_length 4 _

theorem masked_length : network.masked.length = 4 := by
  -- The address and the mask have four bytes each.
  rw [masked, length_zipWith, network.sized, network.mask_length]
  rfl

theorem numBytes_le : numBytes network.prefixLen ≤ 4 := by
  have fits := network.fits
  unfold numBytes
  split <;> omega

theorem zipWith_and_zeros (left : Bytes) (size : Nat) (sized : left.length = size) :
    zipWith (· &&& ·) left (zeros size) = zeros size := by
  -- Both lists are walked together, one zero for each byte.
  induction left generalizing size with
  | nil =>
    subst sized
    rfl
  | cons byte rest ih =>
    subst sized
    have later := ih rest.length rfl
    simp only [zeros, length_cons, replicate_succ, zipWith_cons_cons] at later ⊢
    rw [later]
    simp

/-- Behind the bytes that the mask reaches into the masked address is zero. -/
theorem masked_eq : network.masked = keyBytes (numBytes network.prefixLen) network.masked ++
      zeros (4 - numBytes network.prefixLen) := by
  have within := network.numBytes_le
  have short : numBytes network.prefixLen - network.masked.length = 0 := by
    rw [network.masked_length]
    omega
  -- The bytes that are cut off are those the mask has set to zero.
  have rest : network.masked.drop (numBytes network.prefixLen) =
      zeros (4 - numBytes network.prefixLen) := by
    rw [masked, drop_zipWith, mask, contiguousMask_drop network.fits]
    refine zipWith_and_zeros _ _ ?_
    rw [length_drop, network.sized]
  rw [keyBytes, short]
  simp only [zeros, replicate_zero, append_nil] at rest ⊢
  rw [← rest, take_append_drop]

variable {network}

/-- Either form of the address gives the masked one. -/
theorem maskedAddress_eq (isAddress : network.IsAddress ip) :
    maskedAddress ip network.parsedMask = .ok network.masked := by
  obtain ⟨isMask, sliced⟩ := isIPv4Mask_parsed network.mask network.mask_length
  have applied : applyMask ip network.mask = some network.masked := by
    have sizes := network.mask_length
    have address := network.sized
    -- The form with sixteen bytes is cut to its last four.
    rcases isAddress with rfl | rfl
    · have cut : (v4InV6Prefix ++ network.address).drop 12 = network.address := rfl
      have front : (v4InV6Prefix ++ network.address).take 12 = v4InV6Prefix := rfl
      have long : (v4InV6Prefix ++ network.address).length = 16 := by
        rw [length_append, address]
        rfl
      simp [applyMask, sizes, long, cut, front, address, masked]
    · simp [applyMask, sizes, address, masked]
  unfold maskedAddress parsedMask
  rw [isMask, ok_bind, if_pos rfl, sliced, ok_bind]
  dsimp only
  rw [applied]
  rfl

theorem getPrefixLen_eq : getPrefixLen network.parsedMask = .ok network.prefixLen := by
  obtain ⟨isMask, sliced⟩ := isIPv4Mask_parsed network.mask network.mask_length
  unfold getPrefixLen parsedMask
  rw [isMask, ok_bind, if_pos rfl, sliced, ok_bind, mask, maskSize_contiguousMask network.fits]
  rfl

theorem getNetworkPrefix_eq (isAddress : network.IsAddress ip) :
    getNetworkPrefix ip network.parsedMask =
      .ok (keyBytes (numBytes network.prefixLen) network.masked) := by
  unfold getNetworkPrefix
  rw [getPrefixLen_eq, ok_bind, maskedAddress_eq isAddress]
  rfl

theorem getNetworkPrefixAndText_eq (isAddress : network.IsAddress ip) :
    ∃ text, getNetworkPrefixAndText ip network.parsedMask =
      .ok (keyBytes (numBytes network.prefixLen) network.masked, text) := by
  unfold getNetworkPrefixAndText
  rw [getPrefixLen_eq, ok_bind, maskedAddress_eq isAddress]
  exact ⟨_, rfl⟩

end IPv4Network

/-- The key tells how many bytes it has, and the masked address with that. -/
theorem keyBytes_eq_iff (left right : IPv4Network) :
    keyBytes (numBytes left.prefixLen) left.masked =
        keyBytes (numBytes right.prefixLen) right.masked ↔
      left.masked = right.masked ∧ numBytes left.prefixLen = numBytes right.prefixLen := by
  have sized : ∀ network : IPv4Network,
      (keyBytes (numBytes network.prefixLen) network.masked).length =
        numBytes network.prefixLen := by
    intro network
    have within := network.numBytes_le
    simp only [keyBytes, length_append, length_take, zeros_length, network.masked_length]
    omega
  constructor
  · intro same
    have counts : numBytes left.prefixLen = numBytes right.prefixLen := by
      rw [← sized left, ← sized right, same]
    -- The rest of each address is made of zeros.
    refine ⟨?_, counts⟩
    rw [left.masked_eq, right.masked_eq, same, counts]
  · rintro ⟨addresses, counts⟩
    rw [addresses, counts]

/--
Two networks have different keys exactly when their masked addresses differ, or when their masks
reach into different numbers of bytes.
-/
theorem network_keys_differ_iff (left right : IPv4Network) (leftIp rightIp : Bytes)
    (isLeft : left.IsAddress leftIp) (isRight : right.IsAddress rightIp) :
    ((∃ leftKey rightKey, getNetworkPrefix leftIp left.parsedMask = .ok leftKey ∧
          getNetworkPrefix rightIp right.parsedMask = .ok rightKey ∧ leftKey ≠ rightKey) ↔
        left.masked ≠ right.masked ∨ numBytes left.prefixLen ≠ numBytes right.prefixLen) ∧
      ((∃ leftKey leftText rightKey rightText,
          getNetworkPrefixAndText leftIp left.parsedMask = .ok (leftKey, leftText) ∧
          getNetworkPrefixAndText rightIp right.parsedMask = .ok (rightKey, rightText) ∧
          leftKey ≠ rightKey) ↔
        left.masked ≠ right.masked ∨ numBytes left.prefixLen ≠ numBytes right.prefixLen) := by
  have keys := keyBytes_eq_iff left right
  have differ : keyBytes (numBytes left.prefixLen) left.masked ≠
        keyBytes (numBytes right.prefixLen) right.masked ↔
      left.masked ≠ right.masked ∨ numBytes left.prefixLen ≠ numBytes right.prefixLen := by
    rw [ne_eq, keys, not_and_or]
  obtain ⟨leftText, leftRun⟩ := IPv4Network.getNetworkPrefixAndText_eq isLeft
  obtain ⟨rightText, rightRun⟩ := IPv4Network.getNetworkPrefixAndText_eq isRight
  -- Both functions return the same key, so what is known of the keys settles both.
  rw [IPv4Network.getNetworkPrefix_eq isLeft, IPv4Network.getNetworkPrefix_eq isRight, leftRun,
    rightRun, ← differ]
  constructor
  · constructor
    · rintro ⟨_, _, ⟨⟩, ⟨⟩, unlike⟩
      exact unlike
    · exact fun unlike => ⟨_, _, rfl, rfl, unlike⟩
  · constructor
    · rintro ⟨_, _, _, _, ⟨⟩, ⟨⟩, unlike⟩
      exact unlike
    · exact fun unlike => ⟨_, _, _, _, rfl, rfl, unlike⟩

/-- 10.0.0.0 with a mask of some ones. -/
def tenNetwork (prefixLen : Nat) (fits : prefixLen ≤ 32) : IPv4Network :=
  ⟨[10, 0, 0, 0], prefixLen, rfl, fits⟩

/-- 10.0.0.0/8 and 10.0.0.0/9 have different keys. -/
theorem network_keys_differ_eight_nine : ∃ leftKey rightKey,
      getNetworkPrefix [10, 0, 0, 0] (tenNetwork 8 (by decide)).parsedMask = .ok leftKey ∧
      getNetworkPrefix [10, 0, 0, 0] (tenNetwork 9 (by decide)).parsedMask = .ok rightKey ∧
      leftKey ≠ rightKey :=
  (network_keys_differ_iff (tenNetwork 8 (by decide)) (tenNetwork 9 (by decide)) [10, 0, 0, 0]
    [10, 0, 0, 0] (.inr rfl) (.inr rfl)).1.mpr (.inr (by decide))

/-- 10.0.0.0/9 and 10.0.0.0/16 share one key in both tables. -/
theorem nine_and_sixteen_share_key :
    (tenNetwork 9 (by decide)).prefixLen ≠ (tenNetwork 16 (by decide)).prefixLen ∧
      getNetworkPrefix (v4InV6Prefix ++ [10, 0, 0, 0]) (v4InV6Prefix ++ [255, 128, 0, 0]) =
        .ok [10, 0] ∧
      getNetworkPrefix (v4InV6Prefix ++ [10, 0, 0, 0]) (v4InV6Prefix ++ [255, 255, 0, 0]) =
        .ok [10, 0] ∧
      (∃ text, getNetworkPrefixAndText (v4InV6Prefix ++ [10, 0, 0, 0])
        (v4InV6Prefix ++ [255, 128, 0, 0]) = .ok ([10, 0], text)) ∧
      ∃ text, getNetworkPrefixAndText (v4InV6Prefix ++ [10, 0, 0, 0])
        (v4InV6Prefix ++ [255, 255, 0, 0]) = .ok ([10, 0], text) :=
  ⟨by decide, rfl, rfl, ⟨_, rfl⟩, ⟨_, rfl⟩⟩

end FlexSwitch.NetUtils
