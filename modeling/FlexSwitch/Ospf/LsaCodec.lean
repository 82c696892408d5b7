import FlexSwitch.Go.Bytes
import FlexSwitch.Ospf.Lsa

/-! Link state advertisements on the wire, and that those without TOS metrics are read back. -/

namespace FlexSwitch.Ospf

open Go Outcome List

variable {ι : Type}

/-- A buffer of `size` bytes, into which the bytes are stored from its start on. -/
def fill (size : Nat) (bytes : Bytes) : Outcome Unit Bytes :=
  if bytes.length ≤ size then .ok (bytes ++ zeros (size - bytes.length)) else .panic

/-- A loop that writes `items[i]` for each `i` below a count, one behind the other. -/
def writeEach (write : ι → Outcome Unit Bytes) : Nat → List ι → Outcome Unit Bytes
  | 0, _ => .ok []
  | _ + 1, [] => .panic
  | count + 1, item :: items => do return (← write item) ++ (← writeEach write count items)

/-- A loop that reads a count of items, where `rest` is `data[start:]`. -/
def readEach (read : Nat → Bytes → Outcome Unit ι) (size : ι → Nat) :
    Nat → Nat → Bytes → Outcome Unit (List ι)
  | 0, _, _ => .ok []
  | count + 1, start, rest => do
    let item ← read start rest
    return item :: (← readEach read size count (start + size item) (rest.drop (size item)))

/-- `make` with a length, which must not be negative. -/
def makeLen (length : Int) : Outcome Unit Nat := if length < 0 then .panic else .ok length.toNat

/-- The checksum is left zero. -/
def encodeLsaHeader (lsaMd : LsaMetadata) (lsaKey : LsaKey) : Bytes :=
  uint16Bytes lsaMd.lsAge ++ [lsaMd.options, lsaKey.lsType] ++ uint32Bytes lsaKey.lsId ++
    uint32Bytes lsaKey.advRouter ++ uint32Bytes (UInt32.ofInt lsaMd.lsSequenceNum) ++ [0, 0] ++
    uint16Bytes lsaMd.lsLen

section

variable (data : Bytes)

/-- What the decoders of all types read first. -/
def decodeMetadata : Outcome Unit (LsaKey × LsaMetadata) := do
  let lsAge ← uint16 (← slice data 0 2)
  let options ← index data 2
  let lsType ← index data 3
  let lsId ← uint32 (← slice data 4 8)
  let advRouter ← uint32 (← slice data 8 12)
  let lsSequenceNum ← uint32 (← slice data 12 16)
  let lsChecksum ← uint16 (← slice data 16 18)
  let lsLen ← uint16 (← slice data 18 20)
  return (⟨lsType, lsId, advRouter⟩, ⟨lsAge, options, lsSequenceNum.toNat, lsChecksum, lsLen⟩)

/-- The TOS is taken from the position instead of the byte at it. -/
def decodeTOSDetail (start : Nat) (rest : Bytes) : Outcome Unit TOSDetail := do
  return ⟨UInt8.ofNat start, ← uint16 (← slice rest 2 4)⟩

def decodeLinkDetail (start : Nat) (rest : Bytes) : Outcome Unit LinkDetail := do
  let linkId ← uint32 (← slice rest 0 4)
  let linkData ← uint32 (← slice rest 4 8)
  let linkType ← index rest 8
  let numOfTOS ← index rest 9
  let linkMetric ← uint16 (← slice rest 10 12)
  let tosDetails ← readEach decodeTOSDetail (fun _ => 4) numOfTOS.toNat (start + 12) (rest.drop 12)
  return ⟨linkId, linkData, linkType, numOfTOS, linkMetric, tosDetails⟩

def decodeRouterLsa : Outcome Unit (LsaKey × RouterLsa) := do
  let (lsaKey, lsaMd) ← decodeMetadata data
  let bits ← index data 20
  let numOfLinks ← uint16 (← slice data 22 24)
  let linkDetails ← readEach decodeLinkDetail (fun link => 12 + 4 * link.numOfTOS.toNat)
    numOfLinks.toNat 24 (data.drop 24)
  return (lsaKey, ⟨lsaMd, bits &&& 0x04 != 0, bits &&& 0x02 != 0, bits &&& 0x01 != 0, numOfLinks,
    linkDetails⟩)

def encodeLinkData (lDetail : LinkDetail) (length : Nat) : Outcome Unit Bytes := do
  let tosDetails ← writeEach (fun detail => .ok ([detail.tos, 0] ++ uint16Bytes detail.tosMetric))
    lDetail.numOfTOS.toNat lDetail.tosDetails
  fill length (uint32Bytes lDetail.linkId ++ uint32Bytes lDetail.linkData ++
    [lDetail.linkType, lDetail.numOfTOS] ++ uint16Bytes lDetail.linkMetric ++ tosDetails)

def routerBits (bitV bitE bitB : Bool) : UInt8 :=
  (if bitV then 4 else 0) ||| (if bitE then 2 else 0) ||| (if bitB then 1 else 0)

/-- The size of a link is computed in eight bits. -/
def encodeRouterLsa (lsa : RouterLsa) (lsaKey : LsaKey) : Outcome Unit Bytes := do
  let links ← writeEach (fun link => encodeLinkData link (12 + 4 * link.numOfTOS).toNat)
    lsa.numOfLinks.toNat lsa.linkDetails
  fill lsa.lsaMd.lsLen.toNat
    (encodeLsaHeader lsa.lsaMd lsaKey ++ [routerBits lsa.bitV lsa.bitE lsa.bitB, 0] ++
      uint16Bytes lsa.numOfLinks ++ links)

/-- How many entries of a size the length leaves room for behind a fixed part. -/
def numOf (lsaMd : LsaMetadata) (fixed size : Int) : Int := (lsaMd.lsLen.toNat - fixed).tdiv size

def encodeNetworkLsa (lsa : NetworkLsa) (lsaKey : LsaKey) : Outcome Unit Bytes := do
  if lsa.lsaMd.lsLen = 0 then return []
  let routers ← writeEach (fun router => .ok (uint32Bytes router)) (numOf lsa.lsaMd 24 4).toNat
    lsa.attachedRtr
  fill lsa.lsaMd.lsLen.toNat
    (encodeLsaHeader lsa.lsaMd lsaKey ++ uint32Bytes lsa.netmask ++ routers)

def decodeAttachedRtr (_ : Nat) (rest : Bytes) : Outcome Unit UInt32 := do
  uint32 (← slice rest 0 4)

def decodeNetworkLsa : Outcome Unit (LsaKey × NetworkLsa) := do
  let (lsaKey, lsaMd) ← decodeMetadata data
  let netmask ← uint32 (← slice data 20 24)
  let numOfAttachedRtr ← makeLen (numOf lsaMd 24 4)
  let attachedRtr ← readEach decodeAttachedRtr (fun _ => 4) numOfAttachedRtr 24 (data.drop 24)
  return (lsaKey, ⟨lsaMd, netmask, attachedRtr⟩)

/-- A TOS in front of its metric. -/
def tosWord (tos : UInt8) (metric : UInt32) : UInt32 := (tos.toUInt32 <<< (24 : UInt32)) ||| metric

def encodeSummaryLsa (lsa : SummaryLsa) (lsaKey : LsaKey) : Outcome Unit Bytes := do
  let details ← writeEach (fun detail => .ok (uint32Bytes (tosWord detail.tos detail.tosMetric)))
    (numOf lsa.lsaMd 28 8).toNat lsa.summaryTOSDetails
  fill lsa.lsaMd.lsLen.toNat (encodeLsaHeader lsa.lsaMd lsaKey ++ uint32Bytes lsa.netmask ++
    uint32Bytes lsa.metric ++ details)

/-- The masks of the TOS entries are put on with an or. -/
def decodeSummaryLsa : Outcome Unit (LsaKey × SummaryLsa) := do
  let (lsaKey, lsaMd) ← decodeMetadata data
  let netmask ← uint32 (← slice data 20 24)
  let temp ← uint32 (← slice data 24 28)
  let details ← readEach (fun _ rest => do
      let temp ← uint32 (← slice rest 0 4)
      return ⟨((0xff000000 ||| temp) >>> 24).toUInt8, 0x00ffffff ||| temp⟩)
    (fun _ => 4) (numOf lsaMd 28 8).toNat 28 (data.drop 28)
  return (lsaKey, ⟨lsaMd, netmask, 0x00ffffff &&& temp, details⟩)

/-- The E bit in front of a metric. -/
def externalMetric (bitE : Bool) (metric : UInt32) : UInt32 :=
  (if bitE then 0x80000000 else 0) ||| metric

def encodeASExternalLsa (lsa : ASExternalLsa) (lsaKey : LsaKey) : Outcome Unit Bytes := do
  let details ← writeEach (fun detail => .ok (uint32Bytes (externalMetric detail.bitE
      (tosWord detail.tos detail.tosMetric)) ++ uint32Bytes detail.tosFwdAddr ++
      uint32Bytes detail.tosExtRouteTag))
    (numOf lsa.lsaMd 36 8).toNat lsa.asExtTOSDetails
  fill lsa.lsaMd.lsLen.toNat (encodeLsaHeader lsa.lsaMd lsaKey ++ uint32Bytes lsa.netmask ++
    uint32Bytes (externalMetric lsa.bitE lsa.metric) ++ uint32Bytes lsa.fwdAddr ++
    uint32Bytes lsa.extRouteTag ++ details)

/-- Any bit of the byte in front of the metric counts as the E bit. -/
def decodeASExternalLsa : Outcome Unit (LsaKey × ASExternalLsa) := do
  let (lsaKey, lsaMd) ← decodeMetadata data
  let netmask ← uint32 (← slice data 20 24)
  let bits ← index data 24
  let temp ← uint32 (← slice data 24 28)
  let fwdAddr ← uint32 (← slice data 28 32)
  let extRouteTag ← uint32 (← slice data 32 36)
  let numOfTOS ← makeLen (numOf lsaMd 36 8)
  let details ← readEach (fun _ rest => do
      let temp ← uint32 (← slice rest 0 4)
      let tosFwdAddr ← uint32 (← slice rest 4 8)
      let tosExtRouteTag ← uint32 (← slice rest 8 12)
      return ⟨temp &&& 0x80000000 != 0, ((temp &&& 0x7f000000) >>> 24).toUInt8,
        0x00ffffff ||| temp, tosFwdAddr, tosExtRouteTag⟩)
    (fun _ => 12) numOfTOS 36 (data.drop 36)
  return (lsaKey, ⟨lsaMd, netmask, bits != 0, 0x00ffffff &&& temp, fwdAddr, extRouteTag, details⟩)

end

section RoundTrip

variable {items : List ι} {form : ι → Bytes}

theorem writeEach_eq {write : ι → Outcome Unit Bytes}
    (each : ∀ item ∈ items, write item = .ok (form item)) :
    writeEach write items.length items = .ok (items.flatMap form) := by
  induction items with
  | nil => rfl
  | cons item items ih =>
    rw [forall_mem_cons] at each
    rw [length_cons, writeEach, each.1, ok_bind, ih each.2]
    rfl

theorem readEach_eq {read : Nat → Bytes → Outcome Unit ι} {size : ι → Nat}
    (each : ∀ item ∈ items, (form item).length = size item ∧
      ∀ start rest, read start (form item ++ rest) = .ok item) (start : Nat) :
    readEach read size items.length start (items.flatMap form) = .ok items := by
  induction items generalizing start with
  | nil => rfl
  | cons item items ih =>
    rw [forall_mem_cons] at each
    obtain ⟨⟨sized, first⟩, others⟩ := each
    rw [length_cons, readEach, flatMap_cons, first, ok_bind, ← sized, drop_left, ih others]
    rfl

@[simp] theorem makeLen_natCast (length : Nat) : makeLen length = .ok length := by
  simp [makeLen, Int.not_lt.mpr _]

/-- Without TOS metrics, and as long as its links. -/
structure RouterLsa.Plain (lsa : RouterLsa) : Prop where
  plain : ∀ link ∈ lsa.linkDetails, link.numOfTOS = 0 ∧ link.tosDetails = []
  count : lsa.numOfLinks.toNat = lsa.linkDetails.length
  len : lsa.lsaMd.lsLen.toNat = 24 + 12 * lsa.linkDetails.length

structure SummaryLsa.Plain (lsa : SummaryLsa) : Prop where
  plain : lsa.summaryTOSDetails = []
  small : lsa.metric.toNat < 2 ^ 24
  len : lsa.lsaMd.lsLen = 28

structure ASExternalLsa.Plain (lsa : ASExternalLsa) : Prop where
  plain : lsa.asExtTOSDetails = []
  small : lsa.metric.toNat < 2 ^ 24
  len : lsa.lsaMd.lsLen = 36

/-- What is read back of the metadata: 32 bits of the sequence number, and no checksum. -/
def LsaMetadata.sent (lsaMd : LsaMetadata) : LsaMetadata :=
  { lsaMd with lsSequenceNum := lsaMd.lsSequenceNum % 2 ^ 32, lsChecksum := 0 }

theorem ofInt_toNat (value : Int) : ((UInt32.ofInt value).toNat : Int) = value % 2 ^ 32 := by
  rw [UInt32.ofInt, UInt32.toNat_ofNat']
  omega

theorem decodeMetadata_encode (lsaMd : LsaMetadata) (lsaKey : LsaKey) (rest : Bytes) :
    decodeMetadata (encodeLsaHeader lsaMd lsaKey ++ rest) = .ok (lsaKey, lsaMd.sent) := by
  have cleared : (uint16 [0, 0] : Outcome Unit UInt16) = .ok 0 := rfl
  simp [decodeMetadata, encodeLsaHeader, uint16Bytes, uint32Bytes, slice, index, uint16_digits,
    uint32_digits, cleared, ofInt_toNat, LsaMetadata.sent]

@[simp] theorem encodeLsaHeader_length (lsaMd : LsaMetadata) (lsaKey : LsaKey) :
    (encodeLsaHeader lsaMd lsaKey).length = 20 := rfl

theorem externalMetric_toNat {metric : UInt32} (small : metric.toNat < 2 ^ 24) (bitE : Bool) :
    (externalMetric bitE metric).toNat = (if bitE then 2 ^ 31 else 0) + metric.toNat := by
  have joined := Nat.two_pow_add_eq_or_of_lt (show metric.toNat < 2 ^ 31 by omega) 1
  cases bitE <;> simp [externalMetric, joined]

theorem mask_metric {metric : UInt32} (small : metric.toNat < 2 ^ 24) (bitE : Bool) :
    0x00ffffff &&& externalMetric bitE metric = metric := by
  apply UInt32.toNat_inj.mp
  have masked := Nat.and_two_pow_sub_one_eq_mod (externalMetric bitE metric).toNat 24
  rw [UInt32.and_comm, UInt32.toNat_and]
  refine masked.trans ?_
  rw [externalMetric_toNat small]
  cases bitE <;> simp <;> omega

theorem SummaryLsa.Plain.read_back {lsa : SummaryLsa} (fits : lsa.Plain) (lsaKey : LsaKey) :
    encodeSummaryLsa lsa lsaKey >>= decodeSummaryLsa =
      .ok (lsaKey, { lsa with lsaMd := lsa.lsaMd.sent }) := by
  obtain ⟨plain, small, len⟩ := fits
  have none : numOf lsa.lsaMd 28 8 = 0 := by rw [numOf, len]; rfl
  have behind : numOf lsa.lsaMd.sent 28 8 = 0 := none
  have written : encodeSummaryLsa lsa lsaKey = .ok (encodeLsaHeader lsa.lsaMd lsaKey ++
      (uint32Bytes lsa.netmask ++ uint32Bytes (externalMetric false lsa.metric))) := by
    simp [encodeSummaryLsa, none, writeEach, fill, len, zeros, externalMetric]
  rw [written, ok_bind, decodeSummaryLsa, decodeMetadata_encode]
  simp [encodeLsaHeader, uint16Bytes, uint32Bytes, slice, uint32_digits, mask_metric small, plain,
    behind, readEach]

theorem ASExternalLsa.Plain.read_back {lsa : ASExternalLsa} (fits : lsa.Plain) (lsaKey : LsaKey) :
    encodeASExternalLsa lsa lsaKey >>= decodeASExternalLsa =
      .ok (lsaKey, { lsa with lsaMd := lsa.lsaMd.sent }) := by
  obtain ⟨plain, small, len⟩ := fits
  have none : numOf lsa.lsaMd 36 8 = 0 := by rw [numOf, len]; rfl
  have behind : numOf lsa.lsaMd.sent 36 8 = 0 := none
  have bit : (UInt8.ofNat ((externalMetric lsa.bitE lsa.metric).toNat / 16777216) != 0) =
      lsa.bitE := by
    have high : (externalMetric lsa.bitE lsa.metric).toNat / 16777216 =
        if lsa.bitE then 128 else 0 := by
      rw [externalMetric_toNat small]
      split <;> omega
    rw [high]
    cases lsa.bitE <;> rfl
  have written : encodeASExternalLsa lsa lsaKey = .ok (encodeLsaHeader lsa.lsaMd lsaKey ++
      (uint32Bytes lsa.netmask ++ (uint32Bytes (externalMetric lsa.bitE lsa.metric) ++
        (uint32Bytes lsa.fwdAddr ++ uint32Bytes lsa.extRouteTag)))) := by
    simp [encodeASExternalLsa, none, writeEach, fill, len, zeros]
  rw [written, ok_bind, decodeASExternalLsa, decodeMetadata_encode]
  simp [encodeLsaHeader, uint16Bytes, uint32Bytes, slice, index, uint32_digits, mask_metric small,
    plain, bit, behind, makeLen, readEach]

theorem NetworkLsa.read_back {lsa : NetworkLsa}
    (len : lsa.lsaMd.lsLen.toNat = 24 + 4 * lsa.attachedRtr.length) (lsaKey : LsaKey) :
    encodeNetworkLsa lsa lsaKey >>= decodeNetworkLsa =
      .ok (lsaKey, { lsa with lsaMd := lsa.lsaMd.sent }) := by
  have some : lsa.lsaMd.lsLen ≠ 0 := by
    intro none
    rw [none] at len
    exact absurd len (by simp; omega)
  have count : numOf lsa.lsaMd 24 4 = lsa.attachedRtr.length := by
    simp [numOf, len]
  have behind : numOf lsa.lsaMd.sent 24 4 = lsa.attachedRtr.length := count
  have routers : writeEach (fun router => .ok (uint32Bytes router)) lsa.attachedRtr.length
      lsa.attachedRtr = .ok (lsa.attachedRtr.flatMap uint32Bytes) :=
    writeEach_eq (fun _ _ => rfl)
  have written : encodeNetworkLsa lsa lsaKey = .ok (encodeLsaHeader lsa.lsaMd lsaKey ++
      (uint32Bytes lsa.netmask ++ lsa.attachedRtr.flatMap uint32Bytes)) := by
    have size : 20 + (4 + lsa.attachedRtr.length * 4) = 24 + 4 * lsa.attachedRtr.length := by omega
    simp [encodeNetworkLsa, some, count, routers, fill, len, zeros, length_flatMap, size]
  have read : readEach decodeAttachedRtr (fun _ => 4) lsa.attachedRtr.length 24
      (lsa.attachedRtr.flatMap uint32Bytes) = .ok lsa.attachedRtr := by
    apply readEach_eq
    intro router _
    simp [decodeAttachedRtr, slice, uint32Bytes, uint32_digits]
  rw [written, ok_bind, decodeNetworkLsa, decodeMetadata_encode]
  simp [encodeLsaHeader, uint16Bytes, uint32Bytes, slice, uint32_digits, behind, read]

/-- A link without TOS metrics on the wire. -/
def LinkDetail.wire (link : LinkDetail) : Bytes :=
  uint32Bytes link.linkId ++ uint32Bytes link.linkData ++ [link.linkType, 0] ++
    uint16Bytes link.linkMetric

theorem encodeLinkData_eq {link : LinkDetail} (plain : link.numOfTOS = 0) :
    encodeLinkData link (12 + 4 * link.numOfTOS).toNat = .ok link.wire := by
  simp [encodeLinkData, plain, writeEach, fill, zeros, LinkDetail.wire]

theorem decodeLinkDetail_wire {link : LinkDetail} (plain : link.numOfTOS = 0 ∧ link.tosDetails = [])
    (start : Nat) (rest : Bytes) : decodeLinkDetail start (link.wire ++ rest) = .ok link := by
  obtain ⟨linkId, linkData, linkType, numOfTOS, linkMetric, tosDetails⟩ := link
  obtain ⟨rfl, rfl⟩ := plain
  simp [decodeLinkDetail, LinkDetail.wire, slice, index, uint32Bytes, uint16Bytes, uint32_digits,
    uint16_digits, readEach]

theorem routerBits_and : ∀ bitV bitE bitB : Bool, (routerBits bitV bitE bitB &&& 0x04 != 0) = bitV ∧
      (routerBits bitV bitE bitB &&& 0x02 != 0) = bitE ∧
      (routerBits bitV bitE bitB &&& 0x01 != 0) = bitB := by
  decide

/-- The links stand behind each other, each with as many bytes as it is read by. -/
theorem RouterLsa.Plain.read_back {lsa : RouterLsa} (fits : lsa.Plain) (lsaKey : LsaKey) :
    encodeRouterLsa lsa lsaKey >>= decodeRouterLsa =
      .ok (lsaKey, { lsa with lsaMd := lsa.lsaMd.sent }) := by
  obtain ⟨plain, count, len⟩ := fits
  have links : writeEach (fun link => encodeLinkData link (12 + 4 * link.numOfTOS).toNat)
      lsa.numOfLinks.toNat lsa.linkDetails = .ok (lsa.linkDetails.flatMap LinkDetail.wire) := by
    rw [count]
    exact writeEach_eq fun link member => encodeLinkData_eq (plain link member).1
  have written : encodeRouterLsa lsa lsaKey = .ok (encodeLsaHeader lsa.lsaMd lsaKey ++
      ([routerBits lsa.bitV lsa.bitE lsa.bitB, 0] ++ (uint16Bytes lsa.numOfLinks ++
        lsa.linkDetails.flatMap LinkDetail.wire))) := by
    have wide (link : LinkDetail) : link.wire.length = 12 := rfl
    have size : 20 + (2 + lsa.linkDetails.length * 12 + 1 + 1) =
        24 + 12 * lsa.linkDetails.length := by omega
    rw [encodeRouterLsa, links]
    simp [fill, len, zeros, length_flatMap, wide, size]
  have read : readEach decodeLinkDetail (fun link => 12 + 4 * link.numOfTOS.toNat)
      lsa.numOfLinks.toNat 24 (lsa.linkDetails.flatMap LinkDetail.wire) = .ok lsa.linkDetails := by
    rw [count]
    apply readEach_eq
    intro link member
    refine ⟨?_, decodeLinkDetail_wire (plain link member)⟩
    rw [(plain link member).1]
    rfl
  rw [written, ok_bind, decodeRouterLsa, decodeMetadata_encode]
  simp [encodeLsaHeader, uint16Bytes, uint32Bytes, slice, index, uint16_digits, read,
    routerBits_and]

/-- What is written of an advertisement without TOS metrics is read back, but for the checksum. -/
theorem lsa_read_back (lsaKey : LsaKey) :
    (∀ lsa : RouterLsa, lsa.Plain → encodeRouterLsa lsa lsaKey >>= decodeRouterLsa =
        .ok (lsaKey, { lsa with lsaMd := lsa.lsaMd.sent })) ∧
      (∀ lsa : NetworkLsa, lsa.lsaMd.lsLen.toNat = 24 + 4 * lsa.attachedRtr.length →
        encodeNetworkLsa lsa lsaKey >>= decodeNetworkLsa =
          .ok (lsaKey, { lsa with lsaMd := lsa.lsaMd.sent })) ∧
      (∀ lsa : SummaryLsa, lsa.Plain → encodeSummaryLsa lsa lsaKey >>= decodeSummaryLsa =
        .ok (lsaKey, { lsa with lsaMd := lsa.lsaMd.sent })) ∧
      ∀ lsa : ASExternalLsa, lsa.Plain → encodeASExternalLsa lsa lsaKey >>= decodeASExternalLsa =
        .ok (lsaKey, { lsa with lsaMd := lsa.lsaMd.sent }) :=
  ⟨fun _ fits => fits.read_back lsaKey, fun _ len => NetworkLsa.read_back len lsaKey,
    fun _ fits => fits.read_back lsaKey, fun _ fits => fits.read_back lsaKey⟩

def initialMd (lsLen : UInt16) : LsaMetadata := ⟨1, 2, 0x80000001, 0, lsLen⟩

/-- Two links of a router, of different types, as they stand behind each other. -/
def twoLinks : List LinkDetail := [⟨1, 2, 3, 0, 10, []⟩, ⟨4, 5, 2, 0, 20, []⟩]

/-- A first instance of each kind of LSA comes back. -/
theorem lsa_read_back_initial :
    encodeRouterLsa ⟨initialMd 48, true, false, true, 2, twoLinks⟩ ⟨1, 7, 7⟩ >>= decodeRouterLsa =
        .ok (⟨1, 7, 7⟩, ⟨initialMd 48, true, false, true, 2, twoLinks⟩) ∧
      encodeNetworkLsa ⟨initialMd 32, 0xffffff00, [7, 8]⟩ ⟨1, 7, 7⟩ >>= decodeNetworkLsa =
        .ok (⟨1, 7, 7⟩, ⟨initialMd 32, 0xffffff00, [7, 8]⟩) ∧
      encodeSummaryLsa ⟨initialMd 28, 0xffffff00, 0xffffff, []⟩ ⟨1, 7, 7⟩ >>= decodeSummaryLsa =
        .ok (⟨1, 7, 7⟩, ⟨initialMd 28, 0xffffff00, 0xffffff, []⟩) ∧
      encodeASExternalLsa ⟨initialMd 36, 0xffffff00, true, 20, 1, 2, []⟩ ⟨1, 7, 7⟩ >>=
        decodeASExternalLsa =
        .ok (⟨1, 7, 7⟩, ⟨initialMd 36, 0xffffff00, true, 20, 1, 2, []⟩) := by
  obtain ⟨router, network, summary, asExternal⟩ := lsa_read_back ⟨1, 7, 7⟩
  exact ⟨router _ ⟨by simp [twoLinks], rfl, rfl⟩, network _ rfl, summary _ ⟨rfl, by decide, rfl⟩,
    asExternal _ ⟨rfl, by decide, rfl⟩⟩

end RoundTrip

end FlexSwitch.Ospf
