import FlexSwitch.Go.Bytes
import FlexSwitch.RunningSum

/-! The checksum of OSPF packets. -/

namespace FlexSwitch.Ospf

open Go Outcome RunningSum List

/-- The loop of `computeCheckSum`, which reads two bytes in each round. -/
def addWords (csum : UInt32) : Bytes → Outcome Unit UInt32
  | [] => .ok csum
  | [_] => .panic
  | high :: low :: rest => addWords (csum + (high.toUInt32 <<< 8) + low.toUInt32) rest

def computeCheckSum (pkt : Bytes) : Outcome Unit UInt16 := do
  let csum ← addWords 0 pkt
  return ~~~((csum >>> 16) + csum).toUInt16

/-- The words of a packet, an odd byte padded with a zero one. -/
def words : Bytes → List Nat
  | [] => []
  | [high] => [high.toNat * 256]
  | high :: low :: rest => (high.toNat * 256 + low.toNat) :: words rest

/-- The checksum of RFC 1071: the complement of the sum with end-around carry. -/
def internetChecksum (pkt : Bytes) : UInt16 := ~~~UInt16.ofNat ((words pkt).foldl addAround 0)

/-- The two halves of the sum, added once. -/
def folded (pkt : Bytes) : Nat := (words pkt).sum / 65536 + (words pkt).sum % 65536

theorem words_bounded (pkt : Bytes) :
    (∀ word ∈ words pkt, word < 65536) ∧ 2 * (words pkt).length ≤ pkt.length + 1 := by
  fun_induction words pkt with
  | case1 => simp
  | case2 high =>
    have small := high.toNat_lt
    simp only [mem_singleton, forall_eq, length_singleton]
    omega
  | case3 high low rest ih =>
    have small := high.toNat_lt
    have lowByte := low.toNat_lt
    rw [forall_mem_cons, length_cons, length_cons, length_cons]
    exact ⟨⟨by omega, ih.1⟩, by omega⟩

/-- An odd packet is read behind its end, and of an even one all words are added. -/
theorem addWords_eq (csum : UInt32) (pkt : Bytes) : addWords csum pkt =
    if pkt.length % 2 = 0 then .ok (csum + UInt32.ofNat (words pkt).sum) else .panic := by
  fun_induction addWords csum pkt with
  | case1 => simp [words]
  | case2 => simp
  | case3 csum high low rest ih =>
    have added : csum + (high.toUInt32 <<< 8) + low.toUInt32 + UInt32.ofNat (words rest).sum =
        csum + UInt32.ofNat (words (high :: low :: rest)).sum := by
      apply UInt32.toNat_inj.mp
      have small := high.toNat_lt
      have shifted := Nat.shiftLeft_eq high.toNat 8
      simp [words]
      omega
    rw [ih, added]
    simp [add_assoc]

/-- The checksum is right exactly for even packets whose sum leaves no carry when it is folded. -/
theorem computeCheckSum_internet_iff {pkt : Bytes} (short : pkt.length ≤ 65535) :
    computeCheckSum pkt = .ok (internetChecksum pkt) ↔ pkt.length % 2 = 0 ∧ folded pkt < 65536 := by
  obtain ⟨each, few⟩ := words_bounded pkt
  have bound := sum_le_card_nsmul (words pkt) 65535 fun word member =>
    Nat.le_of_lt_succ (each word member)
  rw [smul_eq_mul] at bound
  obtain ⟨carries, total, small, zero⟩ := foldl_addAround (Nat.zero_lt_succ _) each
  rw [computeCheckSum, addWords_eq]
  by_cases even : pkt.length % 2 = 0
  · have folds : ((UInt32.ofNat (words pkt).sum >>> 16) +
        UInt32.ofNat (words pkt).sum).toUInt16.toNat = folded pkt % 65536 := by
      have shifted := Nat.shiftRight_eq_div_pow (words pkt).sum 16
      simp [folded]
      omega
    simp only [even, if_true, ok_bind, pure_eq, ok.injEq, UInt32.zero_add, internetChecksum,
      true_and]
    rw [UInt16.not_inj, ← UInt16.toNat_inj, folds, UInt16.toNat_ofNat', folded]
    -- Both sums leave out multiples of 65535, and neither is zero but for zeros.
    rcases Nat.lt_trichotomy carries ((words pkt).sum / 65536) with less | same | more
    · omega
    · omega
    · omega
  · simp [even]

/-- The first words of a header add up without a carry. -/
theorem computeCheckSum_header :
    computeCheckSum [2, 1, 0, 24] = .ok (internetChecksum [2, 1, 0, 24]) :=
  (computeCheckSum_internet_iff (by decide)).mpr (by decide)

/-- A header of router 255.255.253.231, whose words add up to 1ffff: the carry is lost. -/
theorem computeCheckSum_drops_carry :
    computeCheckSum ([2, 1, 0, 24, 0xff, 0xff, 0xfd, 0xe7] ++ zeros 16) = .ok 0xffff ∧
      internetChecksum ([2, 1, 0, 24, 0xff, 0xff, 0xfd, 0xe7] ++ zeros 16) = 0xfffe := by
  decide

end FlexSwitch.Ospf
