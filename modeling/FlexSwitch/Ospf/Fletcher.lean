import FlexSwitch.Go.Bytes
import FlexSwitch.Go.Loop
import FlexSwitch.RunningSum

/-! The checksum of link state advertisements. -/

namespace FlexSwitch.Ospf

open Go Outcome RunningSum List UInt8

variable {ε : Type}

/-- How many bytes are added up before the sums are reduced. -/
def modx : Nat := 4102

/-- In place of an offset, asks for a check of the bytes as they are. -/
def fletcherChecksumValidate : UInt16 := 0xffff

/-- A block is added to both sums, which are reduced behind it. -/
def fletcherBlock (sums : Nat × Nat) (block : Bytes) : Nat × Nat :=
  let sums := (block.map UInt8.toNat).foldl add sums
  (sums.1 % 255, sums.2 % 255)

/-- One round over the bytes that are left, with both sums so far. -/
def fletcherRound (state : Bytes × Nat × Nat) : Outcome ε (Round (Bytes × Nat × Nat) (Nat × Nat)) :=
  if state.1.length = 0 then .ok (.stop state.2)
  else
    let pLen := min state.1.length modx
    .ok (.next (state.1.drop pLen, fletcherBlock state.2 (state.1.take pLen)))

/-- The first byte of a checksum; the remainder of Go has the sign of what is divided. -/
def fletcherX (behind : Int) (c0 c1 : Nat) : Int :=
  let x := (behind * c0 - c1).tmod 255
  if x ≤ 0 then x + 255 else x

/-- The second byte of a checksum. -/
def fletcherY (c0 : Nat) (x : Int) : Int :=
  let y := 510 - c0 - x
  if y > 255 then y - 255 else y

/--
`computeFletcherChecksum`, with the bytes it leaves behind: two of them are cleared for a checksum
that is to be stored there.
-/
def computeFletcherChecksum (data : Bytes) (offset : UInt16) : Outcome ε (Bytes × UInt16) := do
  let data ← if offset ≠ fletcherChecksumValidate then storeAt data offset.toNat (uint16Bytes 0)
    else .ok data
  let (c0, c1) ← loop fletcherRound (data.length + 1) (data, 0, 0)
  let x := fletcherX (data.length - offset.toNat - 1) c0 c1
  let y := fletcherY c0 x
  if offset = fletcherChecksumValidate then
    return (data, UInt16.ofNat ((c1 <<< 8) + c0))
  else
    return (data, UInt16.ofNat ((x.toNat <<< 8) ||| (y.toNat &&& 0xff)))

/-- The sum of the bytes. -/
def byteSum (data : Bytes) : Nat := (data.map UInt8.toNat).sum

/-- The sum of the sums of the bytes. -/
def byteDouble (data : Bytes) : Nat := double (data.map UInt8.toNat)

theorem byteSum_append (one two : Bytes) : byteSum (one ++ two) = byteSum one + byteSum two := by
  simp [byteSum]

theorem byteDouble_append (one two : Bytes) :
    byteDouble (one ++ two) = byteDouble one + two.length * byteSum one + byteDouble two := by
  simp [byteDouble, byteSum, double_append]

theorem fletcherBlock_append (sums : Nat × Nat) (one two : Bytes) :
    fletcherBlock (fletcherBlock sums one) two = fletcherBlock sums (one ++ two) := by
  rw [fletcherBlock, fletcherBlock, fletcherBlock, map_append, foldl_append]
  obtain ⟨same, same'⟩ := foldl_add_mod (Nat.mod_modEq _ 255) (Nat.mod_modEq _ 255)
    (two.map toNat)
  exact Prod.ext same same'

/-- The rounds compute both sums, as reducing in between changes nothing modulo 255. -/
theorem fletcherRounds_eq (data : Bytes) :
    (loop fletcherRound (data.length + 1) (data, 0, 0) : Outcome ε (Nat × Nat)) =
      .ok (byteSum data % 255, byteDouble data % 255) := by
  -- The induction is on the budget, over any bytes that are left and any reduced sums so far.
  have general : ∀ (fuel : Nat) (left : Bytes) (sums : Nat × Nat), left.length < fuel →
      fletcherBlock sums [] = sums →
      (loop fletcherRound fuel (left, sums) : Outcome ε (Nat × Nat)) =
        .ok (fletcherBlock sums left) := by
    intro fuel
    induction fuel with
    | zero => intro left sums enough; omega
    | succ fuel ih =>
      intro left sums enough reduced
      by_cases empty : left.length = 0
      · rw [length_eq_zero_iff.mp empty, reduced]
        rfl
      · have advanced : (fletcherRound (left, sums) : Outcome ε _) =
            .ok (.next (left.drop (min left.length modx),
              fletcherBlock sums (left.take (min left.length modx)))) := if_neg empty
        have shorter : (left.drop (min left.length modx)).length < fuel := by
          rw [length_drop, modx]
          omega
        rw [loop_next advanced, ih _ _ shorter (by simp [fletcherBlock]), fletcherBlock_append,
          take_append_drop]
  rw [general _ _ _ (Nat.lt_succ_self _) rfl, fletcherBlock, foldl_add]
  simp [byteSum, byteDouble]

theorem computeFletcherChecksum_validate (data : Bytes) :
    (computeFletcherChecksum data fletcherChecksumValidate : Outcome ε _) =
      .ok (data, UInt16.ofNat ((byteDouble data % 255) <<< 8 + byteSum data % 255)) := by
  simp [computeFletcherChecksum, fletcherRounds_eq]

theorem validate_eq_zero (data : Bytes) :
    UInt16.ofNat ((byteDouble data % 255) <<< 8 + byteSum data % 255) = 0 ↔
      255 ∣ byteSum data ∧ 255 ∣ byteDouble data := by
  rw [← UInt16.toNat_inj, UInt16.toNat_ofNat', Nat.shiftLeft_eq, Nat.dvd_iff_mod_eq_zero,
    Nat.dvd_iff_mod_eq_zero, UInt16.toNat_zero]
  omega

theorem fletcherX_spec (behind : Int) (c0 c1 : Nat) :
    0 < fletcherX behind c0 c1 ∧ fletcherX behind c0 c1 ≤ 255 ∧
      255 ∣ fletcherX behind c0 c1 - (behind * c0 - c1) := by
  generalize total : behind * c0 - c1 = z
  have rest := Int.tmod_add_mul_tdiv z 255
  have small := Int.tmod_lt_of_pos z (show (0 : Int) < 255 by decide)
  have large := Int.lt_tmod_of_pos z (show (0 : Int) < 255 by decide)
  simp only [fletcherX, total]
  split <;> omega

theorem fletcherY_spec {c0 : Nat} {x : Int} (small : c0 < 255) (low : 0 < x) (high : x ≤ 255) :
    0 < fletcherY c0 x ∧ fletcherY c0 x ≤ 255 ∧ 255 ∣ fletcherY c0 x + c0 + x := by
  simp only [fletcherY]
  split <;> omega

/-- The checksum is stored as the two bytes that it was put together from. -/
theorem uint16Bytes_pair {x y : Nat} (smallX : x ≤ 255) (smallY : y ≤ 255) :
    uint16Bytes (UInt16.ofNat ((x <<< 8) ||| (y &&& 0xff))) = [UInt8.ofNat x, UInt8.ofNat y] := by
  have low : y &&& 0xff = y := by
    rw [Nat.and_two_pow_sub_one_eq_mod y 8]
    omega
  have joined : (x <<< 8) ||| y = x * 256 + y := by
    rw [← Nat.shiftLeft_add_eq_or_of_lt (show y < 2 ^ 8 by omega), Nat.shiftLeft_eq]
  have first : (x * 256 + y) % 2 ^ 16 / 256 = x := by omega
  have second : (x * 256 + y) % 2 ^ 16 % 256 = y := by omega
  rw [low, joined, uint16Bytes, UInt16.toNat_ofNat', first, second]

/-- What is computed for two bytes behind a front: they are cleared, and the sums taken. -/
theorem computeFletcherChecksum_at (rest : Bytes) {front old : Bytes} {offset : UInt16}
    (here : front.length = offset.toNat) (two : old.length = 2)
    (plain : offset ≠ fletcherChecksumValidate) {c0 c1 : Nat}
    (sum : byteSum (front ++ ([0, 0] ++ rest)) % 255 = c0)
    (sums : byteDouble (front ++ ([0, 0] ++ rest)) % 255 = c1) :
    (computeFletcherChecksum (front ++ (old ++ rest)) offset : Outcome ε _) =
      .ok (front ++ ([0, 0] ++ rest),
        UInt16.ofNat (((fletcherX (rest.length + 1) c0 c1).toNat <<< 8) |||
          ((fletcherY c0 (fletcherX (rest.length + 1) c0 c1)).toNat &&& 0xff))) := by
  have cleared : (storeAt (front ++ (old ++ rest)) offset.toNat (uint16Bytes 0) : Outcome ε _) =
      .ok (front ++ ([0, 0] ++ rest)) := by
    rw [← here, storeAt_append _ _ _ (by simp [two])]
    simp [uint16Bytes, two]
  have behind : ((front ++ ([0, 0] ++ rest)).length : Int) - offset.toNat - 1 =
      rest.length + 1 := by
    simp [here]
  simp only [computeFletcherChecksum, if_pos plain, cleared, ok_bind, fletcherRounds_eq, behind,
    sum, sums, if_neg plain]
  rfl

/-- Both sums vanish with the two bytes of the checksum in place of the cleared ones. -/
theorem checksum_balances (front rest : Bytes) {x y : Nat} (smallX : x ≤ 255) (smallY : y ≤ 255)
    {c0 c1 : Nat} (sum : byteSum (front ++ ([0, 0] ++ rest)) % 255 = c0)
    (sums : byteDouble (front ++ ([0, 0] ++ rest)) % 255 = c1)
    (congruentX : (255 : Int) ∣ x - ((rest.length + 1) * c0 - c1))
    (congruentY : (255 : Int) ∣ y + c0 + x) :
    255 ∣ byteSum (front ++ ([UInt8.ofNat x, UInt8.ofNat y] ++ rest)) ∧
      255 ∣ byteDouble (front ++ ([UInt8.ofNat x, UInt8.ofNat y] ++ rest)) := by
  have byteX : (ofNat x).toNat = x := toNat_ofNat_of_lt' (Nat.lt_succ_of_le smallX)
  have byteY : (ofNat y).toNat = y := toNat_ofNat_of_lt' (Nat.lt_succ_of_le smallY)
  have pair : byteSum [ofNat x, ofNat y] = x + y := by simp [byteSum, byteX, byteY]
  have pairs : byteDouble [ofNat x, ofNat y] = 2 * x + y := by
    simp [byteDouble, double, byteX, byteY]
  have zeros : byteSum [0, 0] = 0 ∧ byteDouble [0, 0] = 0 := by decide
  have total : byteSum (front ++ ([ofNat x, ofNat y] ++ rest)) =
      byteSum (front ++ ([0, 0] ++ rest)) + x + y := by
    rw [byteSum_append, byteSum_append, byteSum_append, byteSum_append, pair, zeros.1]
    ring
  have totals : byteDouble (front ++ ([ofNat x, ofNat y] ++ rest)) =
      byteDouble (front ++ ([0, 0] ++ rest)) + (rest.length + 2) * x + (rest.length + 1) * y := by
    simp only [byteDouble_append, pair, pairs, zeros.1, zeros.2, length_append,
      length_cons, length_nil]
    ring
  rw [total, totals]
  refine ⟨by omega, ?_⟩
  -- The sum of sums is a combination of three numbers that 255 divides.
  have reduced : (255 : Int) ∣ byteDouble (front ++ ([0, 0] ++ rest)) - c1 := by omega
  have combined := (reduced.add congruentX).add (congruentY.mul_left (rest.length + 1))
  refine Int.natCast_dvd_natCast.mp (combined.trans (Dvd.intro 1 ?_))
  push_cast
  ring

/-- Another value modulo 255 of one byte is another value of the sum. -/
theorem byteSum_set {data : Bytes} {position : Nat} {old byte : UInt8}
    (there : data[position]? = some old) (passed : 255 ∣ byteSum data)
    (changed : byte.toNat % 255 ≠ old.toNat % 255) :
    ¬ 255 ∣ byteSum (data.set position byte) := by
  obtain ⟨within, rfl⟩ := List.getElem?_eq_some_iff.mp there
  have split : data = data.take position ++ ([data[position]] ++ data.drop (position + 1)) := by
    simp
  have single : ∀ b : UInt8, byteSum [b] = b.toNat := by simp [byteSum]
  rw [split] at passed
  rw [set_eq_take_append_cons_drop, if_pos within, ← singleton_append]
  simp only [byteSum_append, single] at passed ⊢
  omega

/--
A checksum that is stored where it was computed for makes the bytes pass the check, and no change of
one byte to another value modulo 255 does.
-/
theorem computeFletcherChecksum_sound (data : Bytes) (offset : UInt16)
    (room : offset.toNat + 2 ≤ data.length) (proper : offset.toNat < 65535) :
    ∃ cleared checksum stored,
      computeFletcherChecksum data offset = (.ok (cleared, checksum) : Outcome ε _) ∧
      storeAt cleared offset.toNat (uint16Bytes checksum) = (.ok stored : Outcome ε _) ∧
      computeFletcherChecksum stored fletcherChecksumValidate = (.ok (stored, 0) : Outcome ε _) ∧
      ∀ position old byte, stored[position]? = some old → byte.toNat % 255 ≠ old.toNat % 255 →
        ∃ checksum, computeFletcherChecksum (stored.set position byte) fletcherChecksumValidate =
          (.ok (stored.set position byte, checksum) : Outcome ε _) ∧ checksum ≠ 0 := by
  have plain : offset ≠ fletcherChecksumValidate := by
    rintro rfl
    exact absurd proper (by decide)
  obtain ⟨front, old, rest, rfl, here, two⟩ : ∃ front old rest, data = front ++ (old ++ rest) ∧
      front.length = offset.toNat ∧ old.length = 2 := by
    refine ⟨data.take offset.toNat, (data.drop offset.toNat).take 2,
      (data.drop offset.toNat).drop 2, by simp, ?_, ?_⟩ <;> simp <;> omega
  have computed := computeFletcherChecksum_at (ε := ε) rest here two plain rfl rfl
  have small := Nat.mod_lt (byteSum (front ++ ([0, 0] ++ rest))) (show 255 > 0 by decide)
  obtain ⟨lowX, highX, congruentX⟩ := fletcherX_spec (rest.length + 1)
    (byteSum (front ++ ([0, 0] ++ rest)) % 255) (byteDouble (front ++ ([0, 0] ++ rest)) % 255)
  obtain ⟨lowY, highY, congruentY⟩ := fletcherY_spec small lowX highX
  obtain ⟨x, sameX⟩ := Int.eq_ofNat_of_zero_le lowX.le
  rw [sameX] at computed highX congruentX congruentY highY lowY
  obtain ⟨y, sameY⟩ := Int.eq_ofNat_of_zero_le lowY.le
  rw [sameY] at computed highY congruentY
  have smallX : x ≤ 255 := by omega
  have smallY : y ≤ 255 := by omega
  obtain ⟨passed, passed'⟩ := checksum_balances front rest smallX smallY rfl rfl congruentX
    congruentY
  refine ⟨_, _, front ++ ([ofNat x, ofNat y] ++ rest), computed, ?_, ?_, ?_⟩
  · rw [← here, Int.toNat_natCast, Int.toNat_natCast, uint16Bytes_pair smallX smallY,
      storeAt_append _ _ _ (by simp)]
    simp
  · rw [computeFletcherChecksum_validate, (validate_eq_zero _).mpr ⟨passed, passed'⟩]
  · intro position old byte there changed
    refine ⟨_, computeFletcherChecksum_validate _, fun zero => ?_⟩
    exact byteSum_set there passed changed ((validate_eq_zero _).mp zero).1

/-- Four bytes, the last two of which take their checksum. -/
theorem computeFletcherChecksum_four_bytes : ∃ cleared checksum stored,
      computeFletcherChecksum [7, 9, 1, 1] 2 = (.ok (cleared, checksum) : Outcome Unit _) ∧
      storeAt cleared 2 (uint16Bytes checksum) = (.ok stored : Outcome Unit _) ∧
      computeFletcherChecksum stored fletcherChecksumValidate = (.ok (stored, 0) : Outcome Unit _) := by
  obtain ⟨cleared, checksum, stored, computed, written, passed, -⟩ :=
    computeFletcherChecksum_sound (ε := Unit) [7, 9, 1, 1] 2 (by decide) (by decide)
  exact ⟨cleared, checksum, stored, computed, written, passed⟩

/-- The check of the bytes finds nothing wrong with them. -/
def Passes (data : Bytes) : Prop :=
  (computeFletcherChecksum data fletcherChecksumValidate : Outcome Unit _) = .ok (data, 0)

section Swaps

variable {front middle back : Bytes} {one two : UInt8}

/-- What a swap does to the second sum is the difference of the bytes times their distance. -/
theorem Passes.swapped (passed : Passes (front ++ one :: (middle ++ two :: back))) :
    Passes (front ++ two :: (middle ++ one :: back)) ↔
      255 ∣ ((one.toNat : Int) - two.toNat) * (middle.length + 1) := by
  simp only [Passes, computeFletcherChecksum_validate, ok.injEq, Prod.mk.injEq, true_and,
    validate_eq_zero] at passed ⊢
  have sum : byteSum (front ++ two :: (middle ++ one :: back)) =
      byteSum (front ++ one :: (middle ++ two :: back)) := by
    simp only [byteSum, map_append, map_cons, sum_append, sum_cons]
    omega
  -- The byte in front counts once more for each place that the other one is behind it.
  have double : (byteDouble (front ++ two :: (middle ++ one :: back)) : Int) +
      ((one.toNat : Int) - two.toNat) * (middle.length + 1) =
      byteDouble (front ++ one :: (middle ++ two :: back)) := by
    simp only [byteDouble, map_append, map_cons, double_append, double, length_append, length_cons,
      length_map]
    push_cast
    ring
  omega

/-- Of neighbours, only 0 and 255 change places unnoticed. -/
theorem Passes.swapped_neighbours (passed : Passes (front ++ one :: two :: back)) :
    Passes (front ++ two :: one :: back) ↔
      one = two ∨ one = 0 ∧ two = 255 ∨ one = 255 ∧ two = 0 := by
  have apart := @Passes.swapped front [] back one two passed
  rw [nil_append, length_nil] at apart
  have bound := one.toNat_lt
  have bound' := two.toNat_lt
  simp only [apart, ← UInt8.toNat_inj, UInt8.reduceToNat]
  omega

end Swaps

/--
Two bytes of an advertisement that change places are noticed, unless their difference times their
distance is a multiple of 255.
-/
theorem passes_swapped_iff (front middle back : Bytes) (one two : UInt8) :
    Passes (front ++ one :: (middle ++ two :: back)) ∧
        Passes (front ++ two :: (middle ++ one :: back)) ↔
      Passes (front ++ one :: (middle ++ two :: back)) ∧
        255 ∣ ((one.toNat : Int) - two.toNat) * (middle.length + 1) :=
  and_congr_right Passes.swapped

end FlexSwitch.Ospf
