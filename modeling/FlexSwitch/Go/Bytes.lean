import FlexSwitch.Go.Outcome

/-! Byte slices as Go reads and writes them, with every bound checked at run time. -/

namespace FlexSwitch.Go

open List UInt8

variable {position low size : Nat}

/-- The bytes of a slice whose capacity is its length. -/
abbrev Bytes := List UInt8

variable {ε : Type}

/-- `buf[at]`. -/
def index (buf : Bytes) (position : Nat) : Outcome ε UInt8 :=
  match buf[position]? with
  | some byte => .ok byte
  | none => .panic

/-- `buf[low:high]`. -/
def slice (buf : Bytes) (low high : Nat) : Outcome ε Bytes :=
  if low ≤ high ∧ high ≤ buf.length then .ok ((buf.drop low).take (high - low)) else .panic

/-- `buf[low:]`. -/
def sliceFrom (buf : Bytes) (low : Nat) : Outcome ε Bytes :=
  if low ≤ buf.length then .ok (buf.drop low) else .panic

/-- `binary.BigEndian.Uint16(buf)`. -/
def uint16 : Bytes → Outcome ε UInt16
  | high :: low :: _ => .ok (UInt16.ofNat (high.toNat * 256 + low.toNat))
  | _ => .panic

/-- `binary.BigEndian.Uint32(buf)`. -/
def uint32 : Bytes → Outcome ε UInt32
  | b0 :: b1 :: b2 :: b3 :: _ =>
    .ok (UInt32.ofNat (((b0.toNat * 256 + b1.toNat) * 256 + b2.toNat) * 256 + b3.toNat))
  | _ => .panic

/-- The two bytes `binary.BigEndian.PutUint16` stores. -/
def uint16Bytes (value : UInt16) : Bytes :=
  [UInt8.ofNat (value.toNat / 256), UInt8.ofNat (value.toNat % 256)]

/-- The four bytes `binary.BigEndian.PutUint32` stores. -/
def uint32Bytes (value : UInt32) : Bytes :=
  [UInt8.ofNat (value.toNat / 16777216), UInt8.ofNat (value.toNat / 65536 % 256),
    UInt8.ofNat (value.toNat / 256 % 256), UInt8.ofNat (value.toNat % 256)]

/-- Store bytes at a position, every one of them inside the slice. -/
def storeAt (buf : Bytes) (position : Nat) (data : Bytes) : Outcome ε Bytes :=
  if position + data.length ≤ buf.length then
    .ok (buf.take position ++ data ++ buf.drop (position + data.length))
  else .panic

/-- `copy(buf[at:], data)`, which stops at the shorter of the two. -/
def copyAt (buf : Bytes) (position : Nat) (data : Bytes) : Outcome ε Bytes :=
  if position ≤ buf.length then
    .ok (buf.take position ++ data.take (buf.length - position) ++
      buf.drop (position + data.length))
  else .panic

/-- `make([]byte, size)`. -/
def zeros (size : Nat) : Bytes := List.replicate size 0

variable {buf : Bytes}

theorem index_of_lt {position : Nat} (within : position < buf.length) :
    (index buf position : Outcome ε UInt8) = .ok buf[position] := by
  simp [index, within]

theorem index_of_le (past : buf.length ≤ position) :
    (index buf position : Outcome ε UInt8) = .panic := by
  simp [index, past]

theorem index_eq_ok {byte : UInt8} :
    (index buf position : Outcome ε UInt8) = .ok byte ↔ buf[position]? = some byte := by
  unfold index
  cases buf[position]? <;> simp

section

variable (buf)

@[simp] theorem index_ne_hang (position : Nat) :
    (index buf position : Outcome ε UInt8) ≠ .hang := by
  unfold index
  split <;> simp

@[simp] theorem slice_ne_hang (low high : Nat) :
    (slice buf low high : Outcome ε Bytes) ≠ .hang := by
  unfold slice
  split <;> simp

@[simp] theorem sliceFrom_ne_hang (low : Nat) : (sliceFrom buf low : Outcome ε Bytes) ≠ .hang := by
  unfold sliceFrom
  split <;> simp

@[simp] theorem uint16_ne_hang : (uint16 buf : Outcome ε UInt16) ≠ .hang := by
  unfold uint16
  split <;> simp

@[simp] theorem uint32_ne_hang : (uint32 buf : Outcome ε UInt32) ≠ .hang := by
  unfold uint32
  split <;> simp

@[simp] theorem storeAt_ne_hang (position : Nat) (data : Bytes) :
    (storeAt buf position data : Outcome ε Bytes) ≠ .hang := by
  unfold storeAt
  split <;> simp

@[simp] theorem copyAt_ne_hang (position : Nat) (data : Bytes) :
    (copyAt buf position data : Outcome ε Bytes) ≠ .hang := by
  unfold copyAt
  split <;> simp

end

theorem sliceFrom_of_le (within : low ≤ buf.length) :
    (sliceFrom buf low : Outcome ε Bytes) = .ok (buf.drop low) := by
  simp [sliceFrom, within]

theorem sliceFrom_eq_ok {rest : Bytes} :
    (sliceFrom buf low : Outcome ε Bytes) = .ok rest ↔ low ≤ buf.length ∧ buf.drop low = rest := by
  unfold sliceFrom
  split
  · rename_i within
    simp [within]
  · rename_i outside
    simp [outside]

theorem slice_of_le {high : Nat} (ordered : low ≤ high) (within : high ≤ buf.length) :
    (slice buf low high : Outcome ε Bytes) = .ok ((buf.drop low).take (high - low)) := by
  simp [slice, ordered, within]

theorem index_add (buf : Bytes) (front position : Nat) :
    (index buf (front + position) : Outcome ε UInt8) = index (buf.drop front) position := by
  simp [index, getElem?_drop]

theorem slice_add {front : Nat} (within : front ≤ buf.length) (low high : Nat) :
    (slice buf (front + low) (front + high) : Outcome ε Bytes) =
      slice (buf.drop front) low high := by
  have bounds : (front + low ≤ front + high ∧ front + high ≤ buf.length) ↔
      (low ≤ high ∧ high ≤ (buf.drop front).length) := by
    rw [length_drop]
    omega
  simp only [slice, bounds, drop_drop, Nat.add_sub_add_left]

theorem sliceFrom_add {front : Nat} (within : front ≤ buf.length) (low : Nat) :
    (sliceFrom buf (front + low) : Outcome ε Bytes) = sliceFrom (buf.drop front) low := by
  have bounds : front + low ≤ buf.length ↔ low ≤ (buf.drop front).length := by
    rw [length_drop]
    omega
  simp only [sliceFrom, bounds, drop_drop]

theorem uint16_of_le (long : 2 ≤ buf.length) :
    ∃ value, (uint16 buf : Outcome ε UInt16) = .ok value := by
  match buf, long with
  | high :: low :: _, _ => exact ⟨_, rfl⟩

theorem uint32_of_le (long : 4 ≤ buf.length) :
    ∃ value, (uint32 buf : Outcome ε UInt32) = .ok value := by
  match buf, long with
  | b0 :: b1 :: b2 :: b3 :: _, _ => exact ⟨_, rfl⟩

@[simp] theorem uint16Bytes_length (value : UInt16) : (uint16Bytes value).length = 2 := rfl

@[simp] theorem uint32Bytes_length (value : UInt32) : (uint32Bytes value).length = 4 := rfl

@[simp] theorem zeros_length (size : Nat) : (zeros size).length = size := by
  simp [zeros]

/-- A stored 16-bit value is read back from in front of whatever follows it. -/
@[simp] theorem uint16_uint16Bytes (value : UInt16) (rest : Bytes) :
    (uint16 (uint16Bytes value ++ rest) : Outcome ε UInt16) = .ok value := by
  -- The two digits put together are the value, which sixteen bits hold.
  have bound := value.toNat_lt
  have digits : (ofNat (value.toNat / 256)).toNat * 256
      + (ofNat (value.toNat % 256)).toNat = value.toNat := by
    simp only [toNat_ofNat']
    omega
  simp only [uint16Bytes, cons_append, nil_append, uint16, digits, UInt16.ofNat_toNat]

/-- A stored 32-bit value is read back from in front of whatever follows it. -/
@[simp] theorem uint32_uint32Bytes (value : UInt32) (rest : Bytes) :
    (uint32 (uint32Bytes value ++ rest) : Outcome ε UInt32) = .ok value := by
  have bound := value.toNat_lt
  have digits : (((ofNat (value.toNat / 16777216)).toNat * 256
      + (ofNat (value.toNat / 65536 % 256)).toNat) * 256
      + (ofNat (value.toNat / 256 % 256)).toNat) * 256
      + (ofNat (value.toNat % 256)).toNat = value.toNat := by
    simp only [toNat_ofNat']
    omega
  simp only [uint32Bytes, cons_append, nil_append, uint32, digits, UInt32.ofNat_toNat]

theorem uint16_all (value : UInt16) : (uint16 (uint16Bytes value) : Outcome ε UInt16) = .ok value :=
  uint16_uint16Bytes value []

theorem uint32_all (value : UInt32) : (uint32 (uint32Bytes value) : Outcome ε UInt32) = .ok value :=
  uint32_uint32Bytes value []

/-- The digits of a value, where its bytes are written out. -/
theorem uint16_digits (value : UInt16) :
    (uint16 [UInt8.ofNat (value.toNat / 256), UInt8.ofNat (value.toNat % 256)] :
      Outcome ε UInt16) = .ok value :=
  uint16_all value

theorem uint32_digits (value : UInt32) :
    (uint32 [UInt8.ofNat (value.toNat / 16777216), UInt8.ofNat (value.toNat / 65536 % 256),
      UInt8.ofNat (value.toNat / 256 % 256), UInt8.ofNat (value.toNat % 256)] :
      Outcome ε UInt32) = .ok value :=
  uint32_all value

theorem index_append (front rest : Bytes) (byte : UInt8) :
    (index (front ++ byte :: rest) front.length : Outcome ε UInt8) = .ok byte := by
  simp [index]

theorem sliceFrom_append (front rest : Bytes) :
    (sliceFrom (front ++ rest) front.length : Outcome ε Bytes) = .ok rest := by
  simp [sliceFrom]

theorem slice_append (front data rest : Bytes) :
    (slice (front ++ (data ++ rest)) front.length (front.length + data.length) :
      Outcome ε Bytes) = .ok data := by
  simp [slice]

/-- From a position inside a buffer on, these bytes are left. -/
def Behind (buf : Bytes) (position : Nat) (rest : Bytes) : Prop :=
  ∃ front, buf = front ++ rest ∧ front.length = position

section Behind

variable {rest data : Bytes}

theorem Behind.start (buf : Bytes) : Behind buf 0 buf := ⟨[], rfl, rfl⟩

theorem Behind.sliceFrom (behind : Behind buf position rest) :
    (Go.sliceFrom buf position : Outcome ε Bytes) = .ok rest := by
  obtain ⟨front, rfl, rfl⟩ := behind
  exact sliceFrom_append front rest

theorem Behind.index {byte : UInt8} (behind : Behind buf position (byte :: rest)) :
    (Go.index buf position : Outcome ε UInt8) = .ok byte := by
  obtain ⟨front, rfl, rfl⟩ := behind
  exact index_append front rest byte

theorem Behind.slice (behind : Behind buf position (data ++ rest)) :
    (Go.slice buf position (position + data.length) : Outcome ε Bytes) = .ok data := by
  obtain ⟨front, rfl, rfl⟩ := behind
  exact slice_append front data rest

theorem Behind.skip {later : Nat} (behind : Behind buf position (data ++ rest))
    (moved : later = position + data.length) : Behind buf later rest := by
  obtain ⟨front, rfl, rfl⟩ := behind
  exact ⟨front ++ data, (append_assoc _ _ _).symm, by rw [moved, length_append]⟩

end Behind

/-- Storing behind a front leaves the front alone and overwrites what comes after it. -/
theorem storeAt_append (front rest data : Bytes) (room : data.length ≤ rest.length) :
    (storeAt (front ++ rest) front.length data : Outcome ε Bytes) =
      .ok (front ++ data ++ rest.drop data.length) := by
  simp [storeAt, room, drop_append]

/-- Copying behind a front, with room for all of the data, is storing it there. -/
theorem copyAt_append (front rest data : Bytes) (room : data.length ≤ rest.length) :
    (copyAt (front ++ rest) front.length data : Outcome ε Bytes) =
      .ok (front ++ data ++ rest.drop data.length) := by
  have cut : data.take rest.length = data := take_of_length_le room
  simp [copyAt, drop_append, cut]

/-- Where there is room for it, the call puts the data behind whatever is in front. -/
def Writes (write : Bytes → Nat → Outcome ε Bytes) (data : Bytes) : Prop :=
  ∀ front rest : Bytes, data.length ≤ rest.length →
    write (front ++ rest) front.length = .ok (front ++ data ++ rest.drop data.length)

theorem storeAt_writes (data : Bytes) :
    Writes (fun buf position => (storeAt buf position data : Outcome ε Bytes)) data :=
  fun front rest => storeAt_append front rest data

theorem copyAt_writes (data : Bytes) :
    Writes (fun buf position => (copyAt buf position data : Outcome ε Bytes)) data :=
  fun front rest => copyAt_append front rest data

/-- What a second call puts behind the first data becomes part of it. -/
theorem Writes.seq {first second : Bytes → Nat → Outcome ε Bytes} {data more : Bytes}
    (writes : Writes first data) (sized : data.length = size) (writesMore : Writes second more) :
    Writes (fun buf position => first buf position >>= fun buf => second buf (position + size))
      (data ++ more) := by
  subst sized
  intro front rest room
  rw [length_append] at room
  have others := writesMore (front ++ data) (rest.drop data.length) (by rw [length_drop]; omega)
  rw [length_append, drop_drop] at others
  simp only [writes front rest (by omega), Outcome.ok_bind, others]
  simp only [append_assoc, length_append]

theorem Writes.fill {write : Bytes → Nat → Outcome ε Bytes} {data : Bytes}
    (writes : Writes write data) (front : Bytes) (sized : data.length = size) :
    write (front ++ zeros size) front.length = .ok (front ++ data) := by
  have room : (zeros size).length = data.length := by rw [zeros_length, sized]
  rw [writes front _ (le_of_eq room.symm), drop_of_length_le (le_of_eq room), append_nil]

theorem copyAt_zero (buf data : Bytes) : (copyAt buf 0 data : Outcome ε Bytes) =
      .ok (data.take buf.length ++ buf.drop data.length) := by
  simp [copyAt]

variable {data : Bytes}

theorem storeAt_length {result : Bytes}
    (stored : (storeAt buf position data : Outcome ε Bytes) = .ok result) :
    result.length = buf.length := by
  unfold storeAt at stored
  split at stored
  · cases stored
    simp only [length_append, length_take, length_drop]
    omega
  · cases stored

/-- A store right behind another one is part of it. -/
theorem storeAt_storeAt (buf : Bytes) (position : Nat) (first second : Bytes) :
    (storeAt buf position first >>= fun buf => storeAt buf (position + first.length) second :
      Outcome ε Bytes) = storeAt buf position (first ++ second) := by
  by_cases room : position + (first ++ second).length ≤ buf.length
  · have placed : (buf.take position).length = position := by
      rw [length_take]
      omega
    have within : (first ++ second).length ≤ (buf.drop position).length := by
      rw [length_drop]
      omega
    have left := ((@storeAt_writes ε first).seq rfl (storeAt_writes second)) (buf.take position) _ within
    have right := @storeAt_writes ε _ (buf.take position) _ within
    rw [take_append_drop, placed] at left right
    exact left.trans right.symm
  · have none : (storeAt buf position (first ++ second) : Outcome ε Bytes) = .panic := if_neg room
    rw [none]
    rw [length_append, ← add_assoc] at room
    by_cases fits : position + first.length ≤ buf.length
    · have stored : (storeAt buf position first : Outcome ε Bytes) = .ok _ := if_pos fits
      rw [stored, Outcome.ok_bind]
      exact if_neg (by rw [storeAt_length stored]; exact room)
    · rw [storeAt, if_neg fits, Outcome.panic_bind]

/-- Items that are each written as their own bytes are written one behind the other. -/
theorem foldlM_append {α : Type} {encode : α → Outcome ε Bytes} {wire : α → Bytes} {items : List α}
    (each : ∀ item ∈ items, encode item = .ok (wire item)) (front : Bytes) :
    items.foldlM (fun pkt item => do return pkt ++ (← encode item)) front =
      (.ok (front ++ items.flatMap wire) : Outcome ε Bytes) := by
  induction items generalizing front with
  | nil => simp
  | cons item rest ih =>
    have others := ih (fun other member => each other (.tail _ member)) (front ++ wire item)
    rw [foldlM_cons, each item mem_cons_self, Outcome.ok_bind, Outcome.pure_eq, Outcome.ok_bind,
      others, flatMap_cons, append_assoc]

theorem copyAt_length {result : Bytes}
    (copied : (copyAt buf position data : Outcome ε Bytes) = .ok result) :
    result.length = buf.length := by
  unfold copyAt at copied
  split at copied
  · cases copied
    simp only [length_append, length_take, length_drop]
    omega
  · cases copied

end FlexSwitch.Go
