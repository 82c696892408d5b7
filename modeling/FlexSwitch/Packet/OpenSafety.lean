import FlexSwitch.Packet.OpenScan

/-! Decoding an OPEN message: when it ends inside its bytes and accounts for all of them. -/

namespace FlexSwitch.Packet

open Go List Outcome

/-- The bytes of a parameter: type, length, and a value that its capabilities tile. -/
def ParamCovers (param : BGPOptParamCapability) (piece : Bytes) : Prop :=
  ∃ value, piece = param.type :: param.len :: value ∧ value.length = param.len.toNat ∧
    CapsTile param.value value

/-- The parameters tile the bytes that the message sets aside for them. -/
def BGPOpen.Tiled (pkt : Bytes) (message : BGPOpen) : Prop :=
  10 + message.optParamLen.toNat ≤ pkt.length ∧
    Tiles ParamCovers message.optParams ((pkt.drop 10).take message.optParamLen.toNat)

/-- The bytes start with a parameter of the only kind the decoder knows. -/
structure OptParamTaken (rest : Bytes) (base : BGPOptParamBase) : Prop where
  known : base.type = optParamTypeCapability
  taken : ParamTaken rest base

/-- Looking for a parameter stays inside the bytes. -/
structure OptParamSafe (rest : Bytes) : Prop where
  present : rest ≠ []
  capabilities : ∀ base, base.type = optParamTypeCapability → ParamHeader rest base →
    CapsSafe rest base.len

/-- What the decoder finds at a position, which it keeps in eight bits. -/
def seenAt (pkt : Bytes) (position : Nat) : Bytes := pkt.drop (position % 256)

/-- The positions the loop over the parameters comes to, were it not for the eight bits. -/
def ParamReached (pkt : Bytes) (len : UInt8) : Nat → Prop :=
  Walk (fun position base => OptParamTaken (seenAt pkt position) base)
    (fun base : BGPOptParamBase => base.totalLen.toNat) (10 + len.toNat) 10

/-- Everything the loop looks at is inside the bytes, and no parameter leaves it where it is. -/
def ParamsSafe (pkt : Bytes) (len : UInt8) : Prop :=
  ∀ position, ParamReached pkt len position → position < 10 + len.toNat →
    OptParamSafe (seenAt pkt position) ∧
      ∀ base, OptParamTaken (seenAt pkt position) base → base.len ≠ 254

/-- The bytes at the position are laid out like those the decoder takes for them. -/
structure Mirrored (pkt : Bytes) (position : Nat) (base : BGPOptParamBase) : Prop where
  header : (pkt.drop position).take 2 = [base.type, base.len]
  within : position + (base.len.toNat + 2) ≤ pkt.length
  capabilities : ∃ heads,
    Tiles CapCovers heads (((seenAt pkt position).drop 2).take base.len.toNat) ∧
    Tiles CapCovers heads ((pkt.drop (position + 2)).take base.len.toNat)

/-- If the loop arrives at the end, every parameter it took stands where the loop has counted. -/
def ParamsInPlace (pkt : Bytes) (len : UInt8) : Prop :=
  ParamReached pkt len (10 + len.toNat) →
    ∀ position, ParamReached pkt len position → position < 10 + len.toNat →
      ∀ base, OptParamTaken (seenAt pkt position) base →
        base.len ≠ 255 ∧ (256 ≤ position → Mirrored pkt position base)

section Parameters

variable {fuel : Nat} {pkt : Bytes} {len : UInt8} {cursor : ParamCursor}

theorem OptParamTaken.unique {rest : Bytes} {first second : BGPOptParamBase}
    (taken : OptParamTaken rest first) (again : OptParamTaken rest second) : first = second := by
  obtain ⟨_, same⟩ := taken.taken.header.present
  obtain ⟨_, other⟩ := again.taken.header.present
  rw [same] at other
  injection other with type others
  injection others with len _
  cases first
  cases second
  simp_all

/-- A parameter was read from the front of the bytes, and its capabilities tile its value. -/
structure ParamRead (rest : Bytes) (param : BGPOptParamCapability) : Prop where
  found : OptParamTaken rest param.toBGPOptParamBase
  within : 2 + param.len.toNat ≤ rest.length
  tiled : CapsTile param.value ((rest.drop 2).take param.len.toNat)

/-- The type byte chooses the decoder, and the capabilities decide the rest. -/
theorem optParam_decides (enough : 256 ≤ fuel) (rest : Bytes) :
    (getOptParam rest >>= fun _ => BGPOptParamCapability.decode fuel rest).Decides
      (∃ base, OptParamTaken rest base) (OptParamSafe rest) (ParamRead rest) := by
  cases rest with
  | nil =>
    refine ⟨?_, fun _ safe => absurd rfl safe.present, fun _ => rfl⟩
    intro present
    obtain ⟨base, found⟩ := present
    have long := found.taken.header.long
    simp at long
  | cons type body =>
    have head : ∀ base, ParamHeader (type :: body) base → base.type = type := by
      intro base header
      obtain ⟨_, same⟩ := header.present
      injection same with same _
      exact same.symm
    by_cases known : type = optParamTypeCapability
    · have chosen : getOptParam (type :: body) = .ok () := by simp [getOptParam, index, known]
      rw [chosen, ok_bind]
      refine .of_returns (BGPOptParamCapability.decode_ends enough) ?_ ?_ ?_
      · rw [BGPOptParamCapability.decode_returns enough]
        constructor
        · intro safe
          exact ⟨cons_ne_nil _ _, fun base _ header => safe base header⟩
        · intro safe base header
          exact safe.capabilities base ((head base header).trans known) header
      · intro present
        obtain ⟨base, found⟩ := present
        exact BGPOptParamCapability.decode_takes enough found.taken
      · intro param decoded
        obtain ⟨taken, within, tiled⟩ := BGPOptParamCapability.decode_ok (by omega) decoded
        have found : OptParamTaken (type :: body) param.toBGPOptParamBase :=
          ⟨(head _ taken.header).trans known, taken⟩
        exact ⟨⟨_, found⟩, found, within, tiled⟩
    · -- Other types are refused before their length is looked at.
      have refused : ∃ fault, getOptParam (type :: body) = .error fault := by
        simp [getOptParam, index, known]
      obtain ⟨fault, refused⟩ := refused
      rw [refused, error_bind]
      refine ⟨?_, fun _ _ => ⟨fault, rfl⟩, ?_⟩
      · intro present
        obtain ⟨base, found⟩ := present
        exact absurd ((head _ found.taken.header).symm.trans found.known) known
      · intro dangerous
        refine absurd ⟨cons_ne_nil _ _, ?_⟩ dangerous
        intro base right header
        exact absurd ((head _ header).symm.trans right) known

/-- The cursor behind a parameter that was read. -/
def ParamCursor.push (cursor : ParamCursor) (param : BGPOptParamCapability) : ParamCursor :=
  ⟨cursor.offset + param.totalLen, cursor.paramsLen - param.totalLen.toNat,
    cursor.optParams ++ [param]⟩

/-- A round with bytes left decodes one parameter and moves behind it. -/
theorem paramRound_decides (enough : 256 ≤ fuel) (left : 0 < cursor.paramsLen) :
    (paramRound fuel pkt cursor).Decides (∃ base, OptParamTaken (pkt.drop cursor.offset.toNat) base)
      (OptParamSafe (pkt.drop cursor.offset.toNat))
      fun round => ∃ param, ParamRead (pkt.drop cursor.offset.toNat) param ∧
        round = .next (cursor.push param) := by
  have decides := optParam_decides enough (pkt.drop cursor.offset.toNat)
  unfold paramRound
  rw [if_pos left]
  by_cases within : cursor.offset.toNat ≤ pkt.length
  · rw [sliceFrom_of_le within, ok_bind, ← bind_assoc]
    exact decides.map fun param found => ⟨param, found, rfl⟩
  · -- Behind the end there is nothing to choose a decoder by.
    have nothing : pkt.drop cursor.offset.toNat = [] := drop_of_length_le (by omega)
    rw [sliceFrom, if_neg within, nothing]
    refine ⟨?_, fun _ safe => absurd rfl safe.present, fun _ => rfl⟩
    intro present
    obtain ⟨base, found⟩ := present
    have long := found.taken.header.long
    simp at long

/-- How far the loop has counted. -/
def ParamCursor.position (len : UInt8) (cursor : ParamCursor) : Nat :=
  (10 + len.toNat - cursor.paramsLen).toNat

/-- What holds of the loop's state in every round. -/
structure ParamPlaced (len : UInt8) (cursor : ParamCursor) : Prop where
  counted : cursor.paramsLen ≤ len.toNat
  wrapped : cursor.offset.toNat = cursor.position len % 256
  summed : (cursor.optParams.map fun param => param.totalLen.toNat).sum + 10 = cursor.position len

theorem ParamPlaced.seen (placed : ParamPlaced len cursor) :
    seenAt pkt (cursor.position len) = pkt.drop cursor.offset.toNat := by
  rw [seenAt, placed.wrapped]

/-- The loop over the parameters of the message. -/
abbrev paramLoopStart (len : UInt8) : ParamCursor := ⟨10, len.toNat, []⟩

theorem paramLoopStart_position : (paramLoopStart len).position len = 10 := by
  simp [ParamCursor.position]

theorem paramLoopStart_placed : ParamPlaced len (paramLoopStart len) where
  counted := Int.le_refl _
  wrapped := by
    rw [paramLoopStart_position]
    rfl
  summed := paramLoopStart_position.symm

variable {param : BGPOptParamCapability} {later : ParamCursor}

/-- One more parameter keeps the state in place. -/
theorem ParamPlaced.next (placed : ParamPlaced len cursor)
    (same : later = cursor.push param) :
    ParamPlaced len later ∧ later.position len = cursor.position len + param.totalLen.toNat := by
  obtain ⟨counted, wrapped, summed⟩ := placed
  subst same
  have moved : (cursor.push param).position len = cursor.position len + param.totalLen.toNat := by
    unfold ParamCursor.position
    show (10 + (len.toNat : Int) - (cursor.paramsLen - param.totalLen.toNat)).toNat = _
    omega
  refine ⟨⟨?_, ?_, ?_⟩, moved⟩
  · show cursor.paramsLen - param.totalLen.toNat ≤ (len.toNat : Int)
    omega
  · rw [moved]
    show (cursor.offset + param.totalLen).toNat = _
    rw [UInt8.toNat_add, wrapped]
    omega
  · rw [moved]
    simp only [ParamCursor.push, map_append, map_cons, map_nil, sum_append, sum_cons, sum_nil]
    omega

theorem paramRound_next (enough : 256 ≤ fuel)
    (advanced : paramRound fuel pkt cursor = .ok (.next later)) :
    0 < cursor.paramsLen ∧ ∃ param, ParamRead (pkt.drop cursor.offset.toNat) param ∧
      later = cursor.push param := by
  by_cases left : 0 < cursor.paramsLen
  · obtain ⟨_, param, found, same⟩ := (paramRound_decides enough left).of_ok advanced
    cases same
    exact ⟨left, param, found, rfl⟩
  · -- With no bytes left the round stops or fails.
    unfold paramRound at advanced
    rw [if_neg left] at advanced
    split at advanced <;> cases advanced

theorem Reaches.paramPlaced (enough : 256 ≤ fuel)
    (reached : Reaches (paramRound fuel pkt) (paramLoopStart len) cursor) :
    ParamPlaced len cursor := by
  refine reached.invariant _ paramLoopStart_placed ?_
  intro state later placed advanced
  obtain ⟨_, param, _, same⟩ := paramRound_next enough advanced
  exact (placed.next same).1

/-- The loop over the parameters scans them up to the length that the message gives. -/
theorem paramRound_scans (enough : 256 ≤ fuel) :
    Scans (paramRound fuel pkt) (paramLoopStart len) (ParamCursor.position len) 10 (10 + len.toNat)
      (fun position base => OptParamTaken (seenAt pkt position) base)
      (fun base => base.totalLen.toNat) (fun position => OptParamSafe (seenAt pkt position)) where
  begins := paramLoopStart_position
  inside state reached before := by
    have placed := Reaches.paramPlaced enough reached
    have counted := placed.counted
    have left : 0 < state.paramsLen := by
      unfold ParamCursor.position at before
      omega
    rw [placed.seen]
    refine (paramRound_decides enough left).weaken ?_
    intro round ⟨param, read, same⟩
    exact ⟨_, param.toBGPOptParamBase, same, read.found, (placed.next rfl).2⟩
  ends state reached here := by
    have counted := (Reaches.paramPlaced enough reached).counted
    unfold ParamCursor.position at here
    rw [paramRound, if_neg (by omega), if_neg (by omega)]
    exact ⟨_, rfl⟩
  overrun state reached behind := by
    unfold ParamCursor.position at behind
    rw [paramRound, if_neg (by omega), if_pos (by omega)]
    exact ⟨_, rfl⟩
  unique position item other read again := by
    rw [read.unique again]

variable {base : BGPOptParamBase}

/-- A length whose sum with the two bytes in front fits in eight bits. -/
theorem BGPOptParamBase.totalLen_toNat (small : base.len.toNat < 254) :
    base.totalLen.toNat = base.len.toNat + 2 := by
  rw [BGPOptParamBase.totalLen, UInt8.toNat_add]
  show (base.len.toNat + 2) % 256 = _
  omega

/-- The lengths that do not fit are two. -/
theorem len_lt_of_ne {len : UInt8} (first : len ≠ 254) (second : len ≠ 255) : len.toNat < 254 := by
  have small := len.toNat_lt
  have notFirst : len.toNat ≠ 254 := fun same => first (UInt8.toNat_inj.mp same)
  have notSecond : len.toNat ≠ 255 := fun same => second (UInt8.toNat_inj.mp same)
  omega

/-- A parameter without a length in eight bits leaves the loop where it is. -/
theorem totalLen_eq_zero (same : base.len = 254) : base.totalLen.toNat = 0 := by
  rw [BGPOptParamBase.totalLen, same]
  rfl

theorem ParamsSafe.moving (safe : ParamsSafe pkt len) (position : Nat) (base : BGPOptParamBase)
    (walked : ParamReached pkt len position) (inside : position < 10 + len.toNat)
    (found : OptParamTaken (seenAt pkt position) base) : 0 < base.totalLen.toNat := by
  have sized := (safe position walked inside).2 base found
  have notStall : base.len.toNat ≠ 254 := fun same => sized (UInt8.toNat_inj.mp same)
  have small := base.len.toNat_lt
  rw [BGPOptParamBase.totalLen, UInt8.toNat_add]
  show 0 < (base.len.toNat + 2) % 256
  omega

/-- The loop comes back exactly when what it looks at is safe and has a size. -/
theorem paramLoop_returns (enough : 256 ≤ fuel) :
    (loop (paramRound fuel pkt) fuel (paramLoopStart len)).Returns ↔ ParamsSafe pkt len := by
  have small := len.toNat_lt
  constructor
  · intro returned position walked inside
    refine ⟨(paramRound_scans enough).safe_of_returns returned walked inside, ?_⟩
    intro base found stall
    -- Such a parameter would be taken for ever.
    have stuck := (paramRound_scans enough).stalls walked inside found (totalLen_eq_zero stall) fuel
    rw [stuck] at returned
    exact returned
  · intro safe
    refine ((paramRound_scans enough).returns_iff safe.moving (by omega)).mpr ?_
    exact fun position walked inside => (safe position walked inside).1

/-- A capability can be told from the front of the bytes. -/
theorem capCovers_front {left right : BGPCapabilityBase} {piece other rest more : Bytes}
    (covered : CapCovers left piece) (also : CapCovers right other)
    (same : piece ++ rest = other ++ more) : left = right ∧ piece = other := by
  obtain ⟨body, rfl, sized⟩ := covered
  obtain ⟨second, rfl, alsoSized⟩ := also
  injection same with types others
  injection others with lens bodies
  have bases : left = right := by
    cases left
    cases right
    simp_all
  subst bases
  -- The bodies are equally long, so the rests begin at the same place.
  rw [(append_inj bodies (by rw [sized, alsoSized])).1]
  exact ⟨rfl, rfl⟩

/-- The capabilities of some bytes have one list of types and lengths only. -/
theorem capTiles_unique {heads others : List BGPCapabilityBase} {whole : Bytes}
    (tiled : Tiles CapCovers heads whole) (again : Tiles CapCovers others whole) :
    heads = others := by
  refine tiled.unique ?_ (fun _ _ _ _ _ _ => capCovers_front) again
  intro base piece covered
  obtain ⟨_, rfl, _⟩ := covered
  exact cons_ne_nil _ _

variable {position : Nat}

theorem paramCovers_of (header : (pkt.drop position).take 2 = [param.type, param.len])
    (within : position + (param.len.toNat + 2) ≤ pkt.length)
    (tiled : CapsTile param.value ((pkt.drop (position + 2)).take param.len.toNat)) :
    ParamCovers param ((pkt.drop position).take (param.len.toNat + 2)) := by
  refine ⟨_, ?_, ?_, tiled⟩
  · rw [add_comm, take_add, header, drop_drop]
    rfl
  · rw [length_take, length_drop]
    omega

/-- What a round has read covers the bytes at the position, if it is in place. -/
theorem ParamRead.covers (read : ParamRead (seenAt pkt position) param)
    (inPlace : 256 ≤ position → Mirrored pkt position param.toBGPOptParamBase) :
    position + (param.len.toNat + 2) ≤ pkt.length ∧
      ParamCovers param ((pkt.drop position).take (param.len.toNat + 2)) := by
  obtain ⟨found, within, tiled⟩ := read
  by_cases wrapped : 256 ≤ position
  · -- Elsewhere in the packet the same layout has to stand at the position too.
    obtain ⟨header, fits, heads, seen, real⟩ := inPlace wrapped
    rw [capTiles_unique seen tiled] at real
    exact ⟨fits, paramCovers_of header fits real⟩
  · have here : seenAt pkt position = pkt.drop position := by
      rw [seenAt, Nat.mod_eq_of_lt (by omega)]
    rw [here] at found within tiled
    rw [length_drop] at within
    rw [drop_drop] at tiled
    obtain ⟨body, same⟩ := found.taken.header.present
    refine ⟨by omega, paramCovers_of ?_ (by omega) tiled⟩
    rw [same]
    rfl

/-- Parameters that are in place tile the bytes up to where the loop is. -/
theorem Reaches.paramsTiled (enough : 256 ≤ fuel) (long : 10 ≤ pkt.length)
    (safe : ParamsSafe pkt len) (inPlace : ParamsInPlace pkt len)
    (arrived : ParamReached pkt len (10 + len.toNat))
    (reached : Reaches (paramRound fuel pkt) (paramLoopStart len) cursor) :
    cursor.position len ≤ pkt.length ∧
      Tiles ParamCovers cursor.optParams ((pkt.drop 10).take (cursor.position len - 10)) := by
  induction reached with
  | refl =>
    rw [paramLoopStart_position]
    exact ⟨long, .nil⟩
  | step before advanced ih =>
    rename_i state later
    obtain ⟨_, tiled⟩ := ih
    have placed := Reaches.paramPlaced enough before
    have walked : ParamReached pkt len (state.position len) :=
      (paramRound_scans enough).walk before
    obtain ⟨left, param, read, same⟩ := paramRound_next enough advanced
    rw [← placed.seen] at read
    have inside : state.position len < 10 + len.toNat := by
      have counted := placed.counted
      unfold ParamCursor.position
      omega
    -- The parameter is neither of the two that wrap, so it moves the loop by its whole length.
    obtain ⟨notWrapped, mirrored⟩ := inPlace arrived _ walked inside _ read.found
    have small := len_lt_of_ne ((safe _ walked inside).2 _ read.found) notWrapped
    obtain ⟨fits, covered⟩ := read.covers mirrored
    have begun := placed.summed
    rw [(placed.next same).2]
    have total : param.totalLen.toNat = param.len.toNat + 2 :=
      BGPOptParamBase.totalLen_toNat small
    rw [total]
    refine ⟨fits, ?_⟩
    rw [same]
    exact tiled.extend (by omega) covered

theorem Reaches.optParams_grow (enough : 256 ≤ fuel)
    (reached : Reaches (paramRound fuel pkt) cursor later) :
    ∃ more, later.optParams = cursor.optParams ++ more := by
  induction reached with
  | refl => exact ⟨[], (append_nil _).symm⟩
  | step _ advanced ih =>
    obtain ⟨more, grown⟩ := ih
    obtain ⟨_, param, _, same⟩ := paramRound_next enough advanced
    refine ⟨more ++ [param], ?_⟩
    rw [same, ← append_assoc, ← grown]
    rfl

variable {optParams : List BGPOptParamCapability}

/-- The parameter found at a position the loop comes to is in the list the loop ends with. -/
theorem ParamReached.recorded (enough : 256 ≤ fuel)
    (ended : loop (paramRound fuel pkt) fuel (paramLoopStart len) = .ok optParams)
    (walked : ParamReached pkt len position) (inside : position < 10 + len.toNat)
    (found : OptParamTaken (seenAt pkt position) base) :
    ∃ before param after, optParams = before ++ param :: after ∧
      (before.map fun param => param.totalLen.toNat).sum + 10 = position ∧
      param.toBGPOptParamBase = base ∧
      CapsTile param.value (((seenAt pkt position).drop 2).take param.len.toNat) := by
  obtain ⟨state, reached, here⟩ := (paramRound_scans enough).reaches walked
  have placed := Reaches.paramPlaced enough reached
  subst here
  obtain ⟨later, advanced, _⟩ := (paramRound_scans enough).takes reached inside found
  obtain ⟨_, param, ⟨again, _, tiled⟩, same⟩ := paramRound_next enough advanced
  rw [← placed.seen] at again tiled
  -- The rest of the run starts behind this parameter and keeps it.
  obtain ⟨left, _, resumed⟩ := (Reaches.step reached advanced).resume (by rw [ended]; simp)
  obtain ⟨last, rest, stopped⟩ := loop_eq_ok (resumed.symm.trans ended)
  obtain ⟨more, grown⟩ := Reaches.optParams_grow enough rest
  refine ⟨state.optParams, param, more, ?_, placed.summed, again.unique found, tiled⟩
  have final : optParams = last.optParams := by
    unfold paramRound at stopped
    split at stopped
    · simp only [bind_eq_ok] at stopped
      obtain ⟨_, _, _, _, _, _, built⟩ := stopped
      cases built
    · split at stopped
      · cases stopped
      · cases stopped
        rfl
  rw [final, grown, same, ParamCursor.push, append_assoc]
  rfl

/-- A recorded parameter is no longer than all the bytes set aside. -/
theorem recorded_small (tiled : Tiles ParamCovers optParams ((pkt.drop 10).take len.toNat))
    (member : param ∈ optParams) : param.len.toNat < 254 := by
  have small := len.toNat_lt
  obtain ⟨piece, ⟨value, rfl, sized, _⟩, short⟩ := tiled.length_le member
  simp only [length_cons, length_take, sized] at short
  omega

/-- What a recorded parameter covers stands where the loop has counted. -/
theorem recorded_covers {before after : List BGPOptParamCapability}
    (tiled : Tiles ParamCovers optParams ((pkt.drop 10).take len.toNat))
    (listed : optParams = before ++ param :: after)
    (counted : (before.map fun param => param.totalLen.toNat).sum + 10 = position) :
    ParamCovers param ((pkt.drop position).take (param.len.toNat + 2)) := by
  have size : ∀ param piece, ParamCovers param piece → piece.length = param.len.toNat + 2 := by
    intro param piece covered
    obtain ⟨value, rfl, sized, _⟩ := covered
    simp [sized]
  -- None of the parameters before it is long enough for its size to wrap.
  have same : (before.map fun param => param.len.toNat + 2) =
      before.map fun param => param.totalLen.toNat := by
    apply map_congr_left
    intro other member
    have listedToo : other ∈ optParams := by
      rw [listed]
      exact mem_append_left _ member
    exact (BGPOptParamBase.totalLen_toNat (recorded_small tiled listedToo)).symm
  rw [listed] at tiled
  have covered := tiled.piece size
  have long := size _ _ covered
  rw [same] at covered long
  rw [drop_take, take_take, drop_drop, add_comm 10, counted] at covered long
  rw [length_take] at long
  -- The piece is complete, so cutting at the end of the bytes set aside took nothing from it.
  have whole : min (param.len.toNat + 2)
      (len.toNat - (before.map fun param => param.totalLen.toNat).sum) = param.len.toNat + 2 := by
    omega
  rw [whole] at covered
  exact covered

/-- Parameters that tile the bytes are in place. -/
theorem paramsInPlace_of_tiles (enough : 256 ≤ fuel)
    (ended : loop (paramRound fuel pkt) fuel (paramLoopStart len) = .ok optParams)
    (tiled : Tiles ParamCovers optParams ((pkt.drop 10).take len.toNat)) :
    ParamsInPlace pkt len := by
  intro _ position walked inside base found
  obtain ⟨before, param, after, listed, counted, rfl, seen⟩ :=
    ParamReached.recorded enough ended walked inside found
  have small : param.len.toNat < 254 := by
    refine recorded_small tiled ?_
    rw [listed]
    exact mem_append_right _ mem_cons_self
  refine ⟨?_, fun _ => ?_⟩
  · intro wrapped
    rw [wrapped] at small
    exact absurd small (by decide)
  · obtain ⟨value, same, sized, real⟩ := recorded_covers tiled listed counted
    have long := congrArg length same
    simp only [length_take, length_drop, length_cons, sized] at long
    -- Cutting the parameter behind its header gives the header and the value.
    have front := congrArg (take 2) same
    rw [take_take, min_eq_left (by omega)] at front
    have rest := congrArg (drop 2) same
    rw [drop_take, Nat.add_sub_cancel, drop_drop] at rest
    refine ⟨front, by omega, param.value.map BGPCapability.base, seen, ?_⟩
    rw [rest]
    exact real

/-- The parameters are recorded as a tiling whenever they are in place. -/
theorem paramLoop_tiles (enough : 256 ≤ fuel) (long : 10 ≤ pkt.length)
    (safe : ParamsSafe pkt len) (inPlace : ParamsInPlace pkt len)
    (ended : loop (paramRound fuel pkt) fuel (paramLoopStart len) = .ok optParams) :
    10 + len.toNat ≤ pkt.length ∧ Tiles ParamCovers optParams ((pkt.drop 10).take len.toNat) := by
  obtain ⟨last, reached, here, stopped⟩ := (paramRound_scans enough).of_ok ended
  have arrived : ParamReached pkt len (10 + len.toNat) := by
    rw [← here]
    exact (paramRound_scans enough).walk reached
  obtain ⟨within, tiled⟩ := Reaches.paramsTiled enough long safe inPlace arrived reached
  rw [here] at within tiled
  rw [Nat.add_sub_cancel_left] at tiled
  have counted := (Reaches.paramPlaced enough reached).counted
  unfold ParamCursor.position at here
  rw [paramRound, if_neg (by omega), if_neg (by omega)] at stopped
  cases stopped
  exact ⟨within, tiled⟩

end Parameters

section Message

/-- The length of the optional parameters, as the packet gives it. -/
def optParamLenOf (pkt : Bytes) : UInt8 := pkt.getD 9 0

/-- The fixed part of ten bytes is read whole, and the loop over the parameters does the rest. -/
theorem BGPOpen.decode_eq {pkt : Bytes} (long : 10 ≤ pkt.length) :
    ∃ version myAS holdTime bgpId, ∀ fuel, BGPOpen.decode fuel pkt =
      loop (paramRound fuel pkt) fuel (paramLoopStart (optParamLenOf pkt)) >>= fun optParams =>
        .ok ⟨version, myAS, holdTime, bgpId, optParamLenOf pkt, optParams⟩ := by
  match pkt, long with
  | b0 :: b1 :: b2 :: b3 :: b4 :: b5 :: b6 :: b7 :: b8 :: b9 :: rest, _ =>
    refine ⟨b0, (UInt16.ofNat (b1.toNat * 256 + b2.toNat)).toUInt32,
      UInt16.ofNat (b3.toNat * 256 + b4.toNat), [b5, b6, b7, b8], ?_⟩
    intro fuel
    simp [BGPOpen.decode, index, slice, uint16, optParamLenOf]

/-- More fuel never changes what decoding an OPEN message comes to. -/
theorem steady_openDecode (pkt : Bytes) : Steady fun fuel => BGPOpen.decode fuel pkt := by
  -- Only the loops spend fuel: over families, over capabilities, and over parameters.
  have addPath : ∀ rest, Steady fun fuel => BGPCapAddPath.decode fuel rest := fun rest =>
    Steady.after fun _ => steady_plainLoop _ _
  have capability : ∀ rest, Steady fun fuel => BGPCapability.decode fuel rest := fun rest =>
    Steady.after fun _ =>
      Steady.ite (steady_const _) <| Steady.ite (steady_const _) <|
        Steady.ite ((addPath rest).bind fun _ => steady_const _) (steady_const _)
  have capRounds : ∀ base rest cursor, Steady fun fuel => capRound fuel base rest cursor :=
    fun base rest cursor => Steady.ite
      (Steady.after fun _ => (capability _).bind fun _ => steady_const _)
      (steady_const _)
  have param : ∀ rest, Steady fun fuel => BGPOptParamCapability.decode fuel rest := fun rest =>
    Steady.after fun base => steady_loop (capRounds base rest) _
  have paramRounds : ∀ cursor, Steady fun fuel => paramRound fuel pkt cursor := fun cursor =>
    Steady.ite (Steady.after fun _ => Steady.after fun _ =>
      (param _).bind fun _ => steady_const _) (steady_const _)
  exact Steady.after fun _ => Steady.after fun _ =>
    Steady.after fun _ => Steady.after fun _ =>
    Steady.after fun _ => Steady.after fun _ =>
    Steady.after fun _ =>
      (steady_loop paramRounds _).bind fun _ => steady_const _

/-- A budget that gave an answer may be raised to one that is enough for every loop. -/
theorem BGPOpen.decode_raise {fuel : Nat} {pkt : Bytes} (ended : BGPOpen.decode fuel pkt ≠ .hang) :
    BGPOpen.decode (max fuel 256) pkt = BGPOpen.decode fuel pkt :=
  steady_openDecode pkt fuel _ (le_max_left _ _) ended

/-- Decoding comes back, and what it accepts is tiled by the recorded parameters. -/
def OpenDecodesTiled (pkt : Bytes) : Prop :=
  (∃ fuel, (BGPOpen.decode fuel pkt).Returns) ∧
    ∀ fuel message, BGPOpen.decode fuel pkt = .ok message → message.Tiled pkt

/-- Decoding an OPEN message ends in range with a tiling exactly for safe packets in place. -/
theorem open_decode_tiles_iff (pkt : Bytes) (long : 10 ≤ pkt.length) : OpenDecodesTiled pkt ↔
      ParamsSafe pkt (optParamLenOf pkt) ∧ ParamsInPlace pkt (optParamLenOf pkt) := by
  obtain ⟨version, myAS, holdTime, bgpId, decode_eq⟩ := BGPOpen.decode_eq long
  constructor
  · intro ⟨⟨fuel, returned⟩, tiled⟩
    have enough : 256 ≤ max fuel 256 := le_max_right _ _
    rw [← BGPOpen.decode_raise ((returns_iff _).mp returned).2, decode_eq, bind_returns] at returned
    refine ⟨(paramLoop_returns enough).mp returned.1, ?_⟩
    intro arrived
    obtain ⟨optParams, ended⟩ := (paramRound_scans enough).succeeds
      ((returns_iff _).mp returned.1).2 arrived
    have accepted := decode_eq (max fuel 256)
    rw [ended, ok_bind] at accepted
    exact paramsInPlace_of_tiles enough ended (tiled _ _ accepted).2 arrived
  · intro ⟨safe, inPlace⟩
    refine ⟨⟨256, ?_⟩, ?_⟩
    · rw [decode_eq, bind_returns]
      exact ⟨(paramLoop_returns (le_refl _)).mpr safe, fun _ _ => trivial⟩
    · intro fuel message accepted
      rw [← BGPOpen.decode_raise (by rw [accepted]; simp), decode_eq, bind_eq_ok]
        at accepted
      obtain ⟨optParams, ended, built⟩ := accepted
      cases built
      exact paramLoop_tiles (le_max_right _ _) long safe inPlace ended

/-- Ten bytes that announce one more for optional parameters. -/
def announcingOpen : Bytes := [4, 0, 1, 0, 90, 10, 0, 0, 1, 1]

/-- Nothing can be looked at where the parameters are to begin. -/
theorem open_decode_announcing_not_tiled :
    10 ≤ announcingOpen.length ∧ ¬ OpenDecodesTiled announcingOpen := by
  have long : 10 ≤ announcingOpen.length := by decide
  refine ⟨long, ?_⟩
  rw [open_decode_tiles_iff announcingOpen long]
  intro ⟨safe, _⟩
  exact (safe 10 .start (by decide)).1.present rfl

/-- The decoder indexes behind the end of the packet. -/
theorem open_decode_announcing_panics : BGPOpen.decode 2 announcingOpen = .panic := by
  decide

end Message

end FlexSwitch.Packet
