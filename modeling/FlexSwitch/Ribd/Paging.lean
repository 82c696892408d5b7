import FlexSwitch.Go.Loop
import FlexSwitch.Go.Map

/-! Paging through the routes that are redistributed to a protocol. -/

namespace FlexSwitch.Ribd

open Go List Outcome

/-- A conversion to the 32-bit integers of the interface, which wraps. -/
def int32 (value : Int) : Int := value.bmod (2 ^ 32)

theorem int32_of_small {value : Int} (low : -2 ^ 31 ≤ value) (high : value < 2 ^ 31) :
    int32 value = value := by
  -- The wrap leaves alone what lies in the middle of its range.
  apply Int.bmod_eq_of_le <;> omega

theorem int32_lt (value : Int) : int32 value < 2 ^ 31 := by
  have bound := @Int.bmod_lt value (2 ^ 32) (by decide)
  simp only [int32]
  omega

theorem int32_le_self {size : Nat} : int32 size ≤ size := by
  -- A length that is too large comes out smaller, by whole turns of the range.
  have bound := int32_lt size
  by_cases small : (size : Int) < 2 ^ 31
  · rw [int32_of_small (by omega) small]
  · omega

/-- A page of routes, each given by its place in the list it points into. -/
structure RoutesGetInfo where
  startIdx : Int
  endIdx : Int
  count : Int
  more : Bool
  routeList : List Nat
deriving DecidableEq, Repr

/-- Where the loop that fills a page stands. -/
structure PageFill where
  i : Int
  validCount : Int
  returnRoutes : List Nat

/-- One round: the end of the list is looked for before the end of the page. -/
def pageRound (size : Nat) (fromIndex rcount : Int) (fill : PageFill) :
    Outcome Unit (Round PageFill (Bool × PageFill)) :=
  let idx := int32 (fill.i + fromIndex)
  if int32 size ≤ idx then .ok (.stop (false, fill))
  else if fill.validCount = rcount then .ok (.stop (true, fill))
  else if idx < 0 then .panic
  else .ok (.next ⟨int32 (fill.i + 1), int32 (fill.validCount + 1),
    fill.returnRoutes ++ [idx.toNat]⟩)

section

variable {Routes : Type} (fuel : Nat) (redistributeRouteMap : GoMap String (List Routes))
  (srcProtocol : String)

/-- The index to go on from is computed from a variable that is never set. -/
def getBulkRoutesForProtocol (fromIndex rcount : Int) : Outcome Unit RoutesGetInfo :=
  match redistributeRouteMap.lookup srcProtocol with
  | none => .ok ⟨0, 0, 0, false, []⟩
  | some routes => do
    let toIndex : Int := 0
    let (moreRoutes, fill) ← loop (pageRound routes.length fromIndex rcount) fuel ⟨0, 0, []⟩
    return ⟨fromIndex, int32 (toIndex + 1), fill.validCount, moreRoutes, fill.returnRoutes⟩

/-- One round of a client: fetch a page, and go on from where it says while there is more. -/
def clientRound (count : Int) (state : Int × List Nat) :
    Outcome Unit (Round (Int × List Nat) (List Nat)) := do
  let info ← getBulkRoutesForProtocol fuel redistributeRouteMap srcProtocol state.1 count
  if info.more then return .next (info.endIdx, state.2 ++ info.routeList)
  else return .stop (state.2 ++ info.routeList)

/-- Everything a client gets that starts at the first route. -/
def getRoutes (count : Int) : Outcome Unit (List Nat) :=
  loop (clientRound fuel redistributeRouteMap srcProtocol count) fuel (0, [])

/-- More fuel changes nothing once the client has what it asked for. -/
theorem getRoutes_steady (count : Int) :
    Steady fun fuel => getRoutes fuel redistributeRouteMap srcProtocol count := by
  -- Only the loop that fills a page spends fuel within a round.
  have rounds : ∀ state, Steady fun fuel =>
      clientRound fuel redistributeRouteMap srcProtocol count state := by
    intro state
    refine Steady.bind ?_ fun _ => steady_const _
    simp only [getBulkRoutesForProtocol]
    cases redistributeRouteMap.lookup srcProtocol with
    | none => exact steady_const _
    | some routes => exact Steady.bind (steady_plainLoop _ _) fun _ => steady_const _
  exact steady_loop rounds _

end

section Pages

variable {size : Nat} {fromIndex rcount : Int}

/-- The loop fills the page with the places that follow the index it starts from. -/
theorem pageLoop_fills (first : 0 ≤ fromIndex) (room : fromIndex + rcount < 2 ^ 31)
    {filled fuel : Nat} (within : filled ≤ rcount)
    (before : filled = 0 ∨ fromIndex + filled ≤ int32 size)
    (enough : rcount < filled + fuel) :
    ∃ final, loop (pageRound size fromIndex rcount) fuel
        ⟨filled, filled, range' fromIndex.toNat filled⟩ = .ok final ∧
      final.1 = decide (fromIndex + rcount < int32 size) ∧
      final.2.returnRoutes = range' fromIndex.toNat
        (max filled (min rcount (int32 size - fromIndex)).toNat) := by
  induction fuel generalizing filled with
  | zero => omega
  | succ fuel ih =>
    have here : int32 (filled + fromIndex) = filled + fromIndex :=
      int32_of_small (by omega) (by omega)
    by_cases past : int32 size ≤ filled + fromIndex
    · -- The list has ended, with the page full or not.
      refine ⟨_, loop_stop (by rw [pageRound, here, if_pos past]) fuel, ?_, ?_⟩
      · have behind : ¬ fromIndex + rcount < int32 size := by omega
        simp [behind]
      · have taken : max filled (min rcount (int32 size - fromIndex)).toNat = filled := by omega
        rw [taken]
    · by_cases full : (filled : Int) = rcount
      · refine ⟨_, loop_stop (by rw [pageRound, here, if_neg past, if_pos full]) fuel, ?_, ?_⟩
        · have ahead : fromIndex + rcount < int32 size := by omega
          simp [ahead]
        · have taken : max filled (min rcount (int32 size - fromIndex)).toNat = filled := by omega
          rw [taken]
      · -- One more place is taken, and the counts stay in step.
        have again : int32 ((filled : Int) + 1) = ((filled + 1 : Nat) : Int) := by
          rw [int32_of_small (by omega) (by omega)]
          omega
        have place : ((filled : Int) + fromIndex).toNat = fromIndex.toNat + 1 * filled := by omega
        have advanced : pageRound size fromIndex rcount
            ⟨filled, filled, range' fromIndex.toNat filled⟩ = .ok (.next
              ⟨(filled + 1 : Nat), (filled + 1 : Nat), range' fromIndex.toNat (filled + 1)⟩) := by
          rw [pageRound, here, if_neg past, if_neg full, if_neg (by omega), again, place,
            range'_concat]
        obtain ⟨final, ended, more, places⟩ := @ih (filled + 1) (by omega) (by omega) (by omega)
        have ahead : filled + 1 ≤ (min rcount (int32 size - fromIndex)).toNat := by
          rw [Int.le_toNat (by omega)]
          omega
        rw [max_eq_right ahead] at places
        rw [max_eq_right (Nat.le_of_succ_le ahead)]
        exact ⟨final, (loop_next advanced fuel).trans ended, more, places⟩

variable {Routes : Type} {redistributeRouteMap : GoMap String (List Routes)} {srcProtocol : String}
  {routes : List Routes}

/-- A page holds as many routes as it may, and there is more where the list goes on behind it. -/
theorem getBulkRoutes_page (listed : redistributeRouteMap.lookup srcProtocol = some routes)
    (first : 0 ≤ fromIndex) (room : fromIndex + rcount < 2 ^ 31) (positive : 0 ≤ rcount) {fuel : Nat}
    (enough : rcount < fuel) :
    ∃ info, getBulkRoutesForProtocol fuel redistributeRouteMap srcProtocol fromIndex rcount =
        .ok info ∧ info.endIdx = 1 ∧
      info.more = decide (fromIndex + rcount < int32 routes.length) ∧
      info.routeList = range' fromIndex.toNat
        (min rcount (int32 routes.length - fromIndex)).toNat := by
  obtain ⟨final, ended, more, places⟩ := @pageLoop_fills routes.length fromIndex rcount first room
    0 fuel (by omega) (.inl rfl) (by omega)
  refine ⟨⟨fromIndex, 1, final.2.validCount, final.1, final.2.returnRoutes⟩, ?_, rfl, more, ?_⟩
  · rw [getBulkRoutesForProtocol, listed]
    exact bind_eq_ok.mpr ⟨final, ended, rfl⟩
  · simpa using places

end Pages

section Clients

variable {Routes : Type} {redistributeRouteMap : GoMap String (List Routes)} {srcProtocol : String}
  {routes : List Routes} {count : Int} {fuel : Nat}
  (listed : redistributeRouteMap.lookup srcProtocol = some routes) (positive : 1 ≤ count)

include listed positive

/-- With everything on one page the client gets the list, as far as its length is seen. -/
theorem getRoutes_onePage (small : count < 2 ^ 31) (fits : int32 routes.length ≤ count)
    (enough : count < fuel) :
    getRoutes fuel redistributeRouteMap srcProtocol count =
      .ok (range (int32 routes.length).toNat) := by
  obtain ⟨info, fetched, _, more, places⟩ := @getBulkRoutes_page 0 count _ _ _ _ listed (by omega)
    (by omega) (by omega) fuel enough
  obtain ⟨fuel, rfl⟩ : ∃ rest, fuel = rest + 1 := ⟨fuel - 1, by omega⟩
  have last : info.more = false := by
    rw [more, decide_eq_false_iff_not]
    omega
  apply loop_stop
  have whole : (min count (int32 routes.length - 0)).toNat = (int32 routes.length).toNat := by omega
  rw [clientRound, fetched, ok_bind, last, places, whole, Int.toNat_zero,
    ← range_eq_range', if_neg (by decide), nil_append, pure_eq]

/-- Behind the first page the client goes on from the second route, whatever it has got. -/
theorem getRoutes_secondPage (long : count < int32 routes.length) (enough : count < fuel) :
    clientRound fuel redistributeRouteMap srcProtocol count (0, []) =
      .ok (.next (1, range count.toNat)) := by
  have small := int32_lt routes.length
  obtain ⟨info, fetched, last, more, places⟩ := @getBulkRoutes_page 0 count _ _ _ _ listed
    (by omega) (by omega) (by omega) fuel enough
  have again : info.more = true := by
    rw [more, decide_eq_true_iff]
    omega
  have whole : (min count (int32 routes.length - 0)).toNat = count.toNat := by omega
  rw [clientRound, fetched, ok_bind, again, last, places, whole, Int.toNat_zero,
    ← range_eq_range', if_pos rfl, nil_append, pure_eq]

/-- A list that goes on behind the second page is fetched for ever. -/
theorem getRoutes_hangs (long : 1 + count < int32 routes.length) (enough : count < fuel) :
    getRoutes fuel redistributeRouteMap srcProtocol count = .hang := by
  have small := int32_lt routes.length
  -- Each page says that there is more, and to go on from the second route.
  refine loop_hang (fun state => state.1 = 0 ∨ state.1 = 1) ?_ fuel (0, []) (.inl rfl)
  intro state start
  obtain ⟨info, fetched, last, more, _⟩ := @getBulkRoutes_page state.1 count _ _ _ _ listed
    (by omega) (by omega) (by omega) fuel enough
  have again : info.more = true := by
    rw [more, decide_eq_true_iff]
    omega
  refine ⟨(1, state.2 ++ info.routeList), ?_, .inr rfl⟩
  rw [clientRound, fetched, ok_bind, again, last]
  rfl

/-- With one route behind the first page, the second page starts over from the second route. -/
theorem getRoutes_twoPages (long : int32 routes.length = count + 1) (enough : count + 1 < fuel) :
    getRoutes fuel redistributeRouteMap srcProtocol count =
      .ok (range count.toNat ++ range' 1 count.toNat) := by
  have small := int32_lt routes.length
  obtain ⟨fuel, rfl⟩ : ∃ rest, fuel = rest + 2 := ⟨fuel - 2, by omega⟩
  obtain ⟨info, fetched, _, more, places⟩ := @getBulkRoutes_page 1 count _ _ _ _ listed (by omega)
    (by omega) (by omega) (fuel + 2) (by omega)
  have last : info.more = false := by
    rw [more, decide_eq_false_iff_not]
    omega
  have whole : (min count (int32 routes.length - 1)).toNat = count.toNat := by omega
  rw [getRoutes, loop_next (getRoutes_secondPage listed positive (by omega) (by omega))]
  apply loop_stop
  rw [clientRound, fetched, ok_bind, last, places, whole, Int.toNat_one,
    if_neg (by decide), pure_eq]

end Clients

/-- The second page repeats what the first one had, except where that was one route. -/
theorem twoPages_exact_iff {size pages : Nat} (positive : 1 ≤ size) :
    range size ++ range' 1 size = range pages ↔ size = 1 ∧ pages = 2 := by
  constructor
  · intro same
    have once := nodup_range (n := pages)
    rw [← same, nodup_append] at once
    have one : size = 1 := by
      -- Otherwise the second route is on both pages.
      by_contra
      exact once.2.2 1 (by simp; omega) 1 (by simp [mem_range']; omega) rfl
    subst one
    have lengths := congrArg length same
    simp at lengths
    exact ⟨rfl, lengths.symm⟩
  · rintro ⟨rfl, rfl⟩
    rfl

/-- Paging is exact where one page holds the list, and where two pages of one route do. -/
theorem getRoutes_exact_iff {Routes : Type} (redistributeRouteMap : GoMap String (List Routes))
    (srcProtocol : String) (count : Int) (positive : 1 ≤ count) (small : count < 2 ^ 31) :
    (∃ fuel, getRoutes fuel redistributeRouteMap srcProtocol count =
        .ok (List.range ((redistributeRouteMap.lookup srcProtocol).getD []).length)) ↔
      ((redistributeRouteMap.lookup srcProtocol).getD []).length ≤ count ∨
        count = 1 ∧ ((redistributeRouteMap.lookup srcProtocol).getD []).length = 2 := by
  cases listed : redistributeRouteMap.lookup srcProtocol with
  | none =>
    -- No list is an empty list, and the first page ends it.
    refine iff_of_true ⟨1, ?_⟩ (.inl (by simp; omega))
    simp [getRoutes, loop, clientRound, getBulkRoutesForProtocol, listed]
  | some routes =>
    have seen := @int32_le_self routes.length
    have bounded := int32_lt routes.length
    have steady := getRoutes_steady redistributeRouteMap srcProtocol count
    have enough : count + 1 < (count.toNat + 2 : Nat) := by omega
    simp only [Option.getD_some]
    obtain fits | next | far : int32 routes.length ≤ count ∨ int32 routes.length = count + 1 ∨
        1 + count < int32 routes.length := by omega
    · -- One page: all is well unless the length itself was cut.
      have fetched := getRoutes_onePage listed positive small fits (Int.lt_of_le_of_lt (by omega) enough)
      rw [steady.ok_iff fetched]
      constructor
      · intro same
        have lengths := congrArg length same
        simp only [length_range] at lengths
        exact .inl (by omega)
      · intro short
        have whole : int32 routes.length = routes.length :=
          int32_of_small (by omega) (by omega)
        rw [whole, Int.toNat_natCast]
    · have fetched := getRoutes_twoPages listed positive next enough
      rw [steady.ok_iff fetched, twoPages_exact_iff (by omega)]
      omega
    · -- Longer lists are never finished, and one page does not hold them.
      refine iff_of_false ?_ (by omega)
      rintro ⟨fuel, ended⟩
      have same := steady fuel (max fuel (count.toNat + 2)) (by omega) (by simp [ended])
      simp only [ended] at same
      rw [getRoutes_hangs listed positive far (by omega)] at same
      cases same

/-- Two routes in pages of one, where the second page starts at `EndIdx`, and four in one page. -/
theorem getRoutes_exact_pages :
    (∃ fuel, getRoutes fuel (AList.singleton "OSPF" [(), ()] : GoMap String (List Unit)) "OSPF" 1 =
      .ok (List.range 2)) ∧
    ∃ fuel, getRoutes fuel (AList.singleton "OSPF" [(), (), (), ()] : GoMap String (List Unit))
        "OSPF" 5 = .ok (List.range 4) :=
  ⟨(getRoutes_exact_iff (AList.singleton "OSPF" [(), ()]) "OSPF" 1 (by decide) (by decide)).mpr
      (.inr (by decide)),
    (getRoutes_exact_iff (AList.singleton "OSPF" [(), (), (), ()]) "OSPF" 5 (by decide)
      (by decide)).mpr (.inl (by decide))⟩

/-- Three routes in pages of two: the second route is sent twice and the pages are two. -/
theorem getRoutes_repeats :
    getRoutes 9 (AList.singleton "OSPF" [(), (), ()] : GoMap String (List Unit)) "OSPF" 2 =
      .ok [0, 1, 1, 2] := by
  decide

end FlexSwitch.Ribd
