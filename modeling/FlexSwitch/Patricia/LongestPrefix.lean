import FlexSwitch.Patricia.Calls

/-! The lookup of the longest stored key that a query begins with. -/

namespace FlexSwitch.Patricia

open Go Memory List

variable {ε α : Type} {mem : Memory α} {root ref child : TrieRef} {query path : Bytes}

/-- The comparison of what is left of a node with what is left of the query. -/
def notGreater (leftover prefixLeftover : Bytes) : Bool :=
  (leftover.zip prefixLeftover).all fun pair => pair.1 ≤ pair.2

/-- What the lookup does at a node after it matched as much of it as it could. -/
inductive Branch where
  | stop
  | answer
  | goOn
deriving DecidableEq, Repr

/-- The branch for a node of which only a part matched, or all of it. -/
def mismatch (bytes prefixLeftover : Bytes) (common prefixlen : Nat) : Branch :=
  if common < bytes.length then
    if common = 0 ∧ prefixlen = 0 then .stop
    else if prefixLeftover.length ≠ (bytes.drop common).length then .stop
    else if notGreater (bytes.drop common) prefixLeftover then .answer
    else .goOn
  else .goOn

namespace Memory

/-- The child that begins with the byte, or else the last one that begins with a smaller byte. -/
def nextWithLongestPrefixMatch (mem : Memory α) (b : UInt8) :
    List TrieRef → Option TrieRef → Option TrieRef
  | [], longest => longest
  | child :: rest, longest =>
    match mem.bytes child with
    | [] => nextWithLongestPrefixMatch mem b rest longest
    | first :: _ =>
      if first = b then some child
      else if first < b ∧ longest.all (fun other => (mem.bytes other).headD 0 < first) then
        nextWithLongestPrefixMatch mem b rest (some child)
      else nextWithLongestPrefixMatch mem b rest longest

/-- The loop of `GetLongestPrefixNode`, with what follows it. -/
def longestLoop (mem : Memory α) (trie : TrieRef) (inpPrefix : Bytes) :
    Nat → TrieRef → Bytes → Nat → Nat → Outcome ε (Option α)
  | 0, _, _, _, _ => .hang
  | fuel + 1, root, rest, prefixlen, lastNonNilPrefix =>
    if rest.length < (mem.bytes root).length then mem.get trie (inpPrefix.take lastNonNilPrefix)
    else do
      let common := longestCommonPrefixLength (mem.bytes root) rest
      let prefixlen := prefixlen + common
      let node ← mem.get trie (inpPrefix.take prefixlen)
      let lastNonNilPrefix := if node.isSome then prefixlen else lastNonNilPrefix
      match rest.drop common with
      | [] => mem.get trie (inpPrefix.take lastNonNilPrefix)
      | b :: more =>
        match mismatch (mem.bytes root) (inpPrefix.drop prefixlen) common prefixlen with
        | .stop => mem.get trie (inpPrefix.take lastNonNilPrefix)
        | .answer => return (mem.trie root).item
        | .goOn =>
          match mem.nextWithLongestPrefixMatch b (mem.childrenOf root) none with
          | none => mem.get trie (inpPrefix.take lastNonNilPrefix)
          | some child => longestLoop mem trie inpPrefix fuel child (b :: more) prefixlen lastNonNilPrefix

section

variable (mem : Memory α) (query : Bytes)

/-- `GetLongestPrefixNode`. The loop goes down a level in every round. -/
def getLongestPrefixNode (trie : TrieRef) (query : Bytes) : Outcome ε (Option α) :=
  mem.longestLoop trie query mem.nodes.next trie query 0 0

/-- The item is that of the longest stored key that the query begins with, or there is none. -/
def LongestMatch (root : TrieRef) (query : Bytes) : Option α → Prop
  | some item => ∃ key, key <+: query ∧ mem.Holds root key item ∧
      ∀ other value, other <+: query → mem.Holds root other value → other.length ≤ key.length
  | none => ∀ key item, key <+: query → ¬mem.Holds root key item

/-- How much of a node goes along with the query, of which some bytes were matched before. -/
def commonAt (ref : TrieRef) (matched : Nat) : Nat :=
  longestCommonPrefixLength (mem.bytes ref) (query.drop matched)

/-- What the comparison at a node leads to. -/
def branchAt (ref : TrieRef) (matched : Nat) : Branch :=
  mismatch (mem.bytes ref) (query.drop (matched + mem.commonAt query ref matched))
    (mem.commonAt query ref matched) (matched + mem.commonAt query ref matched)

/--
The nodes that lie on the way of a query, each with the bytes that were matched above it.

From a node the way leads to a child that need not begin with the next byte of the query, also when
the node itself did not match but was as long as the rest of the query, and not below it in order.
-/
inductive Looks (mem : Memory α) (root : TrieRef) (query : Bytes) : TrieRef → Nat → Prop where
  | root : Looks mem root query root 0
  | step {ref child : TrieRef} {matched : Nat} {b : UInt8} {more : Bytes}
      (above : Looks mem root query ref matched)
      (room : (mem.bytes ref).length ≤ (query.drop matched).length)
      (left : query.drop (matched + mem.commonAt query ref matched) = b :: more)
      (goes : mem.branchAt query ref matched = .goOn)
      (next : mem.nextWithLongestPrefixMatch b (mem.childrenOf ref) none = some child) :
      Looks mem root query child (matched + mem.commonAt query ref matched)

/-- A node on the way gives its item as the answer, though it does not match the query. -/
def Answers (root : TrieRef) (query : Bytes) (ref : TrieRef) : Prop :=
  ∃ matched, mem.Looks root query ref matched ∧
    (mem.bytes ref).length ≤ (query.drop matched).length ∧
    query.drop (matched + mem.commonAt query ref matched) ≠ [] ∧
    mem.branchAt query ref matched = .answer

end

variable {b : UInt8}

/-- What is found for a byte is a child that begins with it, if there is one, or any child else. -/
def NextFound (mem : Memory α) (b : UInt8) (children : List TrieRef) (longest : Option TrieRef) :
    Option TrieRef → Prop
  | none => ∀ other, other ∈ children → (mem.bytes other).head? ≠ some b
  | some child => (child ∈ children ∧ (mem.bytes child).head? = some b) ∨
      ((∀ other, other ∈ children → (mem.bytes other).head? ≠ some b) ∧
        (child ∈ children ∨ longest = some child))

theorem nextWithLongestPrefixMatch_cases {children : List TrieRef} (longest : Option TrieRef) :
    mem.NextFound b children longest (mem.nextWithLongestPrefixMatch b children longest) := by
  induction children generalizing longest with
  | nil => cases longest <;> simp [nextWithLongestPrefixMatch, NextFound]
  | cons first rest ih =>
    -- What holds of the rest of the list holds of all of it, if the first child is not the one.
    have extend {longest' : Option TrieRef} (lacks : (mem.bytes first).head? ≠ some b)
        (kept : ∀ child, longest' = some child → child = first ∨ longest = some child) :
        mem.NextFound b (first :: rest) longest
          (mem.nextWithLongestPrefixMatch b rest longest') := by
      have ih := ih longest'
      cases found : mem.nextWithLongestPrefixMatch b rest longest' with
      | none =>
        rw [found] at ih
        simpa [NextFound, lacks] using ih
      | some child =>
        rw [found] at ih
        rcases ih with ⟨below, begins⟩ | ⟨none, below | seen⟩
        · exact .inl ⟨mem_cons_of_mem _ below, begins⟩
        · exact .inr ⟨by simpa [lacks] using none, .inl (mem_cons_of_mem _ below)⟩
        · refine .inr ⟨by simpa [lacks] using none, ?_⟩
          rcases kept child seen with rfl | kept
          · exact .inl mem_cons_self
          · exact .inr kept
    rw [nextWithLongestPrefixMatch]
    cases bytes : mem.bytes first with
    | nil => exact extend (by simp [bytes]) fun child same => .inr same
    | cons head tail =>
      simp only []
      by_cases exact' : head = b
      · rw [if_pos exact']
        exact .inl ⟨mem_cons_self, by rw [bytes, exact']; rfl⟩
      · rw [if_neg exact']
        have lacks : (mem.bytes first).head? ≠ some b := by simp [bytes, exact']
        by_cases smaller : head < b ∧ longest.all (fun other => (mem.bytes other).headD 0 < head)
        · rw [if_pos smaller]
          exact extend lacks fun child same => .inl (Option.some.inj same).symm
        · rw [if_neg smaller]
          exact extend lacks fun child same => .inr same

/-- The query's first bytes are stored as a key. -/
def StoredAt (mem : Memory α) (root : TrieRef) (query : Bytes) (length : Nat) : Prop :=
  length ≤ query.length ∧ ∃ item, mem.Holds root (query.take length) item

/-- A length is that of the longest stored key up to the bytes matched, or zero. -/
structure LongestUpTo (mem : Memory α) (root : TrieRef) (query : Bytes) (matched last : Nat) :
    Prop where
  inside : matched ≤ query.length
  le : last ≤ matched
  longest : ∀ length, mem.StoredAt root query length → length ≤ matched → length ≤ last
  stored : last = 0 ∨ mem.StoredAt root query last

/-- The longest key found is the answer when no longer one is stored. -/
theorem LongestUpTo.get_eq {matched last : Nat} (upTo : mem.LongestUpTo root query matched last)
    (wf : mem.WellFormed root) (all : ∀ length, mem.StoredAt root query length → length ≤ matched) :
    ∃ result, (mem.get root (query.take last) : Outcome ε _) = .ok result ∧
      mem.LongestMatch root query result := by
  have storedAt {key item} (begins : key <+: query) (holds : mem.Holds root key item) :
      mem.StoredAt root query key.length := by
    refine ⟨begins.length_le, item, ?_⟩
    rwa [← prefix_iff_eq_take.mp begins]
  obtain ⟨result, got⟩ := wf.get_returns (ε := ε) _
  refine ⟨result, got, ?_⟩
  cases result with
  | none =>
    intro key item begins holds
    have stored := storedAt begins holds
    have le := upTo.longest _ stored (all _ stored)
    -- Nothing is stored at the length that was found, so that length is zero.
    have lacks := wf.get_eq_none.mp got
    have zero : last = 0 := upTo.stored.resolve_right fun ⟨_, item, holds⟩ => lacks item holds
    have nothing : key.length = last := by omega
    rw [prefix_iff_eq_take.mp begins, nothing] at holds
    exact lacks item holds
  | some item =>
    refine ⟨query.take last, take_prefix _ _, wf.get_eq_some.mp got, ?_⟩
    intro other value begins holds
    have stored := storedAt begins holds
    rw [length_take]
    have inside := upTo.inside
    have le := upTo.le
    have least := upTo.longest _ stored (all _ stored)
    omega

/--
A node on the way of a query: every longer stored key that the query begins with lies below it.

Once the way was left there is no such key.
-/
def OnTrack (mem : Memory α) (root : TrieRef) (query : Bytes) (ref : TrieRef) (matched : Nat) :
    Prop :=
  (mem.At root (query.take matched ++ mem.bytes ref) ref ∧
    ∀ length, mem.StoredAt root query length → matched < length →
      mem.bytes ref <+: query.drop matched ∧ matched + (mem.bytes ref).length ≤ length) ∨
  ∀ length, mem.StoredAt root query length → length ≤ matched

section track

variable {matched last : Nat} (wf : mem.WellFormed root)

theorem onTrack_root : mem.OnTrack root query root 0 := by
  have reached : mem.At root (query.take 0 ++ mem.bytes root) root := .root
  refine .inl ⟨reached, fun length stored _ => ?_⟩
  obtain ⟨inside, item, ref, reached, -⟩ := stored
  have begins : mem.bytes root <+: query.take length := reached.extends_root
  have long := begins.length_le
  rw [length_take] at long
  refine ⟨?_, by omega⟩
  simpa using begins.trans ( take_prefix _ _)

/-- A node that the query does not go all along has no longer key of the query below it. -/
theorem OnTrack.all_le (track : mem.OnTrack root query ref matched)
    (apart : ¬mem.bytes ref <+: query.drop matched) :
    ∀ length, mem.StoredAt root query length → length ≤ matched := by
  rcases track with ⟨-, through⟩ | all
  · intro length stored
    by_contra longer
    exact apart (through length stored (by omega)).1
  · exact all

include wf in
/-- The longest key up to a node and the node itself. -/
theorem LongestUpTo.extend (upTo : mem.LongestUpTo root query matched last)
    (track : mem.OnTrack root query ref matched) {found : Option α}
    (got : (mem.get root (query.take (matched + mem.commonAt query ref matched)) : Outcome ε _) =
      .ok found) :
    mem.LongestUpTo root query (matched + mem.commonAt query ref matched)
      (if found.isSome then matched + mem.commonAt query ref matched else last) := by
  obtain ⟨left, right⟩ := longestCommonPrefixLength_le (mem.bytes ref) (query.drop matched)
  rw [length_drop] at right
  have inside := upTo.inside
  have le := upTo.le
  have common : mem.commonAt query ref matched =
    longestCommonPrefixLength (mem.bytes ref) (query.drop matched) := rfl
  have inside' : matched + mem.commonAt query ref matched ≤ query.length := by omega
  -- A key longer than what was matched before reaches to the end of the node.
  have next {length} (stored : mem.StoredAt root query length)
      (upper : length ≤ matched + mem.commonAt query ref matched) :
      length ≤ last ∨ length = matched + mem.commonAt query ref matched := by
    by_cases longer : matched < length
    · rcases track with ⟨-, through⟩ | all
      · have reaches := (through length stored longer).2
        omega
      · have short := all length stored
        omega
    · exact .inl (upTo.longest length stored (by omega))
  cases found with
  | none =>
    refine ⟨inside', by simp; omega, fun length stored upper => ?_, by simpa using upTo.stored⟩
    rcases next stored upper with short | here
    · simpa using short
    · obtain ⟨-, item, holds⟩ := stored
      rw [here] at holds
      exact absurd holds (wf.get_eq_none.mp got item)
  | some item =>
    refine ⟨inside', by simp, fun length stored upper => by simpa using upper, .inr ?_⟩
    exact ⟨inside', item, wf.get_eq_some.mp got⟩

/-- After a node is matched, it is at the bytes matched, or no longer key is stored. -/
theorem OnTrack.at_or_all (track : mem.OnTrack root query ref matched) :
    mem.At root (query.take (matched + mem.commonAt query ref matched)) ref ∨
      ∀ length, mem.StoredAt root query length →
        length ≤ matched + mem.commonAt query ref matched := by
  by_cases whole : longestCommonPrefixLength (mem.bytes ref) (query.drop matched) <
      (mem.bytes ref).length
  · refine .inr fun length stored => ?_
    have short := track.all_le (fun begins => ?_) length stored
    · omega
    · obtain ⟨more, split⟩ := begins
      rw [← split, longestCommonPrefixLength_append] at whole
      omega
  · rcases track with ⟨reached, -⟩ | all
    · obtain ⟨width, split⟩ := eq_append_of_longestCommonPrefixLength whole
      refine .inl ?_
      have taken : query.take (matched + mem.commonAt query ref matched) =
          query.take matched ++ mem.bytes ref := by
        rw [take_add, commonAt, width]
        conv_lhs => rw [split]
        rw [take_left]
      rwa [taken]
    · exact .inr fun length stored => (all length stored).trans (Nat.le_add_right _ _)

include wf in
/-- A longer key than the path of a node goes on through the child that begins with its next byte. -/
theorem child_of_longer {more : Bytes} {length : Nat}
    (reached : mem.At root (query.take matched) ref) (left : query.drop matched = b :: more)
    (stored : mem.StoredAt root query length) (longer : matched < length) :
    ∃ child, child ∈ mem.childrenOf ref ∧ (mem.bytes child).head? = some b ∧
      mem.bytes child <+: query.drop matched ∧ matched + (mem.bytes child).length ≤ length := by
  obtain ⟨inside, item, target, reached', -⟩ := stored
  have le : query.take matched <+: query.take length := by
    rw [prefix_take_le_iff (by omega)]
    omega
  obtain ⟨rest, split, below⟩ := wf.radix.below_of_path_le reached reached' le
  have widths := congrArg List.length split
  rw [length_append, length_take, length_take] at widths
  -- The rest of the key is what the query goes on with.
  have begins : rest <+: query.drop matched := by
    have whole := take_prefix length query
    rw [split] at whole
    nth_rewrite 2 [← take_append_drop matched query] at whole
    rwa [prefix_append_right_inj] at whole
  cases below with
  | refl =>
    rw [length_nil] at widths
    omega
  | @step _ child _ rest first _ =>
    have label : mem.graph.label child = mem.bytes child := rfl
    rw [label] at begins widths
    have here : mem.bytes child <+: query.drop matched := (prefix_append _ _).trans begins
    refine ⟨child, first, ?_, here, ?_⟩
    · obtain ⟨head, tail, bytes⟩ := exists_cons_of_ne_nil (wf.labelled reached first)
      rw [bytes, left, cons_prefix_cons] at here
      rw [bytes, here.1]
      rfl
    · rw [length_append] at widths
      omega

include wf in
/-- Where no child begins with the next byte, no longer key is stored. -/
theorem OnTrack.stuck (track : mem.OnTrack root query ref matched) {more : Bytes}
    (left : query.drop (matched + mem.commonAt query ref matched) = b :: more)
    (lacks : ∀ other, other ∈ mem.childrenOf ref → (mem.bytes other).head? ≠ some b) :
    ∀ length, mem.StoredAt root query length → length ≤ matched + mem.commonAt query ref matched := by
  rcases track.at_or_all with reached | all
  · intro length stored
    by_contra longer
    obtain ⟨child, below, begins, -⟩ := child_of_longer wf reached left stored (by omega)
    exact lacks child below begins
  · exact all

theorem next_mem
    (next : mem.nextWithLongestPrefixMatch b (mem.childrenOf ref) none = some child) :
    child ∈ mem.childrenOf ref := by
  have cases' := @nextWithLongestPrefixMatch_cases _ mem b (mem.childrenOf ref) none
  rw [next] at cases'
  rcases cases' with ⟨below, -⟩ | ⟨-, below | none⟩
  · exact below
  · exact below
  · cases none

include wf in
/-- The way goes on to the child that is chosen. -/
theorem OnTrack.step (track : mem.OnTrack root query ref matched) {more : Bytes}
    (left : query.drop (matched + mem.commonAt query ref matched) = b :: more)
    (next : mem.nextWithLongestPrefixMatch b (mem.childrenOf ref) none = some child) :
    mem.OnTrack root query child (matched + mem.commonAt query ref matched) := by
  have cases' := @nextWithLongestPrefixMatch_cases _ mem b (mem.childrenOf ref) none
  rw [next] at cases'
  rcases cases' with ⟨below, begins⟩ | ⟨lacks, below | none⟩
  · rcases track.at_or_all with reached | all
    · refine .inl ⟨.step reached below, fun length stored longer => ?_⟩
      obtain ⟨other, below', begins', along, short⟩ := child_of_longer wf reached left stored longer
      cases wf.radix.distinct reached below below' (begins.trans begins'.symm)
      exact ⟨along, short⟩
    · exact .inr all
  · exact .inr (track.stuck wf left lacks)
  · cases none

include wf in
/-- The loop comes to the right answer, or to the item of a node that answers out of turn. -/
theorem longestLoop_answers {fuel : Nat} (deep : mem.graph.Levels fuel ref)
    (looks : mem.Looks root query ref matched)
    (upTo : mem.LongestUpTo root query matched last) (track : mem.OnTrack root query ref matched) :
    ∃ result, (mem.longestLoop root query fuel ref (query.drop matched) matched last :
        Outcome ε _) = .ok result ∧
      (mem.LongestMatch root query result ∨
        ∃ other, mem.Answers root query other ∧ result = (mem.trie other).item) := by
  induction fuel generalizing ref matched last with
  | zero => exact deep.elim
  | succ fuel ih =>
    rw [longestLoop]
    by_cases short : (query.drop matched).length < (mem.bytes ref).length
    · -- The node is longer than the rest of the query.
      rw [if_pos short]
      obtain ⟨result, got, longest⟩ := upTo.get_eq (ε := ε) wf
        (track.all_le fun begins => by have le := begins.length_le; omega)
      exact ⟨result, got, .inl longest⟩
    · rw [if_neg short]
      obtain ⟨found, got⟩ := wf.get_returns (ε := ε)
        (query.take _)
      have upTo' := upTo.extend wf track got
      have finish (all : ∀ length, mem.StoredAt root query length →
          length ≤ matched + mem.commonAt query ref matched) :
          ∃ result, (mem.get root (query.take (if found.isSome then
            matched + mem.commonAt query ref matched else last)) : Outcome ε _) = .ok result ∧
            (mem.LongestMatch root query result ∨
              ∃ other, mem.Answers root query other ∧ result = (mem.trie other).item) := by
        obtain ⟨result, got, longest⟩ := upTo'.get_eq (ε := ε) wf all
        exact ⟨result, got, .inl longest⟩
      have common : longestCommonPrefixLength (mem.bytes ref) (query.drop matched) =
        mem.commonAt query ref matched := rfl
      simp only [common, got, Outcome.ok_bind, drop_drop]
      cases left : query.drop _ with
      | nil =>
        refine finish fun length stored => ?_
        have used := drop_eq_nil_iff.mp left
        exact stored.1.trans used
      | cons b more =>
        have branch : mismatch (mem.bytes ref) (b :: more) (mem.commonAt query ref matched)
            (matched + mem.commonAt query ref matched) = mem.branchAt query ref matched := by
          rw [branchAt, left]
        simp only [branch]
        cases goes : mem.branchAt query ref matched with
        | stop =>
          -- Only a part of the node matched.
          refine finish ?_
          have part : ¬mem.bytes ref <+: query.drop matched := by
            rintro ⟨rest, split⟩
            have whole : mem.commonAt query ref matched = (mem.bytes ref).length := by
              rw [commonAt, ← split, longestCommonPrefixLength_append]
            rw [branchAt, mismatch, if_neg (by omega)] at goes
            cases goes
          exact fun length stored => (track.all_le part length stored).trans (Nat.le_add_right _ _)
        | answer =>
          exact ⟨_, rfl, .inr ⟨ref, ⟨matched, looks, by omega, by simp [left], goes⟩, rfl⟩⟩
        | goOn =>
          simp only []
          cases next : mem.nextWithLongestPrefixMatch b _ none with
          | none =>
            refine finish (track.stuck wf left ?_)
            have cases' := @nextWithLongestPrefixMatch_cases _ mem b (mem.childrenOf ref) none
            rw [next] at cases'
            exact cases'
          | some child =>
            have deeper := ih (deep child (next_mem next))
              (.step looks (by omega) left goes next) upTo' (track.step wf left next)
            rwa [left] at deeper

include wf in
/-- The loop gets to every node on the way of the query. -/
theorem looks_reached (looks : mem.Looks root query ref matched) :
    ∃ fuel last, mem.graph.Levels fuel ref ∧ (mem.getLongestPrefixNode root query : Outcome ε _) =
        mem.longestLoop root query fuel ref (query.drop matched) matched last := by
  induction looks with
  | root => exact ⟨mem.nodes.next, 0, wf.levels .root, rfl⟩
  | @step ref child matched b more above room left goes next ih =>
    obtain ⟨fuel, last, deep, reaches⟩ := ih
    rcases fuel with _ | fuel
    · exact deep.elim
    obtain ⟨found, got⟩ := wf.get_returns (ε := ε)
      (query.take (matched + mem.commonAt query ref matched))
    have common : longestCommonPrefixLength (mem.bytes ref) (query.drop matched) =
      mem.commonAt query ref matched := rfl
    have branch : mismatch (mem.bytes ref) (b :: more) (mem.commonAt query ref matched)
        (matched + mem.commonAt query ref matched) = .goOn := by
      rw [branchAt, left] at goes
      exact goes
    refine ⟨fuel, if found.isSome then matched + mem.commonAt query ref matched else last, ?_, ?_⟩
    · exact deep child (next_mem next)
    · rw [reaches, longestLoop, if_neg (not_lt.mpr room)]
      simp only [common, got, Outcome.ok_bind, drop_drop, left, branch, next]

include wf in
/-- A node that answers out of turn does answer. -/
theorem Answers.result (answers : mem.Answers root query ref) :
    (mem.getLongestPrefixNode root query : Outcome ε _) = .ok (mem.trie ref).item := by
  obtain ⟨matched, looks, room, more, answer⟩ := answers
  obtain ⟨fuel, last, deep, reaches⟩ := looks_reached (ε := ε) wf looks
  rcases fuel with _ | fuel
  · exact deep.elim
  obtain ⟨found, got⟩ := wf.get_returns (ε := ε)
    (query.take (matched + mem.commonAt query ref matched))
  have common : longestCommonPrefixLength (mem.bytes ref) (query.drop matched) =
    mem.commonAt query ref matched := rfl
  obtain ⟨b, rest, left⟩ := exists_cons_of_ne_nil more
  rw [branchAt, left] at answer
  rw [reaches, longestLoop, if_neg (not_lt.mpr room)]
  simp only [common, got, Outcome.ok_bind, drop_drop, left, answer]
  rfl

include wf in
/-- The lookup comes to the right answer, or to the item of a node that answers out of turn. -/
theorem getLongestPrefixNode_answers :
    ∃ result, (mem.getLongestPrefixNode root query : Outcome ε _) = .ok result ∧
      (mem.LongestMatch root query result ∨
        ∃ other, mem.Answers root query other ∧ result = (mem.trie other).item) := by
  have start : mem.LongestUpTo root query 0 0 :=
    ⟨Nat.zero_le _, le_rfl, fun _ _ none => none, .inl rfl⟩
  exact longestLoop_answers wf (wf.levels .root) .root start onTrack_root

/-- The path to a node on the way is what was matched above it, or leads away from the query. -/
theorem Looks.follows (looks : mem.Looks root query ref matched) :
    ∃ path, mem.At root (path ++ mem.bytes ref) ref ∧
      (path = query.take matched ∨ ¬path <+: query) := by
  induction looks with
  | root => exact ⟨[], .root, .inl rfl⟩
  | @step ref child matched b more _ _ _ _ next ih =>
    obtain ⟨path, above, follows⟩ := ih
    refine ⟨path ++ mem.bytes ref, above.step (next_mem next), ?_⟩
    rcases follows with rfl | away
    · -- All of the node matched, or its path leads away from here on.
      by_cases along : mem.bytes ref <+: query.drop matched
      · obtain ⟨rest, split⟩ := along
        refine .inl ?_
        rw [take_add, commonAt, ← split, longestCommonPrefixLength_append, take_left]
      · refine .inr fun begins => along ?_
        nth_rewrite 2 [← take_append_drop matched query] at begins
        rwa [prefix_append_right_inj] at begins
    · exact .inr fun begins => away ((prefix_append _ _).trans begins)

include wf in
/-- What the lookup finds is the item of a node. -/
theorem getLongestPrefixNode_found :
    ∃ result, (mem.getLongestPrefixNode root query : Outcome ε _) = .ok result ∧
      ∀ item, result = some item → ∃ ref, ref < mem.nodes.next ∧ (mem.trie ref).item = some item := by
  obtain ⟨result, found, answered⟩ := @getLongestPrefixNode_answers ε _ _ _ query wf
  refine ⟨result, found, fun item stored => ?_⟩
  subst stored
  rcases answered with ⟨key, -, ⟨ref, reached, holds⟩, -⟩ | ⟨ref, ⟨matched, looks, -⟩, holds⟩
  · exact ⟨ref, wf.allocated reached, holds⟩
  · obtain ⟨path, reached, -⟩ := looks.follows
    exact ⟨ref, wf.allocated reached, holds.symm⟩

/-- A node that answers out of turn is at a key that the query does not begin with. -/
theorem Answers.away (answers : mem.Answers root query ref) :
    ∃ path, mem.At root path ref ∧ ¬path <+: query := by
  obtain ⟨matched, looks, -, -, answer⟩ := answers
  obtain ⟨path, reached, follows⟩ := looks.follows
  refine ⟨_, reached, fun begins => ?_⟩
  rcases follows with rfl | away
  · nth_rewrite 2 [← take_append_drop matched query] at begins
    rw [prefix_append_right_inj] at begins
    obtain ⟨rest, split⟩ := begins
    have whole : mem.commonAt query ref matched = (mem.bytes ref).length := by
      rw [commonAt, ← split, longestCommonPrefixLength_append]
    rw [branchAt, mismatch, if_neg (by omega)] at answer
    cases answer
  · exact away ((prefix_append _ _).trans begins)

end track

end Memory

/-- Where a node answers out of turn, it has no item, and no stored key begins the query. -/
def Memory.Unanswered (mem : Memory α) (root : TrieRef) (query : Bytes) : Prop :=
  ∀ ref, mem.Answers root query ref → (mem.trie ref).item = none ∧
    ∀ key item, key <+: query → ¬mem.Holds root key item

/--
The lookup finds the item of the longest stored key that the query begins with, unless a node that
does not match the query answers out of turn with an item, or with nothing in place of one.

With different items under different keys it is wrong whenever a node does that.
-/
theorem getLongestPrefixNode_exact (built : Built ε mem root) (query : Bytes) :
    (mem.Unanswered root query →
      ∃ result, (mem.getLongestPrefixNode root query : Outcome ε _) = .ok result ∧
        mem.LongestMatch root query result) ∧
    ((∀ key other item, mem.Holds root key item → mem.Holds root other item → key = other) →
      (∃ result, (mem.getLongestPrefixNode root query : Outcome ε _) = .ok result ∧
        mem.LongestMatch root query result) →
      mem.Unanswered root query) := by
  have wf := built.wellFormed
  constructor
  · intro unanswered
    obtain ⟨result, found, longest | ⟨ref, answers, rfl⟩⟩ :=
      @getLongestPrefixNode_answers ε _ _ _ query wf
    · exact ⟨result, found, longest⟩
    · obtain ⟨bare, nothing⟩ := unanswered ref answers
      exact ⟨_, found, by rw [bare]; exact nothing⟩
  · rintro apart ⟨result, found, longest⟩ ref answers
    cases found.symm.trans (answers.result wf)
    cases item : (mem.trie ref).item with
    | none =>
      rw [item] at longest
      exact ⟨rfl, longest⟩
    | some value =>
      -- The item is stored under the path of the node, and not under a key of the query.
      rw [item] at longest
      obtain ⟨key, begins, holds, -⟩ := longest
      obtain ⟨path, reached, away⟩ := answers.away
      exact absurd (apart key path value holds ⟨ref, reached, item⟩ ▸ begins) away

/-- The keys a and ab, of which ab is the longest that the query abz begins with. -/
theorem getLongestPrefixNode_nested :
    Built Empty (memoryAfter [.insert [97] 1, .insert [97, 98] 2]) 0 ∧
      (memoryAfter [.insert [97] 1, .insert [97, 98] 2]).Unanswered 0 [97, 98, 122] ∧
      ((memoryAfter [.insert [97] 1, .insert [97, 98] 2]).getLongestPrefixNode 0 [97, 98, 122] :
        Outcome Empty _) = .ok (some 2) ∧
      (memoryAfter [.insert [97] 1, .insert [97, 98] 2]).LongestMatch 0 [97, 98, 122] (some 2) := by
  have built : Built Empty (memoryAfter [.insert [97] 1, .insert [97, 98] 2]) 0 :=
    ⟨emptyMemory, [.insert [97] 1, .insert [97, 98] 2], [some true, some true], rfl, rfl⟩
  have way : ∀ ref matched, (memoryAfter [.insert [97] 1, .insert [97, 98] 2]).Looks 0
      [97, 98, 122] ref matched → (ref, matched) ∈ [(0, 0), (1, 1)] := by
    intro ref matched looks
    induction looks with
    | root => decide
    | @step ref child matched b more _ _ left _ next ih =>
      simp only [mem_cons, Prod.mk.injEq, not_mem_nil, or_false] at ih
      rcases ih with ⟨rfl, rfl⟩ | ⟨rfl, rfl⟩
      · change [98, 122] = b :: more at left
        cases left
        change some 1 = some child at next
        cases next
        decide
      · change [122] = b :: more at left
        cases left
        cases next
  have unanswered : (memoryAfter [.insert [97] 1, .insert [97, 98] 2]).Unanswered 0
      [97, 98, 122] := by
    rintro ref ⟨matched, looks, -, -, answer⟩
    have listed := way ref matched looks
    simp only [mem_cons, Prod.mk.injEq, not_mem_nil, or_false] at listed
    rcases listed with ⟨rfl, rfl⟩ | ⟨rfl, rfl⟩ <;> cases answer
  obtain ⟨result, found, longest⟩ :=
    (getLongestPrefixNode_exact built [97, 98, 122]).1 unanswered
  cases found
  exact ⟨built, unanswered, rfl, longest⟩

/-- The stored 10.0.0.5 answers for 10.0.0.9, of which it is no prefix. -/
theorem getLongestPrefixNode_unrelated : Built Empty (memoryAfter [.insert [10, 0, 0, 5] 1]) 0 ∧
      (memoryAfter [.insert [10, 0, 0, 5] 1]).LongestMatch 0 [10, 0, 0, 9] none ∧
      ((memoryAfter [.insert [10, 0, 0, 5] 1]).getLongestPrefixNode 0 [10, 0, 0, 9] : Outcome Empty _) =
        .ok (some 1) := by
  have built : Built Empty (memoryAfter [.insert [10, 0, 0, 5] 1]) 0 :=
    ⟨emptyMemory, [.insert [10, 0, 0, 5] 1], [some true], rfl, rfl⟩
  have wf := built.wellFormed
  refine ⟨built, fun key item begins holds => ?_, rfl⟩
  have none : ∀ length, length ≤ 4 →
      ((memoryAfter [.insert [10, 0, 0, 5] 1]).get 0 (([10, 0, 0, 9] : Bytes).take length) : Outcome Empty _) =
        .ok none := by decide
  rw [prefix_iff_eq_take.mp begins] at holds
  exact wf.get_eq_none.mp (none key.length begins.length_le) item holds

end FlexSwitch.Patricia
