import BitDht.Peer.QueryMaps

/-!
# Anchored — what a query finds

Each peer of `mClosest` stands at its distance to the target, whatever list the query began with.  So
what `result` finds at the distance zero are the peers with the id that is asked for.
-/

namespace BitDht

open Container

variable {mFns : BdDhtFunctions}

/-! ## The peers at the distance zero -/

theorem not_lt_replicate_zero {l : List Nat} {n : Nat} (h : l.length = n) :
    ¬ l < List.replicate n 0 := by
  induction l generalizing n with
  | nil =>
      subst h
      simp
  | cons a l ih =>
      subst h
      rw [List.length_cons, List.replicate_succ, List.cons_lt_cons_iff]
      rintro (hlt | ⟨_, hlt⟩)
      · exact Nat.not_lt_zero a hlt
      · exact ih rfl hlt

theorem bdZeroNodeId_le (id : BdNodeId) : bdZeroNodeId ≤ id := by
  have hlen : (id.data.map UInt8.toNat).length = bitdhtKeyLen := by
    rw [List.length_map, id.size]
  have hnot := not_lt_replicate_zero hlen
  rw [not_lt] at hnot
  exact hnot

theorem bdStdDistance_self (a : BdNodeId) : bdStdDistance a a = bdZeroNodeId := by
  apply BdNodeId.ext_data
  have hzero : ∀ l : List UInt8,
      List.zipWith (fun x y => x ^^^ y) l l = List.replicate l.length 0 := by
    intro l
    induction l with
    | nil =>
        rfl
    | cons x l ih =>
        rw [List.zipWith_cons_cons, ih, UInt8.xor_self, List.length_cons, List.replicate_succ]
  have hdata := hzero a.data
  rw [a.size] at hdata
  exact hdata

theorem eq_of_bdStdDistance_le {a b : BdNodeId} (h : bdStdDistance a b ≤ bdZeroNodeId) : b = a := by
  have hzero : bdStdDistance a b = bdStdDistance a a := by
    rw [bdStdDistance_self]
    exact le_antisymm h (bdZeroNodeId_le _)
  exact bdStdDistance_inj.1 hzero

/-- Each peer of the query stands at its distance to the target, and only the distance zero is asked
for. -/
structure Anchored (mFns : BdDhtFunctions) (q : BdQuery) : Prop where
  keyed : ∀ e ∈ q.mClosest.entries, e.1 = mFns.bdDistance q.mId e.2.mPeerId.id
  limit : q.mLimit = bdZeroNodeId

theorem anchored_new (now : Int) (id : BdNodeId) (startList : List BdId) (queryFlags : UInt32) :
    Anchored mFns (BdQuery.new mFns now id startList queryFlags) := by
  refine ⟨?_, rfl⟩
  intro e he
  rcases List.mem_map.1 ((new_entries_perm mFns now id startList queryFlags).mem_iff.1 he) with
    ⟨it, _, rfl⟩
  rfl

theorem queryStep_anchored (q : BdQuery) (op : Int × QueryOp) (h : Anchored mFns q) :
    Anchored mFns (queryStep mFns q op) := by
  have hsame : SameSearch q (queryStep mFns q op) := queryStep_sameSearch q op
  refine ⟨?_, hsame.mLimit.trans h.limit⟩
  rw [hsame.mId]
  have hstep : ClosestStep mFns q op (queryStep mFns q op).mClosest := queryStep_closest q op
  generalize (queryStep mFns q op).mClosest = m at hstep ⊢
  cases hstep with
  | same =>
      exact h.keyed
  | noted ts id mode =>
      exact keyed_of_map_eq h.keyed
        (Multimap.map_updateEntry _ (fun e => by rw [mPeerId_noteReply]) q.mClosest.entries)
  | @added ts id mode =>
      have hid : (newClosest ts id mode).mPeerId = id := mPeerId_noteReply ..
      have hkeyed := keyed_insert h.keyed
        (@keptPeers_sublist mFns q ts (mFns.bdDistance q.mId id.id)) (newClosest ts id mode)
      rw [hid] at hkeyed
      exact hkeyed
  | asked =>
      exact keyed_of_map_eq h.keyed (Multimap.map_updateEntry _ (fun e => rfl) _)

/-- What `result` finds are the peers with the id of the query. -/
theorem mem_result {q : BdQuery} (hxor : mFns.bdDistance = bdStdDistance) (h : Anchored mFns q)
    {id : BdId} (hid : id ∈ q.result) :
    ∃ e ∈ q.mClosest.entries, e.2.mPeerId = id ∧ id.id = q.mId := by
  rcases List.mem_map.1 hid with ⟨e, he, rfl⟩
  rw [h.limit] at he
  rcases List.mem_filter.1 he with ⟨hmem, hle⟩
  have hkey := h.keyed e hmem
  rw [hxor] at hkey
  rw [hkey] at hle
  exact ⟨e, hmem, rfl, eq_of_bdStdDistance_le (of_decide_eq_true hle)⟩

theorem run_anchored {q : BdQuery} (h : Anchored mFns q) (ops : List (Int × QueryOp)) :
    Anchored mFns (ops.foldl (queryStep mFns) q) := by
  induction ops generalizing q with
  | nil =>
      exact h
  | cons op ops ih =>
      exact ih (queryStep_anchored q op h)

/-! ## What `result` and `matchResult` report -/

theorem resultCall_eq (q : BdQuery) (answer : List BdId) :
    (q.resultCall answer).1 = answer ++ q.result ∧
      ((q.resultCall answer).2 = true ↔ q.result ≠ []) := by
  have hloop : ∀ (l : List (BdMetric × BdPeer)) (r : List BdId × Nat),
      l.foldl (fun (r : List BdId × Nat) sit => (r.1 ++ [sit.2.mPeerId], r.2 + 1)) r =
        (r.1 ++ l.map (fun e => e.2.mPeerId), r.2 + l.length) := by
    intro l
    induction l with
    | nil =>
        simp
    | cons e l ih =>
        intro r
        rw [List.foldl_cons, ih]
        simp only [List.map_cons, List.append_assoc, List.singleton_append, List.length_cons,
          Prod.mk.injEq, true_and]
        omega
  rw [BdQuery.resultCall, hloop]
  simp [BdQuery.result, List.length_pos_iff]

/-- The peers of a list with the id that is asked for. -/
def matching (mId : BdNodeId) (l : List (BdMetric × BdPeer)) : List BdPeer :=
  (l.map Prod.snd).filter (fun peer => peer.mPeerId.id = mId)

/-- A loop that counts what it appends, and `passed` more for each entry that it passes. -/
theorem foldl_matchEntry (mId : BdNodeId) (passed : Nat) (l : List (BdMetric × BdPeer))
    (r : List BdPeer × Nat) :
    l.foldl (fun r it => ((matchEntry mId r it).1, (matchEntry mId r it).2 + passed)) r =
      (r.1 ++ matching mId l, r.2 + (matching mId l).length + passed * l.length) := by
  induction l generalizing r with
  | nil =>
      simp [matching]
  | cons e l ih =>
      have hmore : passed * (e :: l).length = passed * l.length + passed := by
        rw [List.length_cons, Nat.mul_succ]
      rw [List.foldl_cons, ih, matchEntry, hmore]
      split
      · rename_i hmatch
        have hfound : matching mId (e :: l) = e.2 :: matching mId l := by
          simp [matching, hmatch]
        rw [hfound, List.append_assoc, List.singleton_append, List.length_cons, Prod.mk.injEq]
        exact ⟨rfl, by omega⟩
      · rename_i hother
        have hnone : matching mId (e :: l) = matching mId l := by
          simp [matching, hother]
        rw [hnone, Prod.mk.injEq]
        exact ⟨rfl, by omega⟩

theorem matchResult_eq_append (q : BdQuery) :
    q.matchResult =
      matching q.mId q.mClosest.entries ++ matching q.mId q.mPotentialClosest.entries := by
  rw [BdQuery.matchResult, List.map_append, List.filter_append]
  rfl

theorem matchResultCall_eq (q : BdQuery) (idList : List BdPeer) :
    (q.matchResultCall idList).1 = idList ++ q.matchResult ∧
      ((q.matchResultCall idList).2 = true ↔
        q.matchResult ≠ [] ∨ q.mPotentialClosest.entries ≠ []) := by
  have hfirst := foldl_matchEntry q.mId 0 q.mClosest.entries (idList, 0)
  have hsecond := foldl_matchEntry q.mId 1 q.mPotentialClosest.entries
  simp only [Nat.add_zero, Prod.mk.eta] at hfirst
  rw [BdQuery.matchResultCall, hfirst, hsecond, matchResult_eq_append]
  refine ⟨List.append_assoc .., ?_⟩
  rw [decide_eq_true_iff, ← List.length_pos_iff, ← List.length_pos_iff, List.length_append]
  omega

/-- `result` finds just the peers of `mClosest` with the id of the query. -/
theorem result_eq_matching {q : BdQuery} (hxor : mFns.bdDistance = bdStdDistance)
    (h : Anchored mFns q) :
    q.result = (matching q.mId q.mClosest.entries).map (fun peer => peer.mPeerId) := by
  have hrange : q.mClosest.upTo q.mLimit =
      q.mClosest.entries.filter (fun e => e.2.mPeerId.id = q.mId) := by
    apply List.filter_congr
    intro e he
    have hkey := h.keyed e he
    rw [hxor] at hkey
    rw [h.limit, hkey, decide_eq_decide]
    constructor
    · exact eq_of_bdStdDistance_le
    · intro hid
      rw [hid, bdStdDistance_self]
  calc
    q.result = (q.mClosest.upTo q.mLimit).map (fun e => e.2.mPeerId) := rfl
    _ = (q.mClosest.entries.filter (fun e => e.2.mPeerId.id = q.mId)).map
        (fun e => e.2.mPeerId) := by rw [hrange]
    _ = (matching q.mId q.mClosest.entries).map (fun peer => peer.mPeerId) := by
        rw [matching, List.filter_map, List.map_map]
        rfl

/-- `result` appends the peers of `mClosest` with the id of the query, `matchResult` the same ones and
then those of `mPotentialClosest`; the flag of each says whether it appended something. -/
structure Reports (q : BdQuery) : Prop where
  result : ∀ answer, (q.resultCall answer).1 =
    answer ++ (matching q.mId q.mClosest.entries).map (fun peer => peer.mPeerId)
  matchResult : ∀ idList, (q.matchResultCall idList).1 =
    idList ++ (matching q.mId q.mClosest.entries ++ matching q.mId q.mPotentialClosest.entries)
  resultFlag : ∀ answer,
    (q.resultCall answer).2 = true ↔ answer.length < (q.resultCall answer).1.length
  matchFlag : ∀ idList,
    (q.matchResultCall idList).2 = true ↔ idList.length < (q.matchResultCall idList).1.length

theorem matchResult_ne_nil {q : BdQuery} : q.matchResult ≠ [] ↔
    ∃ e ∈ q.mClosest.entries ++ q.mPotentialClosest.entries, e.2.mPeerId.id = q.mId := by
  rw [Ne, BdQuery.matchResult, List.filter_eq_nil_iff, List.forall_mem_map]
  push Not
  simp only [decide_eq_true_iff]

/-- A flag says whether something was appended. -/
theorem length_lt_append {α : Type} (l l' : List α) : l.length < (l ++ l').length ↔ l' ≠ [] := by
  rw [List.length_append, ← List.length_pos_iff]
  omega

/-- After any run both calls report what they should exactly when no peer is only heard of, or a peer
has the id of the query: otherwise `matchResult` returns true for nothing. -/
theorem reports_iff (hxor : mFns.bdDistance = bdStdDistance) (now : Int) (id : BdNodeId)
    (startList : List BdId) (queryFlags : UInt32) (ops : List (Int × QueryOp)) :
    let q := ops.foldl (queryStep mFns) (BdQuery.new mFns now id startList queryFlags)
    Reports q ↔ q.mPotentialClosest.entries = [] ∨
      ∃ e ∈ q.mClosest.entries ++ q.mPotentialClosest.entries, e.2.mPeerId.id = q.mId := by
  intro q
  have hq : Anchored mFns q := run_anchored (anchored_new now id startList queryFlags) ops
  rw [← matchResult_ne_nil]
  constructor
  · intro h
    have hflag := h.matchFlag []
    rw [(matchResultCall_eq q []).2, (matchResultCall_eq q []).1, length_lt_append] at hflag
    by_cases hpotential : q.mPotentialClosest.entries = []
    · exact .inl hpotential
    · exact .inr (hflag.1 (.inr hpotential))
  · intro h
    refine ⟨?_, ?_, ?_, ?_⟩
    · intro answer
      rw [(resultCall_eq q answer).1, result_eq_matching hxor hq]
    · intro idList
      rw [(matchResultCall_eq q idList).1, matchResult_eq_append]
    · intro answer
      rw [(resultCall_eq q answer).2, (resultCall_eq q answer).1, length_lt_append]
    · intro idList
      rw [(matchResultCall_eq q idList).2, (matchResultCall_eq q idList).1, length_lt_append]
      constructor
      · rintro (hsome | hpotential)
        · exact hsome
        · exact h.resolve_left hpotential
      · exact .inl

/-- A query for the id zero that finds it. -/
theorem reports_found :
    Reports ([(5, .addPeer ⟨⟨afInet, 3, 1⟩, bdZeroNodeId⟩ 2),
        (6, .addPotentialPeer ⟨⟨afInet, 4, 1⟩, ⟨List.replicate 20 4, rfl⟩⟩ 0)].foldl
          (queryStep bdStdDht) (BdQuery.new bdStdDht 4 bdZeroNodeId [] 0)) :=
  (reports_iff rfl 4 bdZeroNodeId [] 0 _).2 (.inr (by decide))

/-- A query for the id zero that has only heard of another one. -/
theorem reports_heard_of_another :
    ¬ Reports ([(6, .addPotentialPeer ⟨⟨afInet, 4, 1⟩, ⟨List.replicate 20 4, rfl⟩⟩ 0)].foldl
      (queryStep bdStdDht) (BdQuery.new bdStdDht 4 bdZeroNodeId [] 0)) := by
  intro h
  have hflag := h.matchFlag []
  revert hflag
  decide

end BitDht
