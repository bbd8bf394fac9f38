import BitDht.Peer.Query

/-!
# QueryMaps — the two lists of a query

`addPeer_cases`, `addPotentialPeer_cases` and `nextQuery_cases` say what the calls on a query do to
it, `queryStep_closest` and `queryStep_potential` what any call does to one of its lists.  From them
it follows that both lists stay small, keyed by the distance to the target and free of duplicates
over any calls at any times (`query_invariant`).
-/

namespace BitDht

open Container

variable {mFns : BdDhtFunctions}

/-! ## What the calls do -/

/-- The number of closer peers that `addPeer` counts: those that do not reply are left out. -/
def countCloser (q : BdQuery) (ts : Int) (dist : BdMetric) : Nat :=
  (q.mClosest.below dist).length - (q.mClosest.below dist).countP (fun e => unresponsive ts e.2)

/-- The entries of `mClosest` that `addPeer` leaves when it lets a new peer in. -/
def keptPeers (mFns : BdDhtFunctions) (q : BdQuery) (ts : Int) (dist : BdMetric) :
    List (BdMetric × BdPeer) :=
  trimBack mFns (dropUnresponsive ts
    ((q.mClosest.below dist).countP (fun e => unresponsive ts e.2)) q.mClosest.entries)

/-- A new entry of `mClosest`. -/
def newClosest (ts : Int) (id : BdId) (mode : UInt32) : BdPeer :=
  noteReply mode ts
    { mPeerId := id, mPeerFlags := 0, mLastSendTime := 0, mLastRecvTime := 0, mFoundTime := ts }

/-- A new entry of `mPotentialClosest`. -/
def newPotential (ts : Int) (id : BdId) : BdPeer where
  mPeerId := id
  mPeerFlags := 0
  mLastSendTime := 0
  mLastRecvTime := ts
  mFoundTime := ts

/-- The peer `id` has an entry at the distance `dist`. -/
def Listed (m : Multimap BdMetric BdPeer) (dist : BdMetric) (id : BdId) : Prop :=
  ∃ e ∈ m.entries, e.1 = dist ∧ bdIdEq e.2.mPeerId id = true

theorem listed_iff {m : Multimap BdMetric BdPeer} {dist : BdMetric} {id : BdId} :
    (m.equalRange dist).any (fun e => bdIdEq e.2.mPeerId id) = true ↔ Listed m dist id := by
  simp [Multimap.equalRange, Listed, List.any_eq_true]

theorem keptPeers_sublist (q : BdQuery) (ts : Int) (dist : BdMetric) :
    (keptPeers mFns q ts dist).Sublist q.mClosest.entries :=
  (List.take_sublist _ _).trans (dropUnresponsive_sublist ts _ q.mClosest.entries)

/-- What `addPeer` can do. -/
inductive AddPeer (mFns : BdDhtFunctions) (q : BdQuery) (ts : Int) (id : BdId) (mode : UInt32) :
    Prop
  /-- enough peers are closer -/
  | far (hcloser : mFns.bdNodesPerBucket ≤ countCloser q ts (mFns.bdDistance q.mId id.id))
      (hrun : q.addPeer mFns ts id mode = (q, 0))
  /-- the peer is there -/
  | known (hcloser : countCloser q ts (mFns.bdDistance q.mId id.id) < mFns.bdNodesPerBucket)
      (hlisted : Listed q.mClosest (mFns.bdDistance q.mId id.id) id)
      (hrun : q.addPeer mFns ts id mode = ({ q with mClosest := (q.mClosest.update
        (samePeer (mFns.bdDistance q.mId id.id) id) (noteReply mode ts)) }, 1))
  /-- the peer is let in -/
  | added (hcloser : countCloser q ts (mFns.bdDistance q.mId id.id) < mFns.bdNodesPerBucket)
      (hnew : ¬ Listed q.mClosest (mFns.bdDistance q.mId id.id) id)
      (hrun : q.addPeer mFns ts id mode = ({ q with mClosest := ((q.mClosest.erase
        (@keptPeers_sublist mFns q ts (mFns.bdDistance q.mId id.id))).insert
          (mFns.bdDistance q.mId id.id) (newClosest ts id mode)) }, 1))

theorem addPeer_cases (mFns : BdDhtFunctions) (q : BdQuery) (ts : Int) (id : BdId)
    (mode : UInt32) : AddPeer mFns q ts id mode := by
  have hcount := List.countP_le_length (p := fun e : BdMetric × BdPeer => unresponsive ts e.2)
    (l := q.mClosest.below (mFns.bdDistance q.mId id.id))
  by_cases hfar : mFns.bdNodesPerBucket ≤ countCloser q ts (mFns.bdDistance q.mId id.id)
  · refine .far hfar ?_
    rw [countCloser] at hfar
    rw [BdQuery.addPeer, if_pos (by omega)]
  · have hnear := hfar
    rw [countCloser] at hnear
    by_cases hlisted : Listed q.mClosest (mFns.bdDistance q.mId id.id) id
    · refine .known (not_le.1 hfar) hlisted ?_
      rw [BdQuery.addPeer, if_neg (by omega), if_pos (listed_iff.2 hlisted)]
    · refine .added (not_le.1 hfar) hlisted ?_
      rw [BdQuery.addPeer, if_neg (by omega), if_neg (fun h => hlisted (listed_iff.1 h))]
      rfl

/-- The test with which `addPotentialPeer` begins. -/
theorem passedOver_iff {m : Multimap BdMetric BdPeer} {dist : BdMetric} {id : BdId} :
    ((m.equalRange dist).any (fun e => bdIdEq e.2.mPeerId id) ||
      (decide ((m.below dist).length = m.size) && decide (m.size ≥ mFns.bdNodesPerBucket))) =
        true ↔
      Listed m dist id ∨ (m.below dist).length = m.size ∧ mFns.bdNodesPerBucket ≤ m.size := by
  rw [Bool.or_eq_true, Bool.and_eq_true, listed_iff, decide_eq_true_iff, decide_eq_true_iff]

/-- What `addPotentialPeer` can do. -/
inductive AddPotentialPeer (mFns : BdDhtFunctions) (q : BdQuery) (ts : Int) (id : BdId)
    (mode : UInt32) : Prop
  /-- the peer is nothing new, or there is no room for it -/
  | kept {r : Nat} (hrun : q.addPotentialPeer mFns ts id mode = (q, r))
  /-- the peer is there -/
  | known (hrun : q.addPotentialPeer mFns ts id mode = ({ q with mPotentialClosest :=
      (q.mPotentialClosest.update (samePeer (mFns.bdDistance q.mId id.id) id)
        (noteReply mode ts)) }, 0))
  /-- the peer is let in -/
  | added (hroom : (q.mPotentialClosest.below (mFns.bdDistance q.mId id.id)).length <
        mFns.bdNodesPerBucket)
      (hnew : ¬ Listed q.mPotentialClosest (mFns.bdDistance q.mId id.id) id)
      (hrun : q.addPotentialPeer mFns ts id mode = ({ q with mPotentialClosest :=
        ((q.mPotentialClosest.erase (List.take_sublist _ _ :
          (trimBack mFns q.mPotentialClosest.entries).Sublist q.mPotentialClosest.entries)).insert
            (mFns.bdDistance q.mId id.id) (newPotential ts id)) }, 1))

theorem addPotentialPeer_cases (mFns : BdDhtFunctions) (q : BdQuery) (ts : Int) (id : BdId)
    (mode : UInt32) : AddPotentialPeer mFns q ts id mode := by
  by_cases hpass : ((q.mClosest.equalRange (mFns.bdDistance q.mId id.id)).any
      (fun e => bdIdEq e.2.mPeerId id) ||
        (decide ((q.mClosest.below (mFns.bdDistance q.mId id.id)).length = q.mClosest.size) &&
          decide (q.mClosest.size ≥ mFns.bdNodesPerBucket))) = true
  · exact .kept (by rw [BdQuery.addPotentialPeer, if_pos hpass])
  by_cases hfar : mFns.bdNodesPerBucket ≤
      (q.mPotentialClosest.below (mFns.bdDistance q.mId id.id)).length
  · exact .kept (by rw [BdQuery.addPotentialPeer, if_neg hpass, if_pos (by omega)])
  by_cases hlisted : Listed q.mPotentialClosest (mFns.bdDistance q.mId id.id) id
  · refine .known ?_
    rw [BdQuery.addPotentialPeer, if_neg hpass, if_neg (by omega), if_pos (listed_iff.2 hlisted)]
  · refine .added (not_le.1 hfar) hlisted ?_
    rw [BdQuery.addPotentialPeer, if_neg hpass, if_neg (by omega),
      if_neg (fun h => hlisted (listed_iff.1 h))]
    rfl

/-- What `nextQuery` can do.  `q.updateRetryPeriod now` differs from `q` in a period only. -/
inductive NextQuery (mFns : BdDhtFunctions) (bdRandomMidId : BdNodeId → BdNodeId → BdNodeId)
    (q : BdQuery) (now : Int) (endId : BdNodeId) : Prop
  /-- the query is done -/
  | done (hstate : q.mState ≠ .querying) (hidle : doIdle q.mQueryFlags = false)
      (hrun : q.nextQuery mFns bdRandomMidId now endId = (q, none))
  /-- a peer is to be asked -/
  | asked {e : BdMetric × BdPeer}
      (hidle : q.mState ≠ .querying → doIdle q.mQueryFlags = true)
      (he : q.mClosest.entries.find? (fun e => (q.updateRetryPeriod now).queryPeer now e.2) =
        some e)
      (hrun : ∃ targetNodeId, q.nextQuery mFns bdRandomMidId now endId =
        ({ q.updateRetryPeriod now with mClosest := (q.mClosest.update
            (fun e => (q.updateRetryPeriod now).queryPeer now e.2)
            (fun peer => { peer with mLastSendTime := now })) },
          some (e.2.mPeerId, targetNodeId)))
  /-- too early to stop -/
  | waiting (hidle : q.mState ≠ .querying → doIdle q.mQueryFlags = true)
      (hrun : q.nextQuery mFns bdRandomMidId now endId = (q.updateRetryPeriod now, none))
  /-- the query stops -/
  | finished {mSearchTime : Int} (hidle : q.mState ≠ .querying → doIdle q.mQueryFlags = true)
      (hsent : ∀ e ∈ q.mClosest.entries, e.2.mLastSendTime ≠ 0)
      (hmin : bitdhtMinQueryAge ≤ now - q.mQueryTS)
      (hend : bitdhtMaxQueryAge < now - q.mQueryTS ∨
        mFns.bdNodesPerBucket ≤ q.mClosest.size ∧
          ∀ e ∈ q.mClosest.entries, e.2.mLastRecvTime ≠ 0)
      (hrun : q.nextQuery mFns bdRandomMidId now endId =
        ({ q.updateRetryPeriod now with mSearchTime := mSearchTime,
                                        mState := q.finalState endId }, none))

/-- The members that `nextQuery` works on besides the period are those of `q`. -/
theorem updateRetryPeriod_eq (q : BdQuery) (now : Int) :
    ∃ period, q.updateRetryPeriod now = { q with mQueryIdlePeerRetryPeriod := period } := by
  rw [BdQuery.updateRetryPeriod]
  split_ifs
  · exact ⟨_, rfl⟩
  · exact ⟨q.mQueryIdlePeerRetryPeriod, rfl⟩

theorem nextQuery_cases (mFns : BdDhtFunctions) (bdRandomMidId : BdNodeId → BdNodeId → BdNodeId)
    (q : BdQuery) (now : Int) (endId : BdNodeId) :
    NextQuery mFns bdRandomMidId q now endId := by
  by_cases hdone : q.mState ≠ .querying ∧ doIdle q.mQueryFlags = false
  · exact .done hdone.1 hdone.2 (by rw [BdQuery.nextQuery, if_pos hdone])
  have hidle : q.mState ≠ .querying → doIdle q.mQueryFlags = true := by
    intro hstate
    by_contra hflag
    exact hdone ⟨hstate, by simpa using hflag⟩
  rcases updateRetryPeriod_eq q now with ⟨period, hperiod⟩
  cases he : q.mClosest.entries.find? (fun e => (q.updateRetryPeriod now).queryPeer now e.2) with
  | some e =>
      refine .asked hidle he ?_
      rw [hperiod] at he ⊢
      rw [BdQuery.nextQuery, if_neg hdone, hperiod]
      simp only [he]
      exact ⟨_, rfl⟩
  | none =>
      have hall : ∀ e ∈ q.mClosest.entries, e.2.mLastSendTime ≠ 0 := by
        intro e hmem hsend
        -- a peer that was never asked would have been found
        have hnot := List.find?_eq_none.1 he e hmem
        simp [BdQuery.queryPeer, hsend] at hnot
      by_cases hmin : now - q.mQueryTS < bitdhtMinQueryAge
      · refine .waiting hidle ?_
        rw [hperiod] at he ⊢
        rw [BdQuery.nextQuery, if_neg hdone, hperiod]
        simp only [he, hmin, if_true]
      by_cases hwait : ¬ now - q.mQueryTS > bitdhtMaxQueryAge ∧
          (q.mClosest.size < mFns.bdNodesPerBucket ∨
            q.mClosest.entries.any (fun e => e.2.mLastRecvTime == 0) = true)
      · refine .waiting hidle ?_
        rw [hperiod] at he ⊢
        rw [BdQuery.nextQuery, if_neg hdone, hperiod]
        simp only [he, hmin, if_false]
        rw [if_pos hwait]
      · refine .finished hidle hall (not_lt.1 hmin) ?_
          (show q.nextQuery mFns bdRandomMidId now endId = ({ q.updateRetryPeriod now with
            mSearchTime := (if q.mState = .querying then toInt32 (now - q.mQueryTS)
              else q.mSearchTime)
            mState := q.finalState endId }, none) from ?_)
        · by_cases hmax : now - q.mQueryTS > bitdhtMaxQueryAge
          · exact .inl hmax
          · have hfull : ¬ (q.mClosest.size < mFns.bdNodesPerBucket ∨
                q.mClosest.entries.any (fun e => e.2.mLastRecvTime == 0) = true) :=
              fun h => hwait ⟨hmax, h⟩
            rw [not_or, not_lt] at hfull
            refine .inr ⟨hfull.1, ?_⟩
            intro e hmem hrecv
            exact hfull.2 (List.any_eq_true.2 ⟨e, hmem, by simp [hrecv]⟩)
        · rw [hperiod] at he ⊢
          rw [BdQuery.nextQuery, if_neg hdone, hperiod]
          simp only [he, hmin, if_false]
          rw [if_neg hwait]
          rfl

/-! ## What a call does to each list -/

/-- `addPeer` works on `mClosest` alone. -/
theorem addPeer_eq (q : BdQuery) (ts : Int) (id : BdId) (mode : UInt32) :
    ∃ closest, (q.addPeer mFns ts id mode).1 = { q with mClosest := closest } := by
  cases addPeer_cases mFns q ts id mode with
  | far _ hrun =>
      exact ⟨q.mClosest, by rw [hrun]⟩
  | known _ _ hrun =>
      exact ⟨_, by rw [hrun]⟩
  | added _ _ hrun =>
      exact ⟨_, by rw [hrun]⟩

/-- `addPotentialPeer` works on `mPotentialClosest` alone. -/
theorem addPotentialPeer_eq (q : BdQuery) (ts : Int) (id : BdId) (mode : UInt32) :
    ∃ potential, (q.addPotentialPeer mFns ts id mode).1 =
      { q with mPotentialClosest := potential } := by
  cases addPotentialPeer_cases mFns q ts id mode with
  | kept hrun =>
      exact ⟨q.mPotentialClosest, by rw [hrun]⟩
  | known hrun =>
      exact ⟨_, by rw [hrun]⟩
  | added _ _ hrun =>
      exact ⟨_, by rw [hrun]⟩

theorem nextQuery_mPotentialClosest (q : BdQuery)
    (bdRandomMidId : BdNodeId → BdNodeId → BdNodeId) (now : Int) (endId : BdNodeId) :
    (q.nextQuery mFns bdRandomMidId now endId).1.mPotentialClosest = q.mPotentialClosest := by
  rcases updateRetryPeriod_eq q now with ⟨period, hperiod⟩
  cases nextQuery_cases mFns bdRandomMidId q now endId with
  | done _ _ hrun =>
      rw [hrun]
  | asked _ _ hrun =>
      rcases hrun with ⟨targetNodeId, hrun⟩
      rw [hrun, hperiod]
  | waiting _ hrun =>
      rw [hrun, hperiod]
  | finished _ _ _ _ hrun =>
      rw [hrun, hperiod]

/-- What `mClosest` can be after a call. -/
inductive ClosestStep (mFns : BdDhtFunctions) (q : BdQuery) :
    Int × QueryOp → Multimap BdMetric BdPeer → Prop
  | same (op : Int × QueryOp) : ClosestStep mFns q op q.mClosest
  | noted (ts : Int) (id : BdId) (mode : UInt32) : ClosestStep mFns q (ts, .addPeer id mode)
      (q.mClosest.update (samePeer (mFns.bdDistance q.mId id.id) id) (noteReply mode ts))
  | added {ts : Int} {id : BdId} (mode : UInt32)
      (hcloser : countCloser q ts (mFns.bdDistance q.mId id.id) < mFns.bdNodesPerBucket)
      (hnew : ¬ Listed q.mClosest (mFns.bdDistance q.mId id.id) id) :
      ClosestStep mFns q (ts, .addPeer id mode) ((q.mClosest.erase
        (@keptPeers_sublist mFns q ts (mFns.bdDistance q.mId id.id))).insert
          (mFns.bdDistance q.mId id.id) (newClosest ts id mode))
  | asked {now : Int} {bdRandomMidId : BdNodeId → BdNodeId → BdNodeId} {endId : BdNodeId}
      {e : BdMetric × BdPeer}
      (he : q.mClosest.entries.find? (fun e => (q.updateRetryPeriod now).queryPeer now e.2) =
        some e)
      (hanswer : (q.nextQuery mFns bdRandomMidId now endId).2.map Prod.fst = some e.2.mPeerId) :
      ClosestStep mFns q (now, .nextQuery bdRandomMidId endId) (q.mClosest.update
        (fun e => (q.updateRetryPeriod now).queryPeer now e.2)
        (fun peer => { peer with mLastSendTime := now }))

theorem queryStep_closest (q : BdQuery) (op : Int × QueryOp) :
    ClosestStep mFns q op (queryStep mFns q op).mClosest := by
  rcases op with ⟨ts, op⟩
  cases op with
  | addPeer id mode =>
      rw [queryStep]
      cases addPeer_cases mFns q ts id mode with
      | far _ hrun =>
          rw [hrun]
          exact .same _
      | known _ _ hrun =>
          rw [hrun]
          exact .noted ts id mode
      | added hcloser hnew hrun =>
          rw [hrun]
          exact .added mode hcloser hnew
  | addPotentialPeer id mode =>
      rcases addPotentialPeer_eq q ts id mode with ⟨potential, hrun⟩
      rw [queryStep, hrun]
      exact .same _
  | nextQuery bdRandomMidId endId =>
      rw [queryStep]
      rcases updateRetryPeriod_eq q ts with ⟨period, hperiod⟩
      cases nextQuery_cases mFns bdRandomMidId q ts endId with
      | done _ _ hrun =>
          rw [hrun]
          exact .same _
      | asked _ he hrun =>
          rcases hrun with ⟨targetNodeId, hrun⟩
          have hstep := ClosestStep.asked he (congrArg (fun r => r.2.map Prod.fst) hrun)
          rw [hrun]
          exact hstep
      | waiting _ hrun =>
          rw [hrun, hperiod]
          exact .same _
      | finished _ _ _ _ hrun =>
          rw [hrun, hperiod]
          exact .same _

/-- What `mPotentialClosest` can be after a call. -/
inductive PotentialStep (mFns : BdDhtFunctions) (q : BdQuery) :
    Int × QueryOp → Multimap BdMetric BdPeer → Prop
  | same (op : Int × QueryOp) : PotentialStep mFns q op q.mPotentialClosest
  | noted (ts : Int) (id : BdId) (mode : UInt32) :
      PotentialStep mFns q (ts, .addPotentialPeer id mode)
        (q.mPotentialClosest.update (samePeer (mFns.bdDistance q.mId id.id) id)
          (noteReply mode ts))
  | added (ts : Int) {id : BdId} (mode : UInt32)
      (hroom : (q.mPotentialClosest.below (mFns.bdDistance q.mId id.id)).length <
        mFns.bdNodesPerBucket)
      (hnew : ¬ Listed q.mPotentialClosest (mFns.bdDistance q.mId id.id) id) :
      PotentialStep mFns q (ts, .addPotentialPeer id mode)
        ((q.mPotentialClosest.erase (List.take_sublist _ _ :
          (trimBack mFns q.mPotentialClosest.entries).Sublist q.mPotentialClosest.entries)).insert
            (mFns.bdDistance q.mId id.id) (newPotential ts id))

theorem queryStep_potential (q : BdQuery) (op : Int × QueryOp) :
    PotentialStep mFns q op (queryStep mFns q op).mPotentialClosest := by
  rcases op with ⟨ts, op⟩
  cases op with
  | addPeer id mode =>
      rcases addPeer_eq q ts id mode with ⟨closest, hrun⟩
      rw [queryStep, hrun]
      exact .same _
  | addPotentialPeer id mode =>
      rw [queryStep]
      cases addPotentialPeer_cases mFns q ts id mode with
      | kept hrun =>
          rw [hrun]
          exact .same _
      | known hrun =>
          rw [hrun]
          exact .noted ts id mode
      | added hroom hnew hrun =>
          rw [hrun]
          exact .added ts mode hroom hnew
  | nextQuery bdRandomMidId endId =>
      rw [queryStep, nextQuery_mPotentialClosest]
      exact .same _

/-! ## The lists -/

/-- What holds of a list of peers around `target`. -/
structure MapInv (mFns : BdDhtFunctions) (target : BdNodeId) (m : Multimap BdMetric BdPeer) :
    Prop where
  full : m.size ≤ mFns.bdNodesPerBucket
  keyed : ∀ e ∈ m.entries, e.1 = mFns.bdDistance target e.2.mPeerId.id
  distinct : m.entries.Pairwise (fun a b => bdIdEq a.2.mPeerId b.2.mPeerId = false)

section lists

variable {target : BdNodeId} {m m' : Multimap BdMetric BdPeer}

theorem keyed_of_map_eq (h : ∀ e ∈ m.entries, e.1 = mFns.bdDistance target e.2.mPeerId.id)
    (heq : m'.entries.map (fun e => (e.1, e.2.mPeerId)) =
      m.entries.map (fun e => (e.1, e.2.mPeerId))) :
    ∀ e ∈ m'.entries, e.1 = mFns.bdDistance target e.2.mPeerId.id := by
  intro e he
  have hmem : (e.1, e.2.mPeerId) ∈ m.entries.map (fun e => (e.1, e.2.mPeerId)) := by
    rw [← heq]
    exact List.mem_map_of_mem he
  rcases List.mem_map.1 hmem with ⟨e', he', heq'⟩
  rw [Prod.mk.injEq] at heq'
  rw [← heq'.1, ← heq'.2]
  exact h e' he'

theorem keyed_insert (h : ∀ e ∈ m.entries, e.1 = mFns.bdDistance target e.2.mPeerId.id)
    {l : List (BdMetric × BdPeer)} (hl : l.Sublist m.entries) (peer : BdPeer) :
    ∀ e ∈ ((m.erase hl).insert (mFns.bdDistance target peer.mPeerId.id) peer).entries,
      e.1 = mFns.bdDistance target e.2.mPeerId.id := by
  intro e he
  rcases Multimap.mem_insert.1 he with rfl | he
  · rfl
  · exact h e (hl.subset he)

theorem MapInv.empty (mFns : BdDhtFunctions) (target : BdNodeId) :
    MapInv mFns target Multimap.empty := by
  refine ⟨Nat.zero_le _, ?_, .nil⟩
  intro e he
  cases he

/-- The invariant is a statement about keys and peer ids. -/
theorem MapInv.of_map_eq (h : MapInv mFns target m)
    (heq : m'.entries.map (fun e => (e.1, e.2.mPeerId)) =
      m.entries.map (fun e => (e.1, e.2.mPeerId))) : MapInv mFns target m' := by
  refine ⟨?_, ?_, ?_⟩
  · have hlen := congrArg List.length heq
    rw [List.length_map, List.length_map] at hlen
    rw [Multimap.size, hlen]
    exact h.full
  · exact keyed_of_map_eq h.keyed heq
  · have hpairs : (m.entries.map (fun e => (e.1, e.2.mPeerId))).Pairwise
        (fun a b => bdIdEq a.2 b.2 = false) := List.pairwise_map.2 h.distinct
    rw [← heq] at hpairs
    exact List.pairwise_map.1 hpairs

theorem MapInv.update (h : MapInv mFns target m) (p : BdMetric × BdPeer → Bool)
    {f : BdPeer → BdPeer} (hf : ∀ peer, (f peer).mPeerId = peer.mPeerId) :
    MapInv mFns target (m.update p f) :=
  h.of_map_eq (Multimap.map_updateEntry p (fun e => by rw [hf]) m.entries)

/-- Some entries are dropped and one is added that was not there. -/
theorem MapInv.insert (h : MapInv mFns target m) {l : List (BdMetric × BdPeer)}
    (hl : l.Sublist m.entries) (hlen : l.length < mFns.bdNodesPerBucket) {peer : BdPeer} {id : BdId}
    (hid : peer.mPeerId = id) (hnew : ¬ Listed m (mFns.bdDistance target id.id) id) :
    MapInv mFns target ((m.erase hl).insert (mFns.bdDistance target id.id) peer) := by
  subst hid
  refine ⟨?_, ?_, ?_⟩
  · rw [Multimap.size, Multimap.length_insert]
    exact hlen
  · exact keyed_insert h.keyed hl peer
  · refine Multimap.pairwise_insert ?_ (h.distinct.sublist hl) ?_
    · intro a b hab
      rwa [bdIdEq_comm]
    · intro e he
      cases heq : bdIdEq peer.mPeerId e.2.mPeerId with
      | false =>
          rfl
      | true =>
          -- an equal peer has the same distance, so the scan of that distance would have seen it
          rw [bdIdEq_comm] at heq
          refine absurd ⟨e, hl.subset he, ?_, heq⟩ hnew
          rw [h.keyed e (hl.subset he), (bdIdEq_iff.1 heq).1]

end lists

/-- What holds of a query. -/
structure QueryInv (mFns : BdDhtFunctions) (q : BdQuery) : Prop where
  closest : MapInv mFns q.mId q.mClosest
  potential : MapInv mFns q.mId q.mPotentialClosest

theorem mPeerId_noteReply (mode : UInt32) (ts : Int) (peer : BdPeer) :
    (noteReply mode ts peer).mPeerId = peer.mPeerId := by
  rw [noteReply]
  split_ifs
  · rfl
  · rfl

theorem mLastSendTime_noteReply (mode : UInt32) (ts : Int) (peer : BdPeer) :
    (noteReply mode ts peer).mLastSendTime = peer.mLastSendTime := by
  rw [noteReply]
  split_ifs
  · rfl
  · rfl

theorem length_trimBack_lt {l : List (BdMetric × BdPeer)} (h : 0 < mFns.bdNodesPerBucket) :
    (trimBack mFns l).length < mFns.bdNodesPerBucket := by
  rw [trimBack, List.length_take]
  omega

/-- An entry that a query begins with. -/
def startPeer (now : Int) (id : BdId) : BdPeer where
  mPeerId := id
  mPeerFlags := 0
  mLastSendTime := 0
  mLastRecvTime := 0
  mFoundTime := now

/-- The entries that a query begins with are those of the start list in some order. -/
theorem new_entries_perm (mFns : BdDhtFunctions) (now : Int) (id : BdNodeId)
    (startList : List BdId) (queryFlags : UInt32) :
    (BdQuery.new mFns now id startList queryFlags).mClosest.entries.Perm
      (startList.map (fun it => (mFns.bdDistance id it.id, startPeer now it))) := by
  have hperm := Multimap.foldl_insert_perm (fun it : BdId => mFns.bdDistance id it.id)
    (startPeer now) startList Multimap.empty
  rw [show (Multimap.empty : Multimap BdMetric BdPeer).entries = [] from rfl,
    List.append_nil] at hperm
  exact hperm

theorem queryInv_new {startList : List BdId} (hlen : startList.length ≤ mFns.bdNodesPerBucket)
    (hdistinct : startList.Pairwise (fun a b => bdIdEq a b = false)) (now : Int) (id : BdNodeId)
    (queryFlags : UInt32) : QueryInv mFns (BdQuery.new mFns now id startList queryFlags) := by
  refine ⟨?_, MapInv.empty mFns id⟩
  have hperm := new_entries_perm mFns now id startList queryFlags
  refine ⟨?_, ?_, ?_⟩
  · calc
      (BdQuery.new mFns now id startList queryFlags).mClosest.size = (startList.map _).length :=
        hperm.length_eq
      _ = startList.length := List.length_map _
      _ ≤ mFns.bdNodesPerBucket := hlen
  · intro e he
    rcases List.mem_map.1 (hperm.mem_iff.1 he) with ⟨it, _, rfl⟩
    rfl
  · refine (hperm.pairwise_iff ?_).2 (List.pairwise_map.2 hdistinct)
    intro a b hab
    rwa [bdIdEq_comm]

/-- One call keeps `mClosest` in order. -/
theorem MapInv.closestStep {q : BdQuery} (h : MapInv mFns q.mId q.mClosest) {op : Int × QueryOp}
    {m : Multimap BdMetric BdPeer} (hstep : ClosestStep mFns q op m) : MapInv mFns q.mId m := by
  cases hstep with
  | same =>
      exact h
  | noted ts id mode =>
      exact h.update _ (mPeerId_noteReply mode ts)
  | added mode hcloser hnew =>
      exact h.insert _ (length_trimBack_lt (by omega)) (mPeerId_noteReply ..) hnew
  | asked =>
      exact h.update _ (fun _ => rfl)

/-- One call keeps `mPotentialClosest` in order. -/
theorem MapInv.potentialStep {q : BdQuery} (h : MapInv mFns q.mId q.mPotentialClosest)
    {op : Int × QueryOp} {m : Multimap BdMetric BdPeer} (hstep : PotentialStep mFns q op m) :
    MapInv mFns q.mId m := by
  cases hstep with
  | same =>
      exact h
  | noted ts id mode =>
      exact h.update _ (mPeerId_noteReply mode ts)
  | added ts mode hroom hnew =>
      exact h.insert _ (length_trimBack_lt (by omega)) rfl hnew

/-- The members that no call changes. -/
structure SameSearch (q q' : BdQuery) : Prop where
  mId : q'.mId = q.mId
  mLimit : q'.mLimit = q.mLimit
  mQueryTS : q'.mQueryTS = q.mQueryTS
  mQueryFlags : q'.mQueryFlags = q.mQueryFlags

/-- What a call can change: the lists, the times, and the state to one that is final. -/
theorem queryStep_eq (q : BdQuery) (op : Int × QueryOp) :
    ∃ (closest potential : Multimap BdMetric BdPeer) (period mSearchTime : Int)
      (state : QueryState),
      queryStep mFns q op =
        { q with mClosest := closest, mPotentialClosest := potential, mState := state,
                 mQueryIdlePeerRetryPeriod := period, mSearchTime := mSearchTime } ∧
      (state = q.mState ∨ ∃ endId, state = q.finalState endId) := by
  rcases op with ⟨ts, op⟩
  cases op with
  | addPeer id mode =>
      rcases addPeer_eq q ts id mode with ⟨closest, hrun⟩
      rw [queryStep, hrun]
      exact ⟨_, _, _, _, _, rfl, .inl rfl⟩
  | addPotentialPeer id mode =>
      rcases addPotentialPeer_eq q ts id mode with ⟨potential, hrun⟩
      rw [queryStep, hrun]
      exact ⟨_, _, _, _, _, rfl, .inl rfl⟩
  | nextQuery bdRandomMidId endId =>
      rw [queryStep]
      rcases updateRetryPeriod_eq q ts with ⟨period, hperiod⟩
      cases nextQuery_cases mFns bdRandomMidId q ts endId with
      | done _ _ hrun =>
          rw [hrun]
          exact ⟨_, _, _, _, _, rfl, .inl rfl⟩
      | asked _ _ hrun =>
          rcases hrun with ⟨targetNodeId, hrun⟩
          rw [hrun, hperiod]
          exact ⟨_, _, _, _, _, rfl, .inl rfl⟩
      | waiting _ hrun =>
          rw [hrun, hperiod]
          exact ⟨_, _, _, _, _, rfl, .inl rfl⟩
      | finished _ _ _ _ hrun =>
          rw [hrun, hperiod]
          exact ⟨_, _, _, _, _, rfl, .inr ⟨endId, rfl⟩⟩

theorem queryStep_sameSearch (q : BdQuery) (op : Int × QueryOp) :
    SameSearch q (queryStep mFns q op) := by
  rcases queryStep_eq q op with ⟨_, _, _, _, _, hrun, _⟩
  rw [hrun]
  exact ⟨rfl, rfl, rfl, rfl⟩

/-- One call keeps both lists in order. -/
theorem queryStep_inv {q : BdQuery} (h : QueryInv mFns q) (op : Int × QueryOp) :
    QueryInv mFns (queryStep mFns q op) := by
  have hsame : SameSearch q (queryStep mFns q op) := queryStep_sameSearch q op
  constructor
  · rw [hsame.mId]
    exact h.closest.closestStep (queryStep_closest q op)
  · rw [hsame.mId]
    exact h.potential.potentialStep (queryStep_potential q op)

theorem run_queryInv {q : BdQuery} (h : QueryInv mFns q) (ops : List (Int × QueryOp)) :
    QueryInv mFns (ops.foldl (queryStep mFns) q) := by
  induction ops generalizing q with
  | nil =>
      exact h
  | cons op ops ih =>
      exact ih (queryStep_inv h op)

theorem finalState_ne_ready (q : BdQuery) (endId : BdNodeId) : q.finalState endId ≠ .ready := by
  rw [BdQuery.finalState]
  split
  · decide
  · split_ifs
    · decide
    · decide
    · decide

/-- No call makes a query READY. -/
theorem queryStep_begun {q : BdQuery} (h : q.mState ≠ .ready) (op : Int × QueryOp) :
    (queryStep mFns q op).mState ≠ .ready := by
  rcases queryStep_eq q op with ⟨_, _, _, _, state, hrun, hstate⟩
  rw [hrun]
  rcases hstate with rfl | ⟨endId, rfl⟩
  · exact h
  · exact finalState_ne_ready q endId

theorem run_sameSearch (q : BdQuery) (ops : List (Int × QueryOp)) :
    SameSearch q (ops.foldl (queryStep mFns) q) := by
  induction ops generalizing q with
  | nil =>
      exact ⟨rfl, rfl, rfl, rfl⟩
  | cons op ops ih =>
      have hstep : SameSearch q (queryStep mFns q op) := queryStep_sameSearch q op
      have hrest := ih (queryStep mFns q op)
      exact ⟨hrest.mId.trans hstep.mId, hrest.mLimit.trans hstep.mLimit,
        hrest.mQueryTS.trans hstep.mQueryTS, hrest.mQueryFlags.trans hstep.mQueryFlags⟩

/-- After any calls at any times both lists are small, keyed by the XOR distance to the target and
without duplicates. -/
theorem query_invariant (hxor : mFns.bdDistance = bdStdDistance) {startList : List BdId}
    (hlen : startList.length ≤ mFns.bdNodesPerBucket)
    (hdistinct : startList.Pairwise (fun a b => bdIdEq a b = false)) (now : Int) (id : BdNodeId)
    (queryFlags : UInt32) (ops : List (Int × QueryOp)) :
    let q := ops.foldl (queryStep mFns) (BdQuery.new mFns now id startList queryFlags)
    ∀ m, m = q.mClosest ∨ m = q.mPotentialClosest →
      m.size ≤ mFns.bdNodesPerBucket ∧
      (∀ e ∈ m.entries, e.1 = bdStdDistance q.mId e.2.mPeerId.id) ∧
      m.entries.Pairwise (fun a b => bdIdEq a.2.mPeerId b.2.mPeerId = false) := by
  intro q m hm
  have hinv : QueryInv mFns q := run_queryInv (queryInv_new hlen hdistinct now id queryFlags) ops
  have hmap : MapInv mFns q.mId m := by
    rcases hm with rfl | rfl
    · exact hinv.closest
    · exact hinv.potential
  have hkeyed := hmap.keyed
  rw [hxor] at hkeyed
  exact ⟨hmap.full, hkeyed, hmap.distinct⟩

/-- Two peers are given to a query, one is added, one is heard of, and one is asked. -/
theorem query_invariant_run :
    let q := [(5, .addPeer ⟨⟨afInet, 3, 1⟩, ⟨List.replicate 20 3, rfl⟩⟩ 2),
        (6, .addPotentialPeer ⟨⟨afInet, 4, 1⟩, ⟨List.replicate 20 4, rfl⟩⟩ 0),
        (7, .nextQuery (fun a _ => a) bdZeroNodeId)].foldl (queryStep bdStdDht)
      (BdQuery.new bdStdDht 4 bdZeroNodeId [⟨⟨afInet, 1, 1⟩, ⟨List.replicate 20 1, rfl⟩⟩,
        ⟨⟨afInet, 2, 1⟩, ⟨List.replicate 20 2, rfl⟩⟩] 0)
    ∀ m, m = q.mClosest ∨ m = q.mPotentialClosest →
      m.size ≤ bdStdDht.bdNodesPerBucket ∧
      (∀ e ∈ m.entries, e.1 = bdStdDistance q.mId e.2.mPeerId.id) ∧
      m.entries.Pairwise (fun a b => bdIdEq a.2.mPeerId b.2.mPeerId = false) :=
  query_invariant rfl (by decide) (by decide) 4 bdZeroNodeId 0 _

end BitDht
