import BitDht.Peer.Halting

/-!
# FinalState — the state in which a search ends

`SearchResult` is what a finished query should say about its search.  The finishing step of
`nextQuery` looks at the head of `mPotentialClosest` without a test, so it comes to this result only
where that map has a head or is not looked at (`finalState_searchResult_iff`).  It has one as soon as
the run has heard of a peer that `mClosest` did not hold (`run_heardOf`).
-/

namespace BitDht

open Container

variable {mFns : BdDhtFunctions}

/-! ## The finishing step -/

/-- `nextQuery` reaches its finishing step at `now`. -/
structure Finishes (mFns : BdDhtFunctions) (q : BdQuery) (now : Int) : Prop where
  active : q.mState ≠ .querying → doIdle q.mQueryFlags = true
  asked : ∀ e ∈ q.mClosest.entries, (q.updateRetryPeriod now).queryPeer now e.2 = false
  old : bitdhtMinQueryAge ≤ now - q.mQueryTS
  ended : bitdhtMaxQueryAge < now - q.mQueryTS ∨
    mFns.bdNodesPerBucket ≤ q.mClosest.size ∧ ∀ e ∈ q.mClosest.entries, e.2.mLastRecvTime ≠ 0

theorem Finishes.nextQuery_mState {q : BdQuery} {now : Int} (h : Finishes mFns q now)
    (bdRandomMidId : BdNodeId → BdNodeId → BdNodeId) (endId : BdNodeId) :
    (q.nextQuery mFns bdRandomMidId now endId).1.mState = q.finalState endId := by
  have hrun : ¬ (q.mState ≠ .querying ∧ doIdle q.mQueryFlags = false) := by
    rintro ⟨hstate, hflag⟩
    rw [h.active hstate] at hflag
    cases hflag
  have hfind : q.mClosest.entries.find? (fun e => (q.updateRetryPeriod now).queryPeer now e.2) =
      none := by
    refine List.find?_eq_none.2 ?_
    intro e he
    rw [h.asked e he]
    decide
  have hmin : ¬ now - q.mQueryTS < bitdhtMinQueryAge := not_lt.2 h.old
  have hwait : ¬ (¬ now - q.mQueryTS > bitdhtMaxQueryAge ∧
      (q.mClosest.size < mFns.bdNodesPerBucket ∨
        q.mClosest.entries.any (fun e => e.2.mLastRecvTime == 0) = true)) := by
    rintro ⟨hmax, hfull⟩
    rcases h.ended.resolve_left hmax with ⟨hsize, hrecv⟩
    rcases hfull with hless | hany
    · exact absurd hless (not_lt.2 hsize)
    · rcases List.any_eq_true.1 hany with ⟨e, he, hzero⟩
      exact hrecv e he (beq_iff_eq.1 hzero)
  rcases updateRetryPeriod_eq q now with ⟨period, hperiod⟩
  rw [hperiod] at hfind
  rw [BdQuery.nextQuery, if_neg hrun, hperiod]
  simp only [hfind, if_neg hmin]
  rw [if_neg hwait]
  rfl

/-! ## The result of a search -/

/-- What the two lists say about the search for `mId`. -/
inductive SearchResult (q : BdQuery) : QueryState → Prop
  | failure (hclosest : q.mClosest.entries = []) : SearchResult q .failure
  | success {e : BdMetric × BdPeer} (hclosest : q.mClosest.entries.head? = some e)
      (hid : e.2.mPeerId.id = q.mId) : SearchResult q .success
  | peerUnreachable {e p : BdMetric × BdPeer} (hclosest : q.mClosest.entries.head? = some e)
      (hid : e.2.mPeerId.id ≠ q.mId) (hpotential : q.mPotentialClosest.entries.head? = some p)
      (hheard : p.2.mPeerId.id = q.mId) : SearchResult q .peerUnreachable
  | foundClosest {e : BdMetric × BdPeer} (hclosest : q.mClosest.entries.head? = some e)
      (hid : e.2.mPeerId.id ≠ q.mId)
      (hheard : ∀ p ∈ q.mPotentialClosest.entries.head?, p.2.mPeerId.id ≠ q.mId) :
      SearchResult q .foundClosest

/-- The state that `nextQuery` assigns at `now` is the result, whatever lies behind the end of an
empty map. -/
def AssignsResult (mFns : BdDhtFunctions) (q : BdQuery) (now : Int) : Prop :=
  ∀ bdRandomMidId endId, SearchResult q (q.nextQuery mFns bdRandomMidId now endId).1.mState

/-- The closest peer of `mClosest` has the id of the target. -/
def TargetFound (q : BdQuery) : Prop :=
  ∃ e ∈ q.mClosest.entries.head?, e.2.mPeerId.id = q.mId

theorem finalState_searchResult_iff (q : BdQuery) :
    (∀ endId, SearchResult q (q.finalState endId)) ↔
      q.mClosest.entries = [] ∨ TargetFound q ∨ q.mPotentialClosest.entries ≠ [] := by
  cases hclosest : q.mClosest.entries with
  | nil =>
      refine ⟨fun _ => .inl rfl, fun _ endId => ?_⟩
      rw [BdQuery.finalState, hclosest]
      exact .failure hclosest
  | cons e rest =>
      have hhead : q.mClosest.entries.head? = some e := by rw [hclosest, List.head?_cons]
      by_cases hid : e.2.mPeerId.id = q.mId
      · refine ⟨fun _ => .inr (.inl ⟨e, hhead, hid⟩), fun _ endId => ?_⟩
        rw [BdQuery.finalState, hclosest]
        simp only [if_pos hid]
        exact .success hhead hid
      · have hstate : ∀ endId, q.finalState endId =
            if (q.mPotentialClosest.entries.head?.map (fun e => e.2.mPeerId.id)).getD endId =
              q.mId then .peerUnreachable else .foundClosest := by
          intro endId
          rw [BdQuery.finalState, hclosest]
          simp only [if_neg hid]
        cases hpotential : q.mPotentialClosest.entries with
        | nil =>
            -- the id of the target may lie behind the end
            constructor
            · intro hall
              have hwrong := hall q.mId
              rw [hstate, hpotential, List.head?_nil, Option.map_none, Option.getD_none,
                if_pos rfl] at hwrong
              cases hwrong with
              | peerUnreachable _ _ hheard _ =>
                  rw [hpotential] at hheard
                  cases hheard
            · rintro (hnil | ⟨e', he', hid'⟩ | hne)
              · cases hnil
              · rw [hhead] at he'
                cases he'
                exact absurd hid' hid
              · exact absurd rfl hne
        | cons p heard =>
            have hp : q.mPotentialClosest.entries.head? = some p := by
              rw [hpotential, List.head?_cons]
            refine ⟨fun _ => .inr (.inr (List.cons_ne_nil p heard)), fun _ endId => ?_⟩
            rw [hstate, hp, Option.map_some, Option.getD_some]
            by_cases hheard : p.2.mPeerId.id = q.mId
            · rw [if_pos hheard]
              exact .peerUnreachable hhead hid hp hheard
            · rw [if_neg hheard]
              refine .foundClosest hhead hid ?_
              rintro p' hp'
              rw [hp] at hp'
              cases hp'
              exact hheard

/-! ## The peers a query heard of -/

/-- The call names a peer that `mClosest` does not hold, and that is not farther than all of a full
`mClosest`. -/
def HearsOf (mFns : BdDhtFunctions) (q : BdQuery) : Int × QueryOp → Prop
  | (_, .addPotentialPeer id _) =>
      0 < mFns.bdNodesPerBucket ∧ ¬ Listed q.mClosest (mFns.bdDistance q.mId id.id) id ∧
        ¬ ((q.mClosest.below (mFns.bdDistance q.mId id.id)).length = q.mClosest.size ∧
          mFns.bdNodesPerBucket ≤ q.mClosest.size)
  | _ => False

/-- A call of the run does so. -/
def HeardOf (mFns : BdDhtFunctions) : BdQuery → List (Int × QueryOp) → Prop
  | _, [] => False
  | q, op :: ops => HearsOf mFns q op ∨ HeardOf mFns (queryStep mFns q op) ops

theorem addPotentialPeer_ne_nil (q : BdQuery) (ts : Int) (id : BdId) (mode : UInt32) :
    (q.addPotentialPeer mFns ts id mode).1.mPotentialClosest.entries ≠ [] ↔
      q.mPotentialClosest.entries ≠ [] ∨ HearsOf mFns q (ts, .addPotentialPeer id mode) := by
  by_cases hpass : HearsOf mFns q (ts, .addPotentialPeer id mode)
  · refine iff_of_true ?_ (.inr hpass)
    rcases hpass with ⟨hsize, hheard⟩
    rw [← not_or, ← passedOver_iff] at hheard
    rw [BdQuery.addPotentialPeer, if_neg hheard]
    by_cases hfar : ((q.mPotentialClosest.below (mFns.bdDistance q.mId id.id)).length : Int) >
        (mFns.bdNodesPerBucket : Int) - 1
    · -- only a list with peers in it leaves no room
      rw [if_pos hfar]
      intro hnil
      have hbelow : q.mPotentialClosest.below (mFns.bdDistance q.mId id.id) = [] := by
        rw [Multimap.below, hnil, List.filter_nil]
      rw [hbelow, List.length_nil] at hfar
      omega
    · rw [if_neg hfar]
      split_ifs with hlisted
      · rw [Multimap.update_ne_nil]
        intro hnil
        rw [Multimap.equalRange, hnil] at hlisted
        cases hlisted
      · exact Multimap.insert_ne_nil _ _ _
  · have hsame : (q.addPotentialPeer mFns ts id mode).1 = q := by
      by_cases hpos : 0 < mFns.bdNodesPerBucket
      · have hknown : Listed q.mClosest (mFns.bdDistance q.mId id.id) id ∨
            (q.mClosest.below (mFns.bdDistance q.mId id.id)).length = q.mClosest.size ∧
              mFns.bdNodesPerBucket ≤ q.mClosest.size := by
          by_contra hheard
          exact hpass ⟨hpos, not_or.1 hheard⟩
        rw [BdQuery.addPotentialPeer, if_pos (passedOver_iff.2 hknown)]
      -- where there is no room at all, nobody is let in
      · rw [BdQuery.addPotentialPeer]
        split_ifs
        · rfl
        · rfl
        · omega
        · omega
    rw [hsame, or_iff_left hpass]

theorem queryStep_heardOf (q : BdQuery) (op : Int × QueryOp) :
    (queryStep mFns q op).mPotentialClosest.entries ≠ [] ↔
      q.mPotentialClosest.entries ≠ [] ∨ HearsOf mFns q op := by
  rcases op with ⟨ts, op⟩
  cases op with
  | addPeer peer mode =>
      rcases addPeer_eq q ts peer mode with ⟨closest, hrun⟩
      rw [queryStep, hrun]
      exact (or_iff_left id).symm
  | addPotentialPeer id mode =>
      exact addPotentialPeer_ne_nil q ts id mode
  | nextQuery bdRandomMidId endId =>
      rw [queryStep, nextQuery_mPotentialClosest]
      exact (or_iff_left id).symm

/-- The list of the peers heard of has a head from the first call on that names one. -/
theorem run_heardOf (q : BdQuery) (ops : List (Int × QueryOp)) :
    (ops.foldl (queryStep mFns) q).mPotentialClosest.entries ≠ [] ↔
      q.mPotentialClosest.entries ≠ [] ∨ HeardOf mFns q ops := by
  induction ops generalizing q with
  | nil =>
      rw [List.foldl_nil, HeardOf, or_false]
  | cons op ops ih =>
      rw [List.foldl_cons, ih, queryStep_heardOf, HeardOf, or_assoc]

/-! ## The finishing step in a run -/

/-- After any calls at any times, the finishing step comes to the result of the search exactly where
`mClosest` is empty, or its closest peer is the target, or the run has heard of a further peer. -/
theorem nextQuery_assignsResult_iff (mFns : BdDhtFunctions) (now0 : Int) (id : BdNodeId)
    (startList : List BdId) (queryFlags : UInt32) (ops : List (Int × QueryOp)) (now : Int)
    (hfinishes : Finishes mFns
      (ops.foldl (queryStep mFns) (BdQuery.new mFns now0 id startList queryFlags)) now) :
    let q := ops.foldl (queryStep mFns) (BdQuery.new mFns now0 id startList queryFlags)
    AssignsResult mFns q now ↔
      q.mClosest.entries = [] ∨ TargetFound q ∨
        HeardOf mFns (BdQuery.new mFns now0 id startList queryFlags) ops := by
  intro q
  have hpotential : q.mPotentialClosest.entries ≠ [] ↔
      HeardOf mFns (BdQuery.new mFns now0 id startList queryFlags) ops := by
    rw [run_heardOf]
    exact or_iff_right (fun hne => hne rfl)
  rw [← hpotential, ← finalState_searchResult_iff]
  constructor
  · intro hassigns endId
    rw [← hfinishes.nextQuery_mState (fun a _ => a) endId]
    exact hassigns _ endId
  · intro hresult bdRandomMidId endId
    rw [hfinishes.nextQuery_mState]
    exact hresult endId

/-- A search for the zero id with one peer to start from, which is asked and never answers. -/
def loneSearch : BdQuery :=
  [(5, .nextQuery (fun a _ => a) bdZeroNodeId)].foldl (queryStep bdStdDht)
    (BdQuery.new bdStdDht 4 bdZeroNodeId [⟨⟨afInet, 1, 1⟩, ⟨List.replicate 20 1, rfl⟩⟩] 0)

theorem loneSearch_finishes : Finishes bdStdDht loneSearch 2000 :=
  ⟨by decide, by decide, by decide, by decide⟩

theorem nextQuery_assignsResult_iff_lone :
    AssignsResult bdStdDht loneSearch 2000 ↔
      loneSearch.mClosest.entries = [] ∨ TargetFound loneSearch ∨
        HeardOf bdStdDht
          (BdQuery.new bdStdDht 4 bdZeroNodeId [⟨⟨afInet, 1, 1⟩, ⟨List.replicate 20 1, rfl⟩⟩] 0)
          [(5, .nextQuery (fun a _ => a) bdZeroNodeId)] :=
  nextQuery_assignsResult_iff bdStdDht 4 bdZeroNodeId _ 0 _ 2000 loneSearch_finishes

/-- It ends in whatever state the memory behind `mPotentialClosest` makes of it. -/
theorem not_assignsResult_lone :
    Finishes bdStdDht loneSearch 2000 ∧ ¬ AssignsResult bdStdDht loneSearch 2000 := by
  refine ⟨loneSearch_finishes, ?_⟩
  intro hassigns
  have hresult : ∀ endId, SearchResult loneSearch (loneSearch.finalState endId) := by
    intro endId
    rw [← loneSearch_finishes.nextQuery_mState (fun a _ => a) endId]
    exact hassigns _ endId
  rcases (finalState_searchResult_iff loneSearch).1 hresult with hnil | hfound | hheard
  · exact absurd hnil (by decide)
  · rcases hfound with ⟨e, he, hid⟩
    cases (show some _ = some e from he)
    exact absurd hid (by decide)
  · exact absurd hheard (by decide)

end BitDht
