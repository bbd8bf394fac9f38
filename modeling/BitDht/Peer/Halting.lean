import BitDht.Peer.QueryMaps

/-!
# Halting — when a query stops

A run of a query is watched together with the peers that `nextQuery` handed out and the peers that
answered.  What the entries of `mClosest` say about sending and receiving is true of this history
(`HistoryInv`), and so the halting rule of `nextQuery` is a rule about the run (`query_halts`).
-/

namespace BitDht

open Container

variable {mFns : BdDhtFunctions}

/-! ## Runs with their history -/

/-- A query, the peers that were to be asked and the peers whose nodes came in. -/
structure QueryRun where
  query : BdQuery
  asked : List BdId
  replied : List BdId

def QueryRun.new (mFns : BdDhtFunctions) (now : Int) (id : BdNodeId) (startList : List BdId)
    (queryFlags : UInt32) : QueryRun where
  query := BdQuery.new mFns now id startList queryFlags
  asked := []
  replied := []

/-- The peer that the call hands out. -/
def askedBy (mFns : BdDhtFunctions) (q : BdQuery) : Int × QueryOp → List BdId
  | (now, .nextQuery bdRandomMidId endId) =>
      ((q.nextQuery mFns bdRandomMidId now endId).2.map Prod.fst).toList
  | _ => []

/-- The peer whose answer the call reports. -/
def repliedIn : Int × QueryOp → List BdId
  | (_, .addPeer id mode) => if mode &&& bitdhtPeerStatusRecvNodes ≠ 0 then [id] else []
  | _ => []

def runStep (mFns : BdDhtFunctions) (r : QueryRun) (op : Int × QueryOp) : QueryRun where
  query := queryStep mFns r.query op
  asked := r.asked ++ askedBy mFns r.query op
  replied := r.replied ++ repliedIn op

theorem run_query (ops : List (Int × QueryOp)) (r : QueryRun) :
    (ops.foldl (runStep mFns) r).query = ops.foldl (queryStep mFns) r.query := by
  induction ops generalizing r with
  | nil =>
      rfl
  | cons op ops ih =>
      exact ih (runStep mFns r op)

/-! ## The entries and the history -/

/-- The peer has answered, under its id and address. -/
def Replied (replied : List BdId) (id : BdId) : Prop :=
  ∃ p ∈ replied, bdIdEq p id = true

/-- What an entry says about its peer is true. -/
structure EntryInv (r : QueryRun) (peer : BdPeer) : Prop where
  sent : peer.mLastSendTime ≠ 0 → peer.mPeerId ∈ r.asked
  received : peer.mLastRecvTime ≠ 0 → Replied r.replied peer.mPeerId

/-- A run with a longer history. -/
theorem EntryInv.mono {r r' : QueryRun} {peer : BdPeer} (h : EntryInv r peer)
    (hasked : r.asked ⊆ r'.asked) (hreplied : r.replied ⊆ r'.replied) : EntryInv r' peer := by
  refine ⟨fun hsend => hasked (h.sent hsend), ?_⟩
  intro hrecv
  rcases h.received hrecv with ⟨p, hp, heq⟩
  exact ⟨p, hreplied hp, heq⟩

theorem EntryInv.runStep {r : QueryRun} {peer : BdPeer} (h : EntryInv r peer)
    (op : Int × QueryOp) : EntryInv (runStep mFns r op) peer :=
  h.mono (List.subset_append_left _ _) (List.subset_append_left _ _)

/-- A noted answer is one that came in. -/
theorem EntryInv.noteReply {r : QueryRun} {peer : BdPeer} {ts : Int} {id : BdId} {mode : UInt32}
    (h : EntryInv r peer) (hid : bdIdEq peer.mPeerId id = true) :
    EntryInv (BitDht.runStep mFns r (ts, .addPeer id mode)) (noteReply mode ts peer) := by
  by_cases hmode : mode &&& bitdhtPeerStatusRecvNodes ≠ 0
  · rw [BitDht.noteReply, if_pos hmode]
    refine ⟨(h.runStep _).sent, ?_⟩
    intro _
    refine ⟨id, ?_, by rwa [bdIdEq_comm]⟩
    apply List.mem_append_right
    rw [repliedIn, if_pos hmode]
    exact List.mem_singleton_self id
  · rw [BitDht.noteReply, if_neg hmode]
    exact h.runStep _

theorem entryInv_fresh {r : QueryRun} {peer : BdPeer} (hsend : peer.mLastSendTime = 0)
    (hrecv : peer.mLastRecvTime = 0) : EntryInv r peer :=
  ⟨fun h => absurd hsend h, fun h => absurd hrecv h⟩

/-- What holds of a run. -/
structure HistoryInv (mFns : BdDhtFunctions) (r : QueryRun) : Prop where
  entries : ∀ e ∈ r.query.mClosest.entries, EntryInv r e.2

theorem historyInv_new (now : Int) (id : BdNodeId) (startList : List BdId) (queryFlags : UInt32) :
    HistoryInv mFns (QueryRun.new mFns now id startList queryFlags) := by
  constructor
  intro e he
  have hperm := new_entries_perm mFns now id startList queryFlags
  rcases List.mem_map.1 (hperm.mem_iff.1 he) with ⟨it, _, rfl⟩
  exact entryInv_fresh rfl rfl

theorem HistoryInv.step {r : QueryRun} (h : HistoryInv mFns r) (op : Int × QueryOp) :
    HistoryInv mFns (runStep mFns r op) := by
  constructor
  intro e he
  change e ∈ (queryStep mFns r.query op).mClosest.entries at he
  have hstep : ClosestStep mFns r.query op (queryStep mFns r.query op).mClosest :=
    queryStep_closest r.query op
  generalize (queryStep mFns r.query op).mClosest = m at hstep he
  cases hstep with
  | same =>
      exact (h.entries e he).runStep _
  | noted =>
      rcases Multimap.mem_updateEntry he with he | ⟨e', he', hsame, rfl⟩
      · exact (h.entries e he).runStep _
      · rw [samePeer, Bool.and_eq_true] at hsame
        exact (h.entries e' he').noteReply hsame.2
  | added =>
      rcases Multimap.mem_insert.1 he with rfl | he
      · exact (entryInv_fresh rfl rfl).noteReply (bdIdEq_iff.2 ⟨rfl, rfl, rfl⟩)
      · exact (h.entries e ((keptPeers_sublist r.query _ _).subset he)).runStep _
  | @asked now bdRandomMidId endId e₀ hfound hanswer =>
      have hasked : askedBy mFns r.query (now, .nextQuery bdRandomMidId endId) =
          [e₀.2.mPeerId] := by
        rw [askedBy, hanswer]
        rfl
      rcases Multimap.mem_updateEntry_find hfound he with he | rfl
      · exact (h.entries e he).runStep _
      · have hmem : e₀ ∈ r.query.mClosest.entries := List.mem_of_find?_eq_some hfound
        refine ⟨?_, ((h.entries e₀ hmem).runStep _).received⟩
        intro _
        apply List.mem_append_right
        rw [hasked]
        exact List.mem_singleton_self _

theorem HistoryInv.run {r : QueryRun} (h : HistoryInv mFns r) (ops : List (Int × QueryOp)) :
    HistoryInv mFns (ops.foldl (runStep mFns) r) := by
  induction ops generalizing r with
  | nil =>
      exact h
  | cons op ops ih =>
      exact ih (h.step op)

/-! ## The size of the list -/

/-- The list only grows by a peer for which there is room. -/
theorem size_le_step {bound : Nat} (hbound : mFns.bdNodesPerBucket ≤ bound) {q : BdQuery}
    (h : q.mClosest.size ≤ bound) (op : Int × QueryOp) :
    (queryStep mFns q op).mClosest.size ≤ bound := by
  have hstep : ClosestStep mFns q op (queryStep mFns q op).mClosest := queryStep_closest q op
  generalize (queryStep mFns q op).mClosest = m at hstep ⊢
  cases hstep with
  | same =>
      exact h
  | noted =>
      exact (Multimap.size_update _ _ _).le.trans h
  | added mode hcloser hnew =>
      rw [Multimap.size, Multimap.length_insert]
      apply Nat.succ_le_of_lt
      exact (length_trimBack_lt (Nat.zero_lt_of_lt hcloser)).trans_le hbound
  | asked =>
      exact (Multimap.size_update _ _ _).le.trans h

theorem size_le_run {bound : Nat} (hbound : mFns.bdNodesPerBucket ≤ bound) {q : BdQuery}
    (h : q.mClosest.size ≤ bound) (ops : List (Int × QueryOp)) :
    (ops.foldl (queryStep mFns) q).mClosest.size ≤ bound := by
  induction ops generalizing q with
  | nil =>
      exact h
  | cons op ops ih =>
      exact ih (size_le_step hbound h op)

/-! ## The state -/

theorem finalState_ne_querying (q : BdQuery) (endId : BdNodeId) :
    q.finalState endId ≠ .querying := by
  rw [BdQuery.finalState]
  split
  · exact QueryState.noConfusion
  · split_ifs
    · exact QueryState.noConfusion
    · exact QueryState.noConfusion
    · exact QueryState.noConfusion

/-- What a call can do to the state of a query. -/
theorem queryStep_mState (q : BdQuery) (op : Int × QueryOp) :
    (queryStep mFns q op).mState = q.mState ∨
      ∃ now bdRandomMidId endId, op = (now, .nextQuery bdRandomMidId endId) ∧
        (q.mState ≠ .querying → doIdle q.mQueryFlags = true) ∧
        (∀ e ∈ q.mClosest.entries, e.2.mLastSendTime ≠ 0) ∧
        bitdhtMinQueryAge ≤ now - q.mQueryTS ∧
        (bitdhtMaxQueryAge < now - q.mQueryTS ∨
          mFns.bdNodesPerBucket ≤ q.mClosest.size ∧
            ∀ e ∈ q.mClosest.entries, e.2.mLastRecvTime ≠ 0) ∧
        (queryStep mFns q op).mState ≠ .querying := by
  rcases op with ⟨ts, op⟩
  cases op with
  | addPeer id mode =>
      left
      rcases addPeer_eq q ts id mode with ⟨closest, hrun⟩
      rw [queryStep, hrun]
  | addPotentialPeer id mode =>
      left
      rcases addPotentialPeer_eq q ts id mode with ⟨potential, hrun⟩
      rw [queryStep, hrun]
  | nextQuery bdRandomMidId endId =>
      rcases updateRetryPeriod_eq q ts with ⟨period, hperiod⟩
      cases nextQuery_cases mFns bdRandomMidId q ts endId with
      | done _ _ hrun =>
          left
          rw [queryStep, hrun]
      | asked _ _ hrun =>
          left
          rcases hrun with ⟨targetNodeId, hrun⟩
          rw [queryStep, hrun, hperiod]
      | waiting _ hrun =>
          left
          rw [queryStep, hrun, hperiod]
      | finished hidle hsent hmin hend hrun =>
          right
          refine ⟨ts, bdRandomMidId, endId, rfl, hidle, hsent, hmin, hend, ?_⟩
          rw [queryStep, hrun]
          exact finalState_ne_querying q endId

theorem queryStep_ne_querying {q : BdQuery} (h : q.mState ≠ .querying) (op : Int × QueryOp) :
    (queryStep mFns q op).mState ≠ .querying := by
  rcases queryStep_mState q op with heq | ⟨_, _, _, _, _, _, _, _, hne⟩
  · rwa [heq]
  · exact hne

theorem run_ne_querying {q : BdQuery} (h : q.mState ≠ .querying) (ops : List (Int × QueryOp)) :
    (ops.foldl (queryStep mFns) q).mState ≠ .querying := by
  induction ops generalizing q with
  | nil =>
      exact h
  | cons op ops ih =>
      exact ih (queryStep_ne_querying h op)

/-- A query that does not idle keeps the state that it stopped in. -/
theorem run_mState {q : BdQuery} (h : q.mState ≠ .querying) (hidle : doIdle q.mQueryFlags = false)
    (ops : List (Int × QueryOp)) : (ops.foldl (queryStep mFns) q).mState = q.mState := by
  induction ops generalizing q with
  | nil =>
      rfl
  | cons op ops ih =>
      have hflags : (queryStep mFns q op).mQueryFlags = q.mQueryFlags :=
        (queryStep_sameSearch q op).mQueryFlags
      calc (ops.foldl (queryStep mFns) (queryStep mFns q op)).mState
          = (queryStep mFns q op).mState := ih (queryStep_ne_querying h op) (by rwa [hflags])
        _ = q.mState := by
            rcases queryStep_mState q op with heq | ⟨_, _, _, _, hflag, _⟩
            · exact heq
            · rw [hflag h] at hidle
              cases hidle

/-! ## The halting rule -/

/-- A query that began at `now0` with `n` peers may stop at the time `now`. -/
structure MayHalt (mFns : BdDhtFunctions) (now0 : Int) (n : Nat) (r : QueryRun) (now : Int) :
    Prop where
  old : bitdhtMinQueryAge ≤ now - now0
  sent : ∀ e ∈ r.query.mClosest.entries, e.2.mLastSendTime ≠ 0 ∧ e.2.mPeerId ∈ r.asked
  ended : bitdhtMaxQueryAge < now - now0 ∨
    mFns.bdNodesPerBucket ≤ r.query.mClosest.size ∧
      (n ≤ mFns.bdNodesPerBucket → r.query.mClosest.size = mFns.bdNodesPerBucket) ∧
      ∀ e ∈ r.query.mClosest.entries, Replied r.replied e.2.mPeerId

/-- Over any calls at any times a query leaves the state `querying` only by a `nextQuery` that may
stop it, it never returns to it, and a query that does not idle never changes again. -/
theorem query_halts (mFns : BdDhtFunctions) (now0 : Int) (id : BdNodeId) (startList : List BdId)
    (queryFlags : UInt32) (ops : List (Int × QueryOp)) :
    let r := ops.foldl (runStep mFns) (QueryRun.new mFns now0 id startList queryFlags)
    (∀ op, r.query.mState = .querying → (runStep mFns r op).query.mState ≠ .querying →
      ∃ now bdRandomMidId endId, op = (now, .nextQuery bdRandomMidId endId) ∧
        MayHalt mFns now0 startList.length r now) ∧
    (r.query.mState ≠ .querying →
      ∀ post : List (Int × QueryOp), (post.foldl (runStep mFns) r).query.mState ≠ .querying) ∧
    (r.query.mState ≠ .querying → doIdle queryFlags = false →
      ∀ post : List (Int × QueryOp), let r' := post.foldl (runStep mFns) r
        r'.query.mState = r.query.mState ∧
          ∀ bdRandomMidId now endId,
            (r'.query.nextQuery mFns bdRandomMidId now endId).2 = none) := by
  intro r
  have hquery : r.query = ops.foldl (queryStep mFns)
      (BdQuery.new mFns now0 id startList queryFlags) := run_query ops _
  have hsame : SameSearch (BdQuery.new mFns now0 id startList queryFlags) r.query := by
    rw [hquery]
    exact run_sameSearch _ ops
  have hhistory : HistoryInv mFns r := (historyInv_new now0 id startList queryFlags).run ops
  refine ⟨?_, ?_, ?_⟩
  · intro op hstate hstop
    rcases queryStep_mState r.query op with heq | ⟨now, mid, endId, rfl, _, hsent, hmin, hend, _⟩
    · exact absurd (heq.trans hstate) hstop
    · rw [hsame.mQueryTS] at hmin hend
      refine ⟨now, mid, endId, rfl, hmin, ?_, ?_⟩
      · intro e he
        exact ⟨hsent e he, (hhistory.entries e he).sent (hsent e he)⟩
      · apply hend.imp_right
        rintro ⟨hfull, hrecv⟩
        refine ⟨hfull, ?_, fun e he => (hhistory.entries e he).received (hrecv e he)⟩
        intro hlen
        refine le_antisymm ?_ hfull
        rw [hquery]
        apply size_le_run le_rfl
        have hperm := new_entries_perm mFns now0 id startList queryFlags
        rw [Multimap.size, hperm.length_eq, List.length_map]
        exact hlen
  · intro hstate post
    rw [run_query]
    exact run_ne_querying hstate post
  · intro hstate hidle post r'
    have hflags : doIdle r.query.mQueryFlags = false := by rw [hsame.mQueryFlags]; exact hidle
    have hpost : r'.query = post.foldl (queryStep mFns) r.query := run_query post r
    have hstate' : r'.query.mState = r.query.mState := by
      rw [hpost]
      exact run_mState hstate hflags post
    refine ⟨hstate', ?_⟩
    intro mid now endId
    have hflags' : r'.query.mQueryFlags = r.query.mQueryFlags := by
      rw [hpost]
      exact (run_sameSearch r.query post).mQueryFlags
    rw [BdQuery.nextQuery, if_pos ⟨by rwa [hstate'], by rwa [hflags']⟩]

end BitDht
