import BitDht.Manager.Callbacks
import BitDht.Manager.Calls

/-!
# Correspondence — the active peers and their queries

The manager keeps the ids that are to be found, and its node the queries for them.  For an id that
the node does not look for itself the two belong together (`Matches`): an id that is not active or is
READY has no query, one that is looked for has one, and so has one that was found as long as its
query idles.
-/

namespace BitDht

open Container Outcome

variable {mFns : BdDhtFunctions}

/-- The queries for `id`. -/
def BdNode.queriesFor (s : BdNode mFns) (id : BdNodeId) : List BdQuery :=
  s.mLocalQueries.filter (fun q => q.mId = id)

theorem BdNode.lastQuery_eq (s : BdNode mFns) (id : BdNodeId) :
    s.lastQuery id = (s.queriesFor id).getLast? := by
  calc
    s.lastQuery id
        = (s.mLocalQueries.reverse.filter (fun q => q.mId = id)).head? := by
          rw [BdNode.lastQuery, List.head?_filter]
    _ = (s.queriesFor id).reverse.head? := by rw [List.filter_reverse, BdNode.queriesFor]
    _ = (s.queriesFor id).getLast? := List.head?_reverse

namespace BdNodeManager

/-! ## One entry and its queries -/

/-- The entry of an id and the queries for it belong together. -/
inductive Matches : Option BdQueryPeer → List BdQuery → Prop
  | inactive : Matches none []
  | ready {peer : BdQueryPeer} (hstatus : peer.mStatus = .ready) : Matches (some peer) []
  | running {peer : BdQueryPeer} {q : BdQuery} (hstatus : peer.mStatus ≠ .ready)
      (hrunning : peer.mStatus = .querying ∨ doIdle peer.mQFlags = true)
      (hflags : q.mQueryFlags = peer.mQFlags ||| bitdhtQflagsDisguise) (hbegun : q.mState ≠ .ready) :
      Matches (some peer) [q]
  | done {peer : BdQueryPeer} (hready : peer.mStatus ≠ .ready) (hquerying : peer.mStatus ≠ .querying)
      (hidle : doIdle peer.mQFlags = false) : Matches (some peer) []

/-- The entry of `id` in `mActivePeers` and the queries for it belong together. -/
def MatchesAt (id : BdNodeId) (c : BdNodeManager mFns) : Prop :=
  Matches (c.mActivePeers.find id) (c.queriesFor id)

theorem doIdle_disguise (flags : UInt32) :
    doIdle (flags ||| bitdhtQflagsDisguise) = doIdle flags := by
  have hdistrib : (flags ||| bitdhtQflagsDisguise) &&& bitdhtQflagsDoIdle =
      flags &&& bitdhtQflagsDoIdle ||| bitdhtQflagsDisguise &&& bitdhtQflagsDoIdle := by
    apply UInt32.toBitVec_inj.1
    ext i hi
    simp [Bool.and_or_distrib_right]
  have hbits : bitdhtQflagsDisguise &&& bitdhtQflagsDoIdle = 0 := by decide
  rw [doIdle, doIdle, hdistrib, hbits, UInt32.or_zero]

/-- An iteration of the node keeps a query for the id, with its flags. -/
theorem Matches.evolved {entry : Option BdQueryPeer} {id : BdNodeId} {queries queries' : List BdQuery}
    (h : Matches entry (queries.filter (fun q => q.mId = id)))
    (hevolved : Evolved mFns queries queries') :
    Matches entry (queries'.filter (fun q => q.mId = id)) := by
  have hlen : (queries'.filter (fun q => q.mId = id)).length =
      (queries.filter (fun q => q.mId = id)).length := by
    have hcount := hevolved.ids.countP_eq (fun id' => decide (id' = id))
    rwa [List.countP_map, List.countP_map, List.countP_eq_length_filter,
      List.countP_eq_length_filter] at hcount
  generalize hl : queries.filter (fun q => q.mId = id) = l at h hlen
  cases h with
  | inactive =>
      rw [List.eq_nil_of_length_eq_zero hlen]
      exact .inactive
  | ready hstatus =>
      rw [List.eq_nil_of_length_eq_zero hlen]
      exact .ready hstatus
  | done hready hquerying hidle =>
      rw [List.eq_nil_of_length_eq_zero hlen]
      exact .done hready hquerying hidle
  | @running peer q hstatus hrunning hflags hbegun =>
      rcases List.length_eq_one_iff.1 hlen with ⟨q', hq'⟩
      have hall := hevolved.forall_mem (P := fun q => q.mId = id →
        q.mQueryFlags = peer.mQFlags ||| bitdhtQflagsDisguise ∧ q.mState ≠ .ready) ?_ ?_
      · have hmem : q' ∈ queries'.filter (fun q => q.mId = id) := by
          rw [hq']
          exact List.mem_singleton_self q'
        rcases List.mem_filter.1 hmem with ⟨hq, hid⟩
        rcases hall q' hq (of_decide_eq_true hid) with ⟨hflags', hbegun'⟩
        rw [hq']
        exact .running hstatus hrunning hflags' hbegun'
      · intro q op hq hid
        have hsame : SameSearch q (queryStep mFns q op) := queryStep_sameSearch q op
        rw [hsame.mId] at hid
        rw [hsame.mQueryFlags]
        exact ⟨(hq hid).1, queryStep_begun (hq hid).2 op⟩
      · intro q₁ hq₁ hid
        have hmem : q₁ ∈ queries.filter (fun q => q.mId = id) :=
          List.mem_filter.2 ⟨hq₁, decide_eq_true hid⟩
        rw [hl, List.mem_singleton] at hmem
        rw [hmem]
        exact ⟨hflags, hbegun⟩

/-! ## The calls -/

section calls

variable {c : BdNodeManager mFns} {id : BdNodeId}

/-- The query that `startQueries` starts for an id with this entry. -/
def newQueries (c : BdNodeManager mFns) (now : Int) (id : BdNodeId) :
    Option BdQueryPeer → List BdQuery
  | none => []
  | some peer => if peer.mStatus = .ready then [c.startedQuery now (id, peer)] else []

theorem queriesFor_refreshed (c : BdNodeManager mFns) (now : Int) (id : BdNodeId) :
    (c.refreshed now).queriesFor id =
      c.queriesFor id ++ c.newQueries now id (c.mActivePeers.find id) := by
  have hmId : (fun q : BdQuery => decide (q.mId = id)) ∘ c.startedQuery now =
      fun it => decide (it.1 = id) := rfl
  have hready : (c.readyPeers.filter (fun it => it.1 = id)).map (c.startedQuery now) =
      c.newQueries now id (c.mActivePeers.find id) := by
    rw [readyPeers, List.filter_comm,
      OrdMap.filter_key _ (fun it => decide_eq_true_iff (p := it.1 = id))]
    cases c.mActivePeers.find id with
    | none =>
        rfl
    | some peer =>
        rw [newQueries]
        by_cases hstatus : peer.mStatus = .ready
        · simp [hstatus]
        · simp [hstatus]
  rcases c.refreshed_eq now with ⟨active, hrun, _⟩
  rw [hrun, ← hready, BdNode.queriesFor, List.filter_append, List.filter_map, hmId]
  rfl

/-- `startQueries` starts the query for a READY id. -/
theorem MatchesAt.refreshed (h : MatchesAt id c) (now : Int) : MatchesAt id (c.refreshed now) := by
  rcases c.refreshed_eq now with ⟨active, hrun, hasked⟩
  have hactive : (c.refreshed now).mActivePeers.find id = (c.mActivePeers.find id).map asked := by
    rw [hrun]
    exact hasked id
  rw [MatchesAt, hactive, queriesFor_refreshed]
  rw [MatchesAt] at h
  generalize c.mActivePeers.find id = entry at h
  generalize c.queriesFor id = queries at h
  cases h with
  | inactive =>
      exact .inactive
  | ready hstatus =>
      rw [Option.map_some, asked, if_pos hstatus, newQueries, if_pos hstatus, List.nil_append]
      exact .running QueryState.noConfusion (.inl rfl) rfl QueryState.noConfusion
  | running hstatus hrunning hflags hbegun =>
      rw [Option.map_some, asked, if_neg hstatus, newQueries, if_neg hstatus, List.append_nil]
      exact .running hstatus hrunning hflags hbegun
  | done hready hquerying hidle =>
      rw [Option.map_some, asked, if_neg hready, newQueries, if_neg hready, List.append_nil]
      exact .done hready hquerying hidle

theorem queriesFor_checkStatus (c : BdNodeManager mFns) (id : BdNodeId) :
    c.checkStatus.queriesFor id =
      match c.lastQuery id with
      | some q => if removed (id, q.status) then [] else c.queriesFor id
      | none => c.queriesFor id := by
  have hany : ∀ q : BdQuery, decide (q.mId = id) = true →
      c.queryStatus.entries.any (fun it => it.1 = q.mId && removed it) =
        match c.lastQuery id with
        | some q => removed (id, q.status)
        | none => false := by
    intro q hq
    rw [of_decide_eq_true hq, ← List.any_filter,
      OrdMap.filter_key _ (fun it => decide_eq_true_iff (p := it.1 = id)), BdNode.find_queryStatus]
    cases c.lastQuery id with
    | none =>
        rfl
    | some l =>
        exact Bool.or_false _
  rcases c.checkStatus_eq with ⟨active, hrun, _⟩
  rw [hrun, BdNode.queriesFor, keptQueries, List.filter_comm, BdNode.queriesFor]
  rw [List.filter_congr (fun q hq => congrArg _ (hany q (List.mem_filter.1 hq).2))]
  cases c.lastQuery id with
  | none =>
      exact List.filter_true _
  | some l =>
      dsimp only
      cases removed (id, l.status) with
      | false =>
          exact List.filter_true _
      | true =>
          exact List.filter_false _

/-- `checkStatus` takes over the state of the query, and removes it if it is done and does not
idle. -/
theorem MatchesAt.checkStatus (h : MatchesAt id c) : MatchesAt id c.checkStatus := by
  have hlast := c.toBdNode.lastQuery_eq id
  rw [MatchesAt, find_checkStatus, queriesFor_checkStatus]
  unfold checked
  rw [MatchesAt] at h
  generalize c.mActivePeers.find id = entry at h
  generalize c.queriesFor id = queries at h hlast
  rw [hlast]
  cases h with
  | inactive =>
      exact .inactive
  | ready hstatus =>
      exact .ready hstatus
  | done hready hquerying hidle =>
      exact .done hready hquerying hidle
  | @running peer q hstatus hrunning hflags hbegun =>
      have hidle : doIdle q.mQueryFlags = doIdle peer.mQFlags := by rw [hflags, doIdle_disguise]
      simp only [List.getLast?_singleton, Option.map_some]
      by_cases hremoved : removed (id, q.status) = true
      · rw [if_pos hremoved]
        rw [removed, Bool.and_eq_true, Bool.not_eq_true'] at hremoved
        refine .done hbegun ?_ (hidle.symm.trans hremoved.2)
        intro hquerying
        have hopen := hremoved.1
        rw [show q.status.mStatus = .querying from hquerying] at hopen
        cases hopen
      · rw [if_neg hremoved]
        refine .running hbegun ?_ hflags hbegun
        by_cases hquerying : q.mState = .querying
        · exact .inl hquerying
        · have hdone : (checkFlags q.mState).doRemove = true := by
            cases hstate : q.mState with
            | ready =>
                exact absurd hstate hbegun
            | querying =>
                exact absurd hstate hquerying
            | failure | foundClosest | peerUnreachable | success =>
                rfl
          rw [removed, Bool.and_eq_true, Bool.not_eq_true'] at hremoved
          have hnot : ¬ doIdle q.mQueryFlags = false := fun hflag => hremoved ⟨hdone, hflag⟩
          exact .inr (hidle.symm.trans (Bool.eq_true_of_not_eq_false hnot))

theorem MatchesAt.of_eq {c' : BdNodeManager mFns} (h : MatchesAt id c)
    (hfind : c'.mActivePeers.find id = c.mActivePeers.find id)
    (hqueries : c'.queriesFor id = c.queriesFor id) : MatchesAt id c' := by
  rw [MatchesAt, hfind, hqueries]
  exact h

theorem MatchesAt.stopDht (c : BdNodeManager mFns) (id : BdNodeId) (now : Int) :
    MatchesAt id (c.stopDht now) := by
  rw [MatchesAt, BdNodeManager.stopDht, OrdMap.find_mapVals]
  cases c.mActivePeers.find id with
  | none =>
      exact .inactive
  | some peer =>
      exact .ready rfl

/-- A new entry is READY. -/
theorem MatchesAt.addFindNode (h : MatchesAt id c) (id' : BdNodeId) (qflags : UInt32)
    (sinFamily : Nat) : MatchesAt id (c.addFindNode id' qflags sinFamily) := by
  rw [BdNodeManager.addFindNode]
  cases hfind : c.mActivePeers.find id' with
  | some peer =>
      exact h
  | none =>
      by_cases hid : id = id'
      · subst hid
        rw [MatchesAt, hfind] at h
        generalize hqueries : c.queriesFor id = queries at h
        cases h with
        | inactive =>
            have hnew : ∀ peer, peer.mStatus = .ready → Matches
                ((c.mActivePeers.assign id peer).find id) (c.queriesFor id) := by
              intro peer hpeer
              rw [OrdMap.find_assign_self, hqueries]
              exact .ready hpeer
            exact hnew _ rfl
      · exact h.of_eq (OrdMap.find_assign_ne _ hid _) rfl

theorem MatchesAt.removeFindNode (h : MatchesAt id c) (id' : BdNodeId) :
    MatchesAt id (c.removeFindNode id') := by
  rw [BdNodeManager.removeFindNode]
  cases c.mActivePeers.find id' with
  | none =>
      exact h
  | some peer =>
      have hqueries : ∀ queries : List BdQuery,
          (queries.filter (fun q => q.mId ≠ id')).filter (fun q => q.mId = id) =
            if id = id' then [] else queries.filter (fun q => q.mId = id) := by
        intro queries
        rw [List.filter_filter]
        split_ifs with hid
        · apply List.filter_eq_nil_iff.2
          intro q _
          simp [hid]
        · apply List.filter_congr
          intro q _
          by_cases hq : q.mId = id
          · simp [hq, hid]
          · simp [hq]
      by_cases hid : id = id'
      · have hgone : Matches ((c.mActivePeers.erase id').find id)
            ((c.mLocalQueries.filter (fun q => q.mId ≠ id')).filter (fun q => q.mId = id)) := by
          rw [hqueries, if_pos hid, hid, OrdMap.find_erase_self]
          exact .inactive
        exact hgone
      · exact h.of_eq (OrdMap.find_erase_ne _ hid) ((hqueries _).trans (if_neg hid))

/-- The queries of all active ids are removed, and no other id has one. -/
theorem MatchesAt.removeAllFindNode (h : MatchesAt id c) (hown : id ≠ c.mOwnId) :
    MatchesAt id c.removeAllFindNode := by
  have hqueries : (c.mLocalQueries.filter (fun q =>
      !c.mActivePeers.entries.any (fun it => it.1 = q.mId && it.1 ≠ c.mOwnId))).filter
        (fun q => q.mId = id) = [] := by
    apply List.filter_eq_nil_iff.2
    intro q hq hid
    rw [decide_eq_true_eq] at hid
    subst hid
    rcases List.mem_filter.1 hq with ⟨hmem, hkept⟩
    have hfor : q ∈ c.queriesFor q.mId := List.mem_filter.2 ⟨hmem, decide_eq_true rfl⟩
    cases hfind : c.mActivePeers.find q.mId with
    | none =>
        rw [MatchesAt, hfind] at h
        generalize c.queriesFor q.mId = queries at h hfor
        cases h with
        | inactive =>
            cases hfor
    | some peer =>
        have hany : c.mActivePeers.entries.any
            (fun it => it.1 = q.mId && it.1 ≠ c.mOwnId) = true :=
          List.any_eq_true.2 ⟨(q.mId, peer), OrdMap.mem_entries_iff.2 hfind, by simpa using hown⟩
        rw [hany] at hkept
        cases hkept
  rw [removeAllFindNode_eq]
  show Matches none _
  rw [BdNode.queriesFor, hqueries]
  exact .inactive

/-- The queries that the node starts for itself are for other ids. -/
theorem MatchesAt.started (h : MatchesAt id c) (hown : id ≠ c.mOwnId) (hstartup : id ≠ startupId)
    (now : Int) (qflags : UInt32) :
    MatchesAt id ({ (c.onNode (fun s => (s.addQuery now s.mOwnId qflags).addQuery now startupId
      qflags)) with mMode := .findself, mModeTS := now } : BdNodeManager mFns) := by
  refine h.of_eq rfl ?_
  simp only [onNode, BdNode.addQuery_eq, BdNode.queriesFor, List.filter_append]
  rw [List.filter_cons_of_neg, List.filter_cons_of_neg, List.filter_nil, List.append_nil,
    List.append_nil]
  · exact fun hid => hstartup (of_decide_eq_true hid).symm
  · exact fun hid => hown (of_decide_eq_true hid).symm

theorem managerStepOn_matchesAt {c' : BdNodeManager mFns}
    {op : (Nat → UInt32) × Int × ManagerOp} (h : MatchesAt id c) (hown : id ≠ c.mOwnId) (hstartup : id ≠ startupId)
    (hstep : managerStepOn c op = .ok c') : MatchesAt id c' ∧ c'.mOwnId = c.mOwnId := by
  rcases op with ⟨word, now, op⟩
  cases op with
  | startDht store whiteNodes =>
      cases hstep
      rw [BdNodeManager.startDht, restartNode_eq]
      exact ⟨h, rfl⟩
  | stopDht =>
      cases hstep
      exact ⟨.stopDht c id now, rfl⟩
  | addFindNode id' qflags sinFamily =>
      cases hstep
      refine ⟨h.addFindNode id' qflags sinFamily, ?_⟩
      rw [BdNodeManager.addFindNode]
      split
      · rfl
      · rfl
  | removeFindNode id' =>
      cases hstep
      refine ⟨h.removeFindNode id', ?_⟩
      rw [BdNodeManager.removeFindNode]
      split
      · rfl
      · rfl
  | removeAllFindNode =>
      cases hstep
      refine ⟨h.removeAllFindNode hown, ?_⟩
      rw [removeAllFindNode_eq]
  | addCallback cb =>
      cases hstep
      rw [addCallback]
      split_ifs
      · exact ⟨h, rfl⟩
      · exact ⟨h, rfl⟩
  | removeCallback cb =>
      cases hstep
      exact ⟨h, rfl⟩
  | incomingMsg addr msg =>
      cases hstep
      exact ⟨h, rfl⟩
  | outgoingMsg =>
      cases hstep
      exact ⟨h, rfl⟩
  | iteration store whiteNodes env =>
      rcases iterationOn_ok hstep with ⟨hc', hnode⟩
      have hswitch : MatchesAt id (c.changeMode now store whiteNodes) ∧
          (c.changeMode now store whiteNodes).mOwnId = c.mOwnId := by
        cases changeMode_cases c now store whiteNodes with
        | kept mode ts hmode _ hrefresh hrun =>
            rw [hrun]
            exact ⟨h, rfl⟩
        | started hmode hage hrun =>
            rw [hrun]
            exact ⟨h.started hown hstartup now _, rfl⟩
        | refreshed hmode hrun =>
            rw [hrun]
            refine ⟨(h.refreshed now).checkStatus, ?_⟩
            rcases c.refreshed_eq now with ⟨active, hrefreshed, _⟩
            rcases (c.refreshed now).checkStatus_eq with ⟨active', hcheck, _⟩
            rw [hcheck, hrefreshed]
        | restarted hmode hrun =>
            rw [hrun, BdNodeManager.startDht, restartNode_eq]
            exact ⟨.stopDht c id now, rfl⟩
      have hactive : c'.mActivePeers = (c.changeMode now store whiteNodes).mActivePeers := by
        rw [hc']
      refine ⟨?_, hnode.mOwnId.trans hswitch.2⟩
      rw [MatchesAt, hactive]
      exact Matches.evolved hswitch.1 hnode.queries

end calls

/-! ## Runs -/

/-- An id that is not active or is READY has no query; one that is looked for, or that was looked for
by a query that idles, has one. -/
structure QueriesCorrespond (c : BdNodeManager mFns) (id : BdNodeId) : Prop where
  inactive : c.mActivePeers.find id = none → c.queriesFor id = []
  ready : ∀ peer, c.mActivePeers.find id = some peer → peer.mStatus = .ready →
    c.queriesFor id = []
  running : ∀ peer, c.mActivePeers.find id = some peer →
    peer.mStatus = .querying ∨ peer.mStatus ≠ .ready ∧ doIdle peer.mQFlags = true →
    ∃ q, c.queriesFor id = [q] ∧ doIdle q.mQueryFlags = doIdle peer.mQFlags

theorem MatchesAt.queriesCorrespond {c : BdNodeManager mFns} {id : BdNodeId} (h : MatchesAt id c) :
    QueriesCorrespond c id := by
  rw [MatchesAt] at h
  refine ⟨?_, ?_, ?_⟩
  · intro hfind
    rw [hfind] at h
    generalize c.queriesFor id = queries at h
    cases h
    rfl
  · intro peer hfind hready
    rw [hfind] at h
    generalize c.queriesFor id = queries at h
    cases h with
    | ready _ =>
        rfl
    | running hstatus _ _ _ =>
        exact absurd hready hstatus
    | done _ _ _ =>
        rfl
  · intro peer hfind hrunning
    rw [hfind] at h
    generalize c.queriesFor id = queries at h
    cases h with
    | ready hstatus =>
        rcases hrunning with hquerying | ⟨hnot, _⟩
        · rw [hstatus] at hquerying
          cases hquerying
        · exact absurd hstatus hnot
    | @running _ q _ _ hflags _ =>
        exact ⟨q, rfl, by rw [hflags, doIdle_disguise]⟩
    | done _ hquerying hidle =>
        rcases hrunning with hstatus | ⟨_, hflag⟩
        · exact absurd hstatus hquerying
        · rw [hflag] at hidle
          cases hidle

/-- After every run the active peers and the queries correspond, for every id but the two that the
node looks for itself. -/
theorem queries_correspond (ownId : BdNodeId) (dhtVersion : List UInt8)
    (store whiteNodes : List BdPeer) (rand : Nat → UInt32)
    {ops : List ((Nat → UInt32) × Int × ManagerOp)} {c : BdNodeManager mFns}
    (hrun : ops.foldlM managerStepOn (new ownId dhtVersion store whiteNodes rand) = .ok c)
    {id : BdNodeId} (hown : id ≠ ownId) (hstartup : id ≠ startupId) : QueriesCorrespond c id := by
  have hstep : ∀ {c c' : BdNodeManager mFns} {op : (Nat → UInt32) × Int × ManagerOp},
      MatchesAt id c ∧ id ≠ c.mOwnId → managerStepOn c op = .ok c' →
        MatchesAt id c' ∧ id ≠ c'.mOwnId := by
    intro c c' op h hc'
    rcases managerStepOn_matchesAt h.1 h.2 hstartup hc' with ⟨hmatches, hid⟩
    exact ⟨hmatches, hid ▸ h.2⟩
  have hstart : MatchesAt id (new ownId dhtVersion store whiteNodes rand : BdNodeManager mFns) :=
    .inactive
  exact (foldlM_inv hstep ⟨hstart, hown⟩ hrun).1.queriesCorrespond

/-- The query for an id has started when its removal is asked for; then the id is added again, with a query
that idles, and that is started as well. -/
def readdOps : List ((Nat → UInt32) × Int × ManagerOp) :=
  searchOps ++ [searchIteration 74, (fun _ => 0, 75, .removeFindNode (byteId 1)),
    (fun _ => 0, 76, .addFindNode (byteId 1) bitdhtQflagsDoIdle afInet), searchIteration 85,
    searchIteration 86]

theorem queries_correspond_readded : ∃ c, readdOps.foldlM managerStepOn searchStart = .ok c ∧
    (c.queriesFor (byteId 1)).map (fun q => doIdle q.mQueryFlags) = [true] ∧
    QueriesCorrespond c (byteId 1) := by
  have hrun : Outcome.holds (readdOps.foldlM managerStepOn searchStart) (fun c =>
      (c.queriesFor (byteId 1)).map (fun q => doIdle q.mQueryFlags) = [true]) = true := by
    decide +kernel
  rcases Outcome.holds_iff.1 hrun with ⟨c, hc, htest⟩
  exact ⟨c, hc, of_decide_eq_true htest,
    queries_correspond (byteId 0) [] [] [] (fun _ => 5) hc (by decide) (by decide)⟩

end BdNodeManager

end BitDht
