import BitDht.Manager.Manager

/-!
# CheckStatus — what one `checkStatus` does

`checkStatus` works on a snapshot of the queries and changes them, the active peers and the list of
calls as it goes.  Since the ids of the snapshot are distinct, each round can be described from the
state before all of them (`checkStatus_eq`).
-/

namespace BitDht

open Container

variable {mFns : BdDhtFunctions}

namespace BdNode

/-- The query whose state `QueryStatus` reports: the last one with the id. -/
def lastQuery (s : BdNode mFns) (id : BdNodeId) : Option BdQuery :=
  s.mLocalQueries.reverse.find? (fun it => it.mId = id)

/-- The query whose peers `getIdFromQuery` reports: the first one with the id. -/
def firstQuery (s : BdNode mFns) (id : BdNodeId) : Option BdQuery :=
  s.mLocalQueries.find? (fun it => it.mId = id)

end BdNode

/-- What `QueryStatus` reports of a query. -/
def BdQuery.status (q : BdQuery) : BdQueryStatus where
  mStatus := q.mState
  mQFlags := q.mQueryFlags
  mResults := q.result

theorem BdNode.find_queryStatus (s : BdNode mFns) (id : BdNodeId) :
    s.queryStatus.find id = (s.lastQuery id).map BdQuery.status := by
  have hfind := OrdMap.find_foldl_assign (fun it : BdQuery => decide_eq_true_iff (p := it.mId = id))
    BdQuery.status s.mLocalQueries OrdMap.empty
  rw [OrdMap.find_empty, Option.or_none] at hfind
  exact hfind

namespace BdNodeManager

theorem mId_of_lastQuery {s : BdNode mFns} {id : BdNodeId} {q : BdQuery}
    (h : s.lastQuery id = some q) : q ∈ s.mLocalQueries ∧ q.mId = id :=
  ⟨List.mem_reverse.1 (List.mem_of_find?_eq_some h), by simpa using List.find?_some h⟩

theorem mId_of_firstQuery {s : BdNode mFns} {id : BdNodeId} {q : BdQuery}
    (h : s.firstQuery id = some q) : q.mId = id := by
  simpa using List.find?_some h

/-! ## One round -/

/-- The queries for the id are removed. -/
def removed (it : BdNodeId × BdQueryStatus) : Bool :=
  (checkFlags it.2.mStatus).doRemove && !doIdle it.2.mQFlags

/-- The calls for the peers that `getIdFromQuery` finds. -/
def peerCalls (c : BdNodeManager mFns) (id : BdNodeId) (callbackStatus : Nat) :
    List PeerCallback :=
  ((c.firstQuery id).map BdQuery.matchResult).toList.flatten.flatMap
    (fun peer => c.mCallbacks.map (fun cb => ⟨cb, peer, callbackStatus⟩))

/-- The calls of one round. -/
def issued (c : BdNodeManager mFns) (it : BdNodeId × BdQueryStatus) : List PeerCallback :=
  if doCallback (c.mActivePeers.find it.1) it.2 && !removed it then
    c.peerCalls it.1 (checkFlags it.2.mStatus).callbackStatus
  else
    []

theorem doCallback_some_iff {peer : BdQueryPeer} {status : BdQueryStatus} :
    doCallback (some peer) status = true ↔
      peer.mStatus = status.mStatus ∨ (checkFlags status.mStatus).doCallback = true := by
  rw [doCallback, Bool.or_eq_true, decide_eq_true_iff]

theorem foldl_doPeerCallback (c : BdNodeManager mFns) (callbackStatus : Nat) (list : List BdPeer) :
    list.foldl (fun c it => c.doPeerCallback it callbackStatus) c =
      { c with peerCallbacks := (c.peerCallbacks ++ list.flatMap
          (fun peer => c.mCallbacks.map (fun cb => ⟨cb, peer, callbackStatus⟩))) } := by
  induction list generalizing c with
  | nil =>
      simp
  | cons peer list ih =>
      rw [List.foldl_cons, ih]
      simp [doPeerCallback]

theorem notifyPeers_eq (c : BdNodeManager mFns) (id : BdNodeId) (callbackStatus : Nat) :
    c.notifyPeers id callbackStatus =
      { c with peerCallbacks := c.peerCallbacks ++ c.peerCalls id callbackStatus } := by
  rw [notifyPeers, BdNode.getIdFromQuery, peerCalls, BdNode.firstQuery]
  cases c.mLocalQueries.find? (fun it => it.mId = id) with
  | none =>
      simp
  | some q =>
      simp [foldl_doPeerCallback]

theorem notifyPeers_of_none {c : BdNodeManager mFns} {id : BdNodeId}
    (h : c.firstQuery id = none) (callbackStatus : Nat) : c.notifyPeers id callbackStatus = c := by
  rw [notifyPeers_eq, peerCalls, h]
  simp

/-- No query with the id is left after they are cleared. -/
theorem firstQuery_clearQuery (s : BdNode mFns) (id : BdNodeId) :
    (s.clearQuery id).firstQuery id = none := by
  refine List.find?_eq_none.2 ?_
  intro q hq
  simpa using (List.mem_filter.1 hq).2

/-- The entry of an active peer is brought up to date. -/
def updateActive (m : OrdMap BdNodeId BdQueryPeer) (it : BdNodeId × BdQueryStatus) :
    OrdMap BdNodeId BdQueryPeer :=
  match m.find it.1 with
  | none => m
  | some peer => m.assign it.1 (updatePeer peer it.2)

/-- One round changes the queries, the entry of the id and the list of calls. -/
theorem checkQuery_eq (c : BdNodeManager mFns) (it : BdNodeId × BdQueryStatus) :
    c.checkQuery it =
      { c with
          mLocalQueries := (if removed it then c.mLocalQueries.filter (fun q => q.mId ≠ it.1)
            else c.mLocalQueries)
          mActivePeers := updateActive c.mActivePeers it
          peerCallbacks := c.peerCallbacks ++ c.issued it } := by
  rw [checkQuery, issued, ← removed]
  by_cases hremoved : removed it = true
  · -- the calls come too late: the peers are gone with the query
    have hnone : ∀ m, BdNode.firstQuery { c.toBdNode with mLocalQueries := m } it.1 = none →
        ∀ active, ({ c with mLocalQueries := m, mActivePeers := active } :
          BdNodeManager mFns).notifyPeers it.1 (checkFlags it.2.mStatus).callbackStatus =
            { c with mLocalQueries := m, mActivePeers := active } :=
      fun m hm active => notifyPeers_of_none hm _
    have hgone := hnone _ (firstQuery_clearQuery c.toBdNode it.1)
    rw [hremoved, if_pos rfl, if_pos rfl, Bool.not_true, Bool.and_false,
      if_neg Bool.false_ne_true, List.append_nil, updateActive]
    cases hfind : c.mActivePeers.find it.1 with
    | none =>
        have hfind' : (c.onNode (fun s => s.clearQuery it.1)).mActivePeers.find it.1 = none := hfind
        simp only [hfind', doCallback, Bool.false_eq_true, if_false]
        rfl
    | some peer =>
        have hfind' : (c.onNode (fun s => s.clearQuery it.1)).mActivePeers.find it.1 =
          some peer := hfind
        simp only [hfind']
        split_ifs
        · exact hgone _
        · rfl
  · rw [Bool.not_eq_true] at hremoved
    rw [hremoved, if_neg Bool.false_ne_true, if_neg Bool.false_ne_true, Bool.not_false,
      Bool.and_true, updateActive]
    cases hfind : c.mActivePeers.find it.1 with
    | none =>
        simp [doCallback]
    | some peer =>
        dsimp only
        split_ifs
        · exact notifyPeers_eq _ _ _
        · simp

/-! ## All rounds -/

/-- The calls of a round only depend on the queries for its id, its entry and the callbacks. -/
theorem issued_congr {c c' : BdNodeManager mFns} {it : BdNodeId × BdQueryStatus}
    (hquery : c'.firstQuery it.1 = c.firstQuery it.1)
    (hactive : c'.mActivePeers.find it.1 = c.mActivePeers.find it.1)
    (hcallbacks : c'.mCallbacks = c.mCallbacks) : c'.issued it = c.issued it := by
  rw [issued, issued, peerCalls, peerCalls, hquery, hactive, hcallbacks]

theorem find_updateActive_ne (m : OrdMap BdNodeId BdQueryPeer) {it : BdNodeId × BdQueryStatus}
    {id : BdNodeId} (h : id ≠ it.1) : (updateActive m it).find id = m.find id := by
  rw [updateActive]
  split
  · rfl
  · exact OrdMap.find_assign_ne m h _

theorem find_updateActive_self (m : OrdMap BdNodeId BdQueryPeer)
    (it : BdNodeId × BdQueryStatus) :
    (updateActive m it).find it.1 = (m.find it.1).map (fun peer => updatePeer peer it.2) := by
  rw [updateActive]
  cases hfind : m.find it.1 with
  | none =>
      exact hfind
  | some peer =>
      exact OrdMap.find_assign_self m it.1 _

/-- The queries that are left after the queries of some ids are removed. -/
def keptQueries (l : List (BdNodeId × BdQueryStatus)) (queries : List BdQuery) : List BdQuery :=
  queries.filter (fun q => !l.any (fun it => it.1 = q.mId && removed it))

theorem keptQueries_cons (it : BdNodeId × BdQueryStatus) (l : List (BdNodeId × BdQueryStatus))
    (queries : List BdQuery) :
    keptQueries l (if removed it then queries.filter (fun q => q.mId ≠ it.1) else queries) =
      keptQueries (it :: l) queries := by
  by_cases hremoved : removed it = true
  · rw [if_pos hremoved, keptQueries, keptQueries, List.filter_filter]
    congr 1
    funext q
    by_cases hid : it.1 = q.mId
    · simp [hid, hremoved]
    · simp [hid, Ne.symm hid]
  · rw [Bool.not_eq_true] at hremoved
    simp [keptQueries, hremoved]

/-- The queries for another id are kept. -/
theorem firstQuery_round (c : BdNodeManager mFns) {it : BdNodeId × BdQueryStatus} {id : BdNodeId}
    (h : id ≠ it.1) : (if removed it then c.mLocalQueries.filter (fun q => q.mId ≠ it.1)
      else c.mLocalQueries).find? (fun q => q.mId = id) = c.firstQuery id := by
  split_ifs
  · rw [List.find?_filter, BdNode.firstQuery]
    congr 1
    funext q
    by_cases hid : q.mId = id
    · simp [hid, h]
    · simp [hid]
  · rfl

/-- Rounds for distinct ids, described from the state before them. -/
theorem checkQueries_eq {l : List (BdNodeId × BdQueryStatus)} (hl : (l.map Prod.fst).Nodup)
    (c : BdNodeManager mFns) :
    ∃ active : OrdMap BdNodeId BdQueryPeer,
      l.foldl checkQuery c =
        { c with
            mLocalQueries := keptQueries l c.mLocalQueries
            mActivePeers := active
            peerCallbacks := c.peerCallbacks ++ l.flatMap c.issued } ∧
      (∀ it ∈ l, active.find it.1 =
        (c.mActivePeers.find it.1).map (fun peer => updatePeer peer it.2)) ∧
      ∀ id, (∀ it ∈ l, it.1 ≠ id) → active.find id = c.mActivePeers.find id := by
  induction l generalizing c with
  | nil =>
      refine ⟨c.mActivePeers, ?_, ?_, fun _ _ => rfl⟩
      · simp [keptQueries]
      · intro it hit
        cases hit
  | cons it l ih =>
      rw [List.map_cons, List.nodup_cons] at hl
      have hne : ∀ it' ∈ l, it'.1 ≠ it.1 := by
        intro it' hit' heq
        exact hl.1 (heq ▸ List.mem_map_of_mem hit')
      rcases ih hl.2 (c.checkQuery it) with ⟨active, hrest, hupdated, hother⟩
      have hround := c.checkQuery_eq it
      refine ⟨active, ?_, ?_, ?_⟩
      · -- the later rounds make the calls that they would have made first
        have hissued : l.flatMap (c.checkQuery it).issued = l.flatMap c.issued := by
          apply List.flatMap_congr
          intro it' hit'
          apply issued_congr
          · rw [hround]
            exact c.firstQuery_round (hne it' hit')
          · rw [hround]
            exact find_updateActive_ne c.mActivePeers (hne it' hit')
          · rw [hround]
        rw [List.foldl_cons, hrest, hissued, hround, List.flatMap_cons]
        simp only [keptQueries_cons, List.append_assoc]
      · intro it' hit'
        rcases List.mem_cons.1 hit' with rfl | hit'
        · rw [hother it'.1 hne, hround]
          exact find_updateActive_self c.mActivePeers it'
        · rw [hupdated it' hit', hround]
          exact congrArg _ (find_updateActive_ne c.mActivePeers (hne it' hit'))
      · intro id hid
        rw [hother id (fun it' hit' => hid it' (List.mem_cons_of_mem it hit')), hround]
        exact find_updateActive_ne c.mActivePeers (hid it (List.mem_cons_self ..)).symm

/-- What `checkStatus` does. -/
theorem checkStatus_eq (c : BdNodeManager mFns) :
    ∃ active : OrdMap BdNodeId BdQueryPeer,
      c.checkStatus =
        { c with
            mLocalQueries := keptQueries c.queryStatus.entries c.mLocalQueries
            mActivePeers := active
            peerCallbacks := c.peerCallbacks ++ c.queryStatus.entries.flatMap c.issued } ∧
      ∀ id, active.find id =
        match c.lastQuery id with
        | some q => (c.mActivePeers.find id).map (fun peer => updatePeer peer q.status)
        | none => c.mActivePeers.find id := by
  rcases checkQueries_eq c.queryStatus.nodup_keys c with ⟨active, hrun, hupdated, hother⟩
  refine ⟨active, hrun, ?_⟩
  intro id
  have hstatus := c.toBdNode.find_queryStatus id
  cases hlast : c.lastQuery id with
  | none =>
      rw [hlast] at hstatus
      apply hother
      rintro ⟨id', status⟩ hit rfl
      rw [OrdMap.mem_entries_iff, hstatus] at hit
      cases hit
  | some q =>
      rw [hlast] at hstatus
      exact hupdated (id, q.status) (OrdMap.mem_entries_iff.2 hstatus)

/-! ## Runs up to a `checkStatus` -/

/-- The state in which an iteration in the mode REFRESH calls `checkStatus`. -/
def refreshed (c : BdNodeManager mFns) (now : Int) : BdNodeManager mFns :=
  { c with mMode := .active, mModeTS := now }.startQueries now

/-- In a run from `c₀`, `P` holds of every state in which `checkStatus` is called. -/
def AtChecks (P : BdNodeManager mFns → Prop) (c₀ : BdNodeManager mFns)
    (ops : List ((Nat → UInt32) × Int × ManagerOp)) : Prop :=
  ∀ pre word now store whiteNodes env post c,
    ops = pre ++ (word, now, .iteration store whiteNodes env) :: post →
      pre.foldlM managerStepOn c₀ = .ok c → c.mMode = .refresh → P (c.refreshed now)

theorem AtChecks.congr {P Q : BdNodeManager mFns → Prop} (h : ∀ c, P c ↔ Q c)
    (c₀ : BdNodeManager mFns) (ops : List ((Nat → UInt32) × Int × ManagerOp)) :
    AtChecks P c₀ ops ↔ AtChecks Q c₀ ops := by
  constructor
  · intro hp pre word now store whiteNodes env post c hops hrun hmode
    exact (h _).1 (hp pre word now store whiteNodes env post c hops hrun hmode)
  · intro hq pre word now store whiteNodes env post c hops hrun hmode
    exact (h _).2 (hq pre word now store whiteNodes env post c hops hrun hmode)

end BdNodeManager

end BitDht
