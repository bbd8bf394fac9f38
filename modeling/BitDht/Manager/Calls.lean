import BitDht.Manager.CheckStatus
import BitDht.Node.Evolution

/-!
# Calls — what one call of the manager changes

One lemma for each call that does more than set a member: the queries that `startQueries` starts
(`startQueries_eq`), the four things that an iteration can do before it comes to the node
(`changeMode_cases`), and the queries that the other calls leave (`mLocalQueries_sublist`).
-/

namespace BitDht

open Container Outcome

variable {mFns : BdDhtFunctions}

namespace BdNode

/-- The query that `addQuery` adds. -/
def newQuery (s : BdNode mFns) (now : Int) (id : BdNodeId) (qflags : UInt32) : BdQuery :=
  BdQuery.new mFns now id
    ((s.mNodeSpace.findNearestNodes id bitdhtQueryStartPeers Multimap.empty).entries.map Prod.snd)
    qflags

theorem addQuery_eq (s : BdNode mFns) (now : Int) (id : BdNodeId) (qflags : UInt32) :
    s.addQuery now id qflags =
      { s with mLocalQueries := s.mLocalQueries ++ [s.newQuery now id qflags] } := rfl

end BdNode

namespace BdNodeManager

/-! ## The queries that `startQueries` adds -/

/-- The entry of an active peer after `startQueries`. -/
def asked (peer : BdQueryPeer) : BdQueryPeer :=
  if peer.mStatus = .ready then { peer with mStatus := .querying } else peer

/-- The active peers whose query is not started. -/
def readyPeers (c : BdNodeManager mFns) : List (BdNodeId × BdQueryPeer) :=
  c.mActivePeers.entries.filter (fun it => it.2.mStatus = .ready)

/-- The query that is started for an active peer. -/
def startedQuery (c : BdNodeManager mFns) (now : Int) (it : BdNodeId × BdQueryPeer) : BdQuery :=
  c.newQuery now it.1 (it.2.mQFlags ||| bitdhtQflagsDisguise)

theorem foldl_startQuery (now : Int) {l : List (BdNodeId × BdQueryPeer)}
    (hl : (l.map Prod.fst).Nodup) {c : BdNodeManager mFns}
    (hmem : ∀ it ∈ l, c.mActivePeers.find it.1 = some it.2) :
    ∃ active : OrdMap BdNodeId BdQueryPeer,
      l.foldl (startQuery now) c =
        { c with
            mLocalQueries := c.mLocalQueries ++
              (l.filter (fun it => it.2.mStatus = .ready)).map (c.startedQuery now)
            mActivePeers := active } ∧
      (∀ it ∈ l, active.find it.1 = some (asked it.2)) ∧
      ∀ id, (∀ it ∈ l, it.1 ≠ id) → active.find id = c.mActivePeers.find id := by
  induction l generalizing c with
  | nil =>
      refine ⟨c.mActivePeers, ?_, ?_, fun _ _ => rfl⟩
      · simp
      · intro it hit
        cases hit
  | cons it l ih =>
      rw [List.map_cons, List.nodup_cons] at hl
      have hne : ∀ it' ∈ l, it'.1 ≠ it.1 := by
        intro it' hit' heq
        exact hl.1 (heq ▸ List.mem_map_of_mem hit')
      by_cases hready : it.2.mStatus = .ready
      · -- the query of this peer is started, and its entry is the only one that changes
        have hround : startQuery now c it =
            { c with
                mLocalQueries := (c.mLocalQueries ++ [c.startedQuery now it])
                mActivePeers := c.mActivePeers.assign it.1 (asked it.2) } := by
          rw [startQuery, if_pos hready, asked, if_pos hready]
          rfl
        rcases ih hl.2 (c := startQuery now c it) (by
            intro it' hit'
            rw [hround]
            exact (OrdMap.find_assign_ne _ (hne it' hit') _).trans
              (hmem it' (List.mem_cons_of_mem it hit'))) with ⟨active, hrest, hasked, hother⟩
        refine ⟨active, ?_, ?_, ?_⟩
        · have hstarted : (startQuery now c it).startedQuery now = c.startedQuery now := by
            rw [hround]
            rfl
          rw [List.foldl_cons, hrest, hstarted, hround, List.filter_cons_of_pos (by simpa using hready),
            List.map_cons]
          simp only [List.append_assoc, List.singleton_append]
        · intro it' hit'
          rcases List.mem_cons.1 hit' with rfl | hit'
          · rw [hother it'.1 hne, hround]
            exact OrdMap.find_assign_self ..
          · exact hasked it' hit'
        · intro id hid
          rw [hother id (fun it' hit' => hid it' (List.mem_cons_of_mem it hit')), hround]
          exact OrdMap.find_assign_ne _ (hid it (List.mem_cons_self ..)).symm _
      · have hround : startQuery now c it = c := if_neg hready
        rcases ih hl.2 (fun it' hit' => hmem it' (List.mem_cons_of_mem it hit')) with
          ⟨active, hrest, hasked, hother⟩
        refine ⟨active, ?_, ?_, ?_⟩
        · rw [List.foldl_cons, hround, hrest, List.filter_cons_of_neg (by simpa using hready)]
        · intro it' hit'
          rcases List.mem_cons.1 hit' with rfl | hit'
          · rw [hother it'.1 hne, hmem it' (List.mem_cons_self ..), asked, if_neg hready]
          · exact hasked it' hit'
        · intro id hid
          exact hother id (fun it' hit' => hid it' (List.mem_cons_of_mem it hit'))

/-- What `startQueries` does. -/
theorem startQueries_eq (c : BdNodeManager mFns) (now : Int) :
    ∃ active : OrdMap BdNodeId BdQueryPeer,
      c.startQueries now =
        { c with
            mLocalQueries := c.mLocalQueries ++ c.readyPeers.map (c.startedQuery now)
            mActivePeers := active } ∧
      ∀ id, active.find id = (c.mActivePeers.find id).map asked := by
  rcases foldl_startQuery now c.mActivePeers.nodup_keys
    (fun it hit => OrdMap.mem_entries_iff.1 hit) with ⟨active, hrun, hasked, hother⟩
  refine ⟨active, hrun, ?_⟩
  intro id
  cases hfind : c.mActivePeers.find id with
  | none =>
      rw [hother id, hfind]
      · rfl
      · rintro ⟨id', peer⟩ hit rfl
        rw [OrdMap.mem_entries_iff, hfind] at hit
        cases hit
  | some peer =>
      exact hasked (id, peer) (OrdMap.mem_entries_iff.2 hfind)

theorem refreshed_eq (c : BdNodeManager mFns) (now : Int) :
    ∃ active : OrdMap BdNodeId BdQueryPeer,
      c.refreshed now =
        { c with
            mMode := .active
            mModeTS := now
            mLocalQueries := c.mLocalQueries ++ c.readyPeers.map (c.startedQuery now)
            mActivePeers := active } ∧
      ∀ id, active.find id = (c.mActivePeers.find id).map asked :=
  startQueries_eq { c with mMode := .active, mModeTS := now } now

theorem mem_refreshed {c : BdNodeManager mFns} {now : Int} {q : BdQuery}
    (h : q ∈ (c.refreshed now).mLocalQueries) :
    q ∈ c.mLocalQueries ∨ ∃ it ∈ c.readyPeers, q = c.startedQuery now it := by
  rcases c.refreshed_eq now with ⟨active, hrun, _⟩
  rw [hrun] at h
  rcases List.mem_append.1 h with hold | hnew
  · exact .inl hold
  · rcases List.mem_map.1 hnew with ⟨it, hit, rfl⟩
    exact .inr ⟨it, hit, rfl⟩

/-- The queries that are just started are in progress. -/
theorem mem_of_refreshed {c : BdNodeManager mFns} {now : Int} {q : BdQuery}
    (h : q ∈ (c.refreshed now).mLocalQueries) (hstate : q.mState ≠ .querying) :
    q ∈ c.mLocalQueries := by
  rcases mem_refreshed h with hold | ⟨it, _, rfl⟩
  · exact hold
  · exact absurd rfl hstate

/-- `checkStatus` removes queries and changes none. -/
theorem mem_of_checkStatus {c : BdNodeManager mFns} {q : BdQuery}
    (h : q ∈ c.checkStatus.mLocalQueries) : q ∈ c.mLocalQueries := by
  rcases c.checkStatus_eq with ⟨active, hrun, _⟩
  rw [hrun] at h
  exact List.mem_of_mem_filter h

theorem asked_ne_ready (peer : BdQueryPeer) : (asked peer).mStatus ≠ .ready := by
  rw [asked]
  split_ifs with hready
  · exact QueryState.noConfusion
  · exact hready

/-- The entry of an active peer after `checkStatus`. -/
def checked (c : BdNodeManager mFns) (id : BdNodeId) (peer : BdQueryPeer) : BdQueryPeer :=
  match c.lastQuery id with
  | some q => updatePeer peer q.status
  | none => peer

theorem find_checkStatus (c : BdNodeManager mFns) (id : BdNodeId) :
    c.checkStatus.mActivePeers.find id = (c.mActivePeers.find id).map (c.checked id) := by
  rcases c.checkStatus_eq with ⟨active, hrun, hupdated⟩
  have hfind := hupdated id
  rw [hrun, hfind]
  unfold checked
  cases c.lastQuery id with
  | none =>
      exact (Option.map_id_apply ..).symm
  | some q =>
      rfl

/-- What an iteration in the mode REFRESH does to the entries. -/
theorem find_refresh (c : BdNodeManager mFns) (now : Int) (id : BdNodeId) :
    (c.refreshed now).checkStatus.mActivePeers.find id =
      (c.mActivePeers.find id).map (fun peer => (c.refreshed now).checked id (asked peer)) := by
  rcases c.refreshed_eq now with ⟨active, hrun, hasked⟩
  have hactive : (c.refreshed now).mActivePeers = active := by rw [hrun]
  calc (c.refreshed now).checkStatus.mActivePeers.find id
      = ((c.refreshed now).mActivePeers.find id).map ((c.refreshed now).checked id) :=
        find_checkStatus ..
    _ = ((c.mActivePeers.find id).map asked).map ((c.refreshed now).checked id) := by
        rw [hactive, hasked id]
    _ = (c.mActivePeers.find id).map (fun peer => (c.refreshed now).checked id (asked peer)) :=
        Option.map_map ..

/-! ## The queries of an iteration -/

/-- What `changeMode` can do. -/
inductive ChangeMode (c : BdNodeManager mFns) (now : Int) (store whiteNodes : List BdPeer) : Prop
  | kept (mode : MgrState) (ts : Int) (hmode : mode = .off ∨ mode = .startup → c.mMode = mode)
      (hstartup : c.mMode = .startup → ¬ now - c.mModeTS > maxStartupTime)
      (hrefresh : c.mMode ≠ .refresh)
      (h : c.changeMode now store whiteNodes = { c with mMode := mode, mModeTS := ts })
  | started (hmode : c.mMode = .startup) (hage : now - c.mModeTS > maxStartupTime)
      (h : c.changeMode now store whiteNodes =
        { (c.onNode (fun s => (s.addQuery now s.mOwnId
              (bitdhtQflagsDoIdle ||| bitdhtQflagsDisguise)).addQuery now startupId
              (bitdhtQflagsDoIdle ||| bitdhtQflagsDisguise))) with
          mMode := .findself, mModeTS := now })
  | refreshed (hmode : c.mMode = .refresh)
      (h : c.changeMode now store whiteNodes = (c.refreshed now).checkStatus)
  | restarted (hmode : c.mMode = .failed)
      (h : c.changeMode now store whiteNodes = (c.stopDht now).startDht now store whiteNodes)

/-- Whatever the search for the own id comes to, only the mode changes. -/
theorem changeMode_findself {c : BdNodeManager mFns} (hmode : c.mMode = .findself) (now : Int)
    (store whiteNodes : List BdPeer) :
    ∃ mode ts, mode ≠ .off ∧ mode ≠ .startup ∧
      c.changeMode now store whiteNodes = { c with mMode := mode, mModeTS := ts } := by
  by_cases hage : now - c.mModeTS > maxFindselfTime
  · by_cases hmin : c.mNodeSpace.calcSpaceSize > minOpSpaceSize
    · refine ⟨.refresh, now, by decide, by decide, ?_⟩
      simp only [changeMode, hmode, if_pos hage, if_pos hmin]
      split_ifs
      · rfl
      · rfl
    · refine ⟨.failed, now, by decide, by decide, ?_⟩
      simp only [changeMode, hmode, if_neg hmin, if_pos hage]
      split_ifs
      · rfl
      · rfl
  · by_cases htrans : c.mNodeSpace.calcSpaceSize > transitionOpSpaceSize
    · refine ⟨.refresh, now, by decide, by decide, ?_⟩
      simp only [changeMode, hmode, if_neg hage, if_pos htrans]
    · refine ⟨c.mMode, c.mModeTS, ?_, ?_, ?_⟩
      · simp [hmode]
      · simp [hmode]
      · simp only [changeMode, hmode, if_neg hage, if_neg htrans]
        rw [← hmode]

theorem changeMode_cases (c : BdNodeManager mFns) (now : Int) (store whiteNodes : List BdPeer) :
    ChangeMode c now store whiteNodes := by
  have hsame : (c.mMode = .startup → ¬ now - c.mModeTS > maxStartupTime) → c.mMode ≠ .refresh →
      c.changeMode now store whiteNodes = c → ChangeMode c now store whiteNodes :=
    fun hstartup hrefresh h => .kept c.mMode c.mModeTS (fun _ => rfl) hstartup hrefresh h
  cases hmode : c.mMode with
  | off =>
      refine hsame (by simp [hmode]) (by simp [hmode]) ?_
      rw [changeMode, hmode]
  | startup =>
      by_cases hage : now - c.mModeTS > maxStartupTime
      · refine .started hmode hage ?_
        rw [changeMode, hmode]
        exact if_pos hage
      · refine hsame (fun _ => hage) (by simp [hmode]) ?_
        rw [changeMode, hmode]
        exact if_neg hage
  | findself =>
      rcases changeMode_findself hmode now store whiteNodes with ⟨mode, ts, hoff, hstartup, hrun⟩
      refine .kept mode ts ?_ (by simp [hmode]) (by simp [hmode]) hrun
      rintro (h | h)
      · exact absurd h hoff
      · exact absurd h hstartup
  | active =>
      by_cases hage : now - c.mModeTS > maxRefreshTime
      · refine .kept .refresh now ?_ (by simp [hmode]) (by simp [hmode]) ?_
        · rintro (hoff | hstartup)
          · cases hoff
          · cases hstartup
        · rw [changeMode, hmode]
          exact if_pos hage
      · refine hsame (by simp [hmode]) (by simp [hmode]) ?_
        rw [changeMode, hmode]
        exact if_neg hage
  | refresh =>
      refine .refreshed hmode ?_
      rw [changeMode, hmode]
      rfl
  | quiet =>
      refine hsame (by simp [hmode]) (by simp [hmode]) ?_
      rw [changeMode, hmode]
  | failed =>
      refine .restarted hmode ?_
      rw [changeMode, hmode]

/-- After the switch an iteration keeps the queries and all that is the manager's. -/
theorem iterationOn_ok {word : Nat → UInt32} {c c' : BdNodeManager mFns} {now : Int}
    {store whiteNodes : List BdPeer} {env : IterEnv}
    (h : c.iterationOn word now store whiteNodes env = .ok c') :
    c' = { c.changeMode now store whiteNodes with toBdNodeIter := c'.toBdNodeIter } ∧
      NodeEvolved (c.changeMode now store whiteNodes).toBdNode c'.toBdNode := by
  simp only [iterationOn] at h
  split_ifs at h
  · cases h
    exact ⟨rfl, .refl _⟩
  · rcases bind_eq_ok.1 h with ⟨node, hnode, hrest⟩
    cases hrest
    exact ⟨rfl, BdNodeIter.iterationOn_evolved hnode⟩

/-! ## The queries of the other calls -/

theorem foldl_addPotentialPeer (l : List BdPeer) (s : BdNode mFns) :
    l.foldl (fun s it => s.addPotentialPeer it.mPeerId) s =
      { s with mPotentialPeers := s.mPotentialPeers ++ l.map BdPeer.mPeerId } := by
  induction l generalizing s with
  | nil =>
      simp
  | cons it l ih =>
      rw [List.foldl_cons, ih, BdNode.addPotentialPeer, List.map_cons]
      simp only [List.append_assoc, List.singleton_append]

/-- `restartNode` reads the stored peers and has them pinged. -/
theorem restartNode_eq (s : BdNodeIter mFns) (store whiteNodes : List BdPeer) :
    s.restartNode store whiteNodes =
      { s with
          mStore := store
          mPotentialPeers := s.mPotentialPeers ++ store.map BdPeer.mPeerId ++
            whiteNodes.map BdPeer.mPeerId
          mWhiteNodes := whiteNodes } := by
  simp only [BdNodeIter.restartNode, foldl_addPotentialPeer]

theorem foldl_clearQuery (l : List (BdNodeId × BdQueryPeer)) (c : BdNodeManager mFns) :
    l.foldl (fun c it => if it.1 = c.mOwnId then c else c.onNode (fun s => s.clearQuery it.1)) c =
      { c with mLocalQueries := (c.mLocalQueries.filter (fun q =>
          !l.any (fun it => it.1 = q.mId && it.1 ≠ c.mOwnId))) } := by
  induction l generalizing c with
  | nil =>
      simp
  | cons it l ih =>
      rw [List.foldl_cons, ih]
      by_cases hown : it.1 = c.mOwnId
      · simp [hown]
      · have hqueries : ∀ q : BdQuery,
            (decide (q.mId ≠ it.1) && !l.any (fun it' => it'.1 = q.mId && it'.1 ≠ c.mOwnId)) =
              !(it :: l).any (fun it' => it'.1 = q.mId && it'.1 ≠ c.mOwnId) := by
          intro q
          by_cases hid : it.1 = q.mId
          · simp [← hid, hown]
          · simp [hid, Ne.symm hid]
        rw [if_neg hown, onNode, BdNode.clearQuery]
        simp only [List.filter_filter, hqueries, Bool.and_comm]

theorem removeAllFindNode_eq (c : BdNodeManager mFns) :
    c.removeAllFindNode =
      { c with
          mLocalQueries := (c.mLocalQueries.filter (fun q =>
            !c.mActivePeers.entries.any (fun it => it.1 = q.mId && it.1 ≠ c.mOwnId)))
          mActivePeers := OrdMap.empty } := by
  simp only [removeAllFindNode, foldl_clearQuery]

/-- No call but an iteration adds a query. -/
theorem mLocalQueries_sublist {c c' : BdNodeManager mFns} {op : (Nat → UInt32) × Int × ManagerOp}
    (hop : ∀ store whiteNodes env, op.2.2 ≠ .iteration store whiteNodes env)
    (h : managerStepOn c op = .ok c') : c'.mLocalQueries.Sublist c.mLocalQueries := by
  rcases op with ⟨word, now, op⟩
  cases op with
  | iteration store whiteNodes env =>
      exact absurd rfl (hop store whiteNodes env)
  | startDht store whiteNodes =>
      cases h
      rw [startDht, restartNode_eq]
  | stopDht =>
      cases h
      exact List.nil_sublist _
  | addFindNode id qflags sinFamily =>
      cases h
      rw [addFindNode]
      split
      · exact List.Sublist.refl _
      · exact List.Sublist.refl _
  | removeFindNode id =>
      cases h
      rw [removeFindNode]
      split
      · exact List.Sublist.refl _
      · exact List.filter_sublist
  | removeAllFindNode =>
      cases h
      rw [removeAllFindNode, foldl_clearQuery]
      exact List.filter_sublist
  | addCallback cb =>
      cases h
      rw [addCallback]
      split_ifs
      · exact List.Sublist.refl _
      · exact List.Sublist.refl _
  | removeCallback cb =>
      cases h
      exact List.Sublist.refl _
  | incomingMsg addr msg =>
      cases h
      exact List.Sublist.refl _
  | outgoingMsg =>
      cases h
      exact List.Sublist.refl _

/-- What new queries have and no call of a query breaks, all queries of the node have. -/
theorem forall_queries {P : BdQuery → Prop} (hP : ∀ q op, P q → P (queryStep mFns q op))
    (hnew : ∀ now id startList queryFlags, P (BdQuery.new mFns now id startList queryFlags))
    {c c' : BdNodeManager mFns} {op : (Nat → UInt32) × Int × ManagerOp}
    (h : ∀ q ∈ c.mLocalQueries, P q) (hstep : managerStepOn c op = .ok c') :
    ∀ q ∈ c'.mLocalQueries, P q := by
  rcases op with ⟨word, now, op⟩
  by_cases hop : ∀ store whiteNodes env, op ≠ .iteration store whiteNodes env
  · intro q hq
    exact h q ((mLocalQueries_sublist hop hstep).subset hq)
  · push Not at hop
    rcases hop with ⟨store, whiteNodes, env, rfl⟩
    refine (iterationOn_ok hstep).2.queries.forall_mem hP ?_
    cases changeMode_cases c now store whiteNodes with
    | kept mode ts _ _ _ hrun =>
        rw [hrun]
        exact h
    | started _ _ hrun =>
        rw [hrun]
        intro q hq
        rcases List.mem_append.1 hq with hq | hq
        · rcases List.mem_append.1 hq with hq | hq
          · exact h q hq
          · rw [List.mem_singleton.1 hq]
            exact hnew ..
        · rw [List.mem_singleton.1 hq]
          exact hnew ..
    | refreshed _ hrun =>
        rw [hrun]
        intro q hq
        rcases mem_refreshed (mem_of_checkStatus hq) with hold | ⟨it, _, rfl⟩
        · exact h q hold
        · exact hnew ..
    | restarted _ hrun =>
        rw [hrun, startDht, restartNode_eq]
        intro q hq
        cases hq

end BdNodeManager

end BitDht
