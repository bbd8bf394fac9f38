import BitDht.Manager.Calls

/-!
# Queries — one query for one id

Queries are added when the node has started and for the active peers that are READY, and `addQuery`
does not look whether there is one for the id.  `uniqueQueries_iff` says which runs have at most one
query for each id, and `uniqueQueries_of_calls` which calls from outside keep to it.
-/

namespace BitDht

open Container Outcome

variable {mFns : BdDhtFunctions}

namespace BdNode

/-- The ids of the queries. -/
def queryIds (s : BdNode mFns) : List BdNodeId := s.mLocalQueries.map BdQuery.mId

@[simp] theorem queryIds_addQuery (s : BdNode mFns) (now : Int) (id : BdNodeId) (qflags : UInt32) :
    (s.addQuery now id qflags).queryIds = s.queryIds ++ [id] := by
  rw [addQuery_eq, queryIds, List.map_append]
  rfl

end BdNode

theorem NodeEvolved.queryIds_perm {s s' : BdNode mFns} (h : NodeEvolved s s') :
    s'.queryIds.Perm s.queryIds :=
  h.queries.ids

namespace BdNodeManager

/-! ## One query for an id -/

def UniqueQueries (c : BdNodeManager mFns) : Prop := c.queryIds.Nodup

/-- If the call is an iteration that adds queries, these are for different ids that have none. -/
def AddsFresh (c : BdNodeManager mFns) : (Nat → UInt32) × Int × ManagerOp → Prop
  | (_, now, .iteration _ _ _) =>
      (c.mMode = .startup → now - c.mModeTS > maxStartupTime →
        c.mOwnId ≠ startupId ∧ c.mOwnId ∉ c.queryIds ∧ startupId ∉ c.queryIds) ∧
      (c.mMode = .refresh → ∀ it ∈ c.readyPeers, it.1 ∉ c.queryIds)
  | _ => True

/-- `checkStatus` keeps the queries for an id whose last query is not done. -/
theorem mem_keptQueries {c : BdNodeManager mFns} {q l : BdQuery} {queries : List BdQuery}
    (hq : q ∈ queries) (hlast : c.lastQuery q.mId = some l)
    (hopen : (checkFlags l.mState).doRemove = false) :
    q ∈ keptQueries c.queryStatus.entries queries := by
  refine List.mem_filter.2 ⟨hq, ?_⟩
  rw [Bool.not_eq_true', List.any_eq_false]
  rintro ⟨id, status⟩ hit
  rw [OrdMap.mem_entries_iff, BdNode.find_queryStatus] at hit
  rw [Bool.and_eq_true, not_and]
  intro hid
  have hidq : id = q.mId := of_decide_eq_true hid
  rw [hidq, hlast] at hit
  cases hit
  rw [removed, BdQuery.status, hopen, Bool.false_and]
  exact Bool.false_ne_true

/-- A query that `startQueries` adds is the last one for its id. -/
theorem lastQuery_refreshed {c : BdNodeManager mFns} {it : BdNodeId × BdQueryPeer}
    (hit : it ∈ c.readyPeers) (now : Int) :
    ∃ l, (c.refreshed now).lastQuery it.1 = some l ∧ l.mState = .querying := by
  rcases c.refreshed_eq now with ⟨active, hrun, _⟩
  have hnew : c.startedQuery now it ∈ (c.readyPeers.map (c.startedQuery now)).reverse :=
    List.mem_reverse.2 (List.mem_map_of_mem hit)
  rw [hrun, BdNode.lastQuery, List.reverse_append, List.find?_append]
  cases hfind : (c.readyPeers.map (c.startedQuery now)).reverse.find? (fun q => q.mId = it.1) with
  | none =>
      exact absurd (decide_eq_true rfl) (List.find?_eq_none.1 hfind _ hnew)
  | some l =>
      refine ⟨l, rfl, ?_⟩
      rcases List.mem_map.1 (List.mem_reverse.1 (List.mem_of_find?_eq_some hfind)) with ⟨_, _, rfl⟩
      rfl

theorem map_mId_startedQuery (c : BdNodeManager mFns) (now : Int)
    (l : List (BdNodeId × BdQueryPeer)) :
    (l.map (c.startedQuery now)).map BdQuery.mId = l.map Prod.fst := by
  rw [List.map_map]
  rfl

theorem uniqueQueries_refresh_iff {c : BdNodeManager mFns} (h : UniqueQueries c) (now : Int) :
    UniqueQueries (c.refreshed now).checkStatus ↔ ∀ it ∈ c.readyPeers, it.1 ∉ c.queryIds := by
  rcases c.refreshed_eq now with ⟨active, hrun, _⟩
  rcases (c.refreshed now).checkStatus_eq with ⟨active', hcheck, _⟩
  have hready : (c.readyPeers.map Prod.fst).Nodup :=
    (c.mActivePeers.nodup_keys).sublist (List.filter_sublist.map _)
  have hqueries : (c.refreshed now).mLocalQueries =
      c.mLocalQueries ++ c.readyPeers.map (c.startedQuery now) := by rw [hrun]
  constructor
  · intro hunique it hit hold
    rcases lastQuery_refreshed hit now with ⟨l, hlast, hstate⟩
    have hopen : (checkFlags l.mState).doRemove = false := by rw [hstate]; rfl
    rcases List.mem_map.1 hold with ⟨q, hq, hid⟩
    -- both queries for the id are kept
    rw [UniqueQueries, hcheck, BdNode.queryIds, hqueries, keptQueries, List.filter_append,
      List.map_append, List.nodup_append] at hunique
    have hkeptOld : q ∈ keptQueries (c.refreshed now).queryStatus.entries c.mLocalQueries :=
      mem_keptQueries hq (by rw [hid]; exact hlast) hopen
    have hkeptNew : c.startedQuery now it ∈ keptQueries (c.refreshed now).queryStatus.entries
        (c.readyPeers.map (c.startedQuery now)) :=
      mem_keptQueries (List.mem_map_of_mem hit) hlast hopen
    exact hunique.2.2 q.mId (List.mem_map_of_mem hkeptOld) it.1
      (List.mem_map_of_mem (f := BdQuery.mId) hkeptNew) hid
  · intro hfresh
    rw [UniqueQueries, hcheck, BdNode.queryIds, hqueries]
    refine List.Nodup.sublist (List.filter_sublist.map BdQuery.mId) ?_
    rw [List.map_append, map_mId_startedQuery, List.nodup_append]
    refine ⟨h, hready, ?_⟩
    intro id hid id' hid' heq
    rcases List.mem_map.1 hid' with ⟨it, hit, hitid⟩
    exact hfresh it hit (by rw [hitid, ← heq]; exact hid)

/-- A call keeps the ids of the queries apart exactly when it only adds fresh ones. -/
theorem managerStepOn_uniqueQueries_iff {c c' : BdNodeManager mFns}
    {op : (Nat → UInt32) × Int × ManagerOp} (hunique : UniqueQueries c)
    (h : managerStepOn c op = .ok c') : UniqueQueries c' ↔ AddsFresh c op := by
  rcases op with ⟨word, now, op⟩
  by_cases hop : ∀ store whiteNodes env, op ≠ .iteration store whiteNodes env
  · have hsub := (mLocalQueries_sublist hop h).map BdQuery.mId
    cases op with
    | iteration store whiteNodes env =>
        exact absurd rfl (hop store whiteNodes env)
    | _ =>
        exact iff_of_true (hunique.sublist hsub) trivial
  · push Not at hop
    rcases hop with ⟨store, whiteNodes, env, rfl⟩
    have hperm := (iterationOn_ok h).2.queryIds_perm
    rw [UniqueQueries, hperm.nodup_iff]
    cases changeMode_cases c now store whiteNodes with
    | kept mode ts hmode hstartup hrefresh hrun =>
        rw [hrun]
        exact iff_of_true hunique
          ⟨fun h hage => absurd hage (hstartup h), fun h => absurd h hrefresh⟩
    | started hmode hage hrun =>
        have hids : (c.changeMode now store whiteNodes).queryIds =
            c.queryIds ++ [c.mOwnId] ++ [startupId] := by
          rw [hrun]
          simp [onNode]
        rw [UniqueQueries] at hunique
        rw [hids, AddsFresh, List.append_assoc, List.perm_append_comm.nodup_iff]
        simp [hunique, hmode, hage, and_assoc]
    | refreshed hmode hrun =>
        rw [hrun, AddsFresh]
        have hiff := uniqueQueries_refresh_iff hunique now
        constructor
        · intro h
          exact ⟨fun hstartup => absurd (hmode.symm.trans hstartup) (by decide), fun _ => hiff.1 h⟩
        · intro h
          exact hiff.2 (h.2 hmode)
    | restarted hmode hrun =>
        rw [hrun, AddsFresh, startDht, restartNode_eq]
        exact iff_of_true List.nodup_nil
          ⟨fun hstartup => absurd (hmode.symm.trans hstartup) (by decide),
            fun hrefresh => absurd (hmode.symm.trans hrefresh) (by decide)⟩

/-- In every run no two queries have the same id exactly when each iteration that adds queries adds
them for ids that have none. -/
theorem uniqueQueries_iff (id : BdNodeId) (dhtVersion : List UInt8) (store whiteNodes : List BdPeer)
    (rand : Nat → UInt32) (ops : List ((Nat → UInt32) × Int × ManagerOp)) :
    let c₀ : BdNodeManager mFns := BdNodeManager.new id dhtVersion store whiteNodes rand
    Always managerStepOn UniqueQueries c₀ ops ↔
      Guarded managerStepOn (fun c op => ∀ c', managerStepOn c op = .ok c' → AddsFresh c op) c₀ ops := by
  intro c₀
  have hstart : UniqueQueries c₀ := List.nodup_nil
  exact always_iff_guarded hstart managerStepOn_uniqueQueries_iff ops

/-- The node is started a second time and looks for its own id again. -/
theorem not_uniqueQueries_startedTwice :
    let word : Nat → UInt32 := fun _ => 0
    let iteration : ManagerOp := .iteration [] [] ⟨fun _ => ⟨bdZeroNodeId, bdZeroNodeId, 0⟩,
      fun _ id _ => id, fun _ => bdZeroNodeId⟩
    let c₀ : BdNodeManager bdStdDht := BdNodeManager.new bdZeroNodeId [] [] [] (fun _ => 5)
    ¬ Always managerStepOn UniqueQueries c₀ [(word, 0, .startDht [] []), (word, 11, iteration),
      (word, 12, .startDht [] []), (word, 23, iteration)] := by
  intro word iteration c₀ h
  have hrun : Outcome.holds ([(word, 0, .startDht [] []), (word, 11, iteration),
      (word, 12, .startDht [] []), (word, 23, iteration)].foldlM managerStepOn c₀) (fun c => !decide c.queryIds.Nodup) = true := by
    decide +kernel
  rcases Outcome.holds_iff.1 hrun with ⟨c, hc, htest⟩
  rw [Bool.not_eq_true', decide_eq_false_iff_not] at htest
  exact htest (h _ [] c (List.append_nil _).symm hc)

/-! ## Calls that keep the ids apart -/

/-- The node is only started when it is off, and the ids that it looks for itself are not added. -/
def KeepsApart (c : BdNodeManager mFns) : (Nat → UInt32) × Int × ManagerOp → Prop
  | (_, _, .startDht _ _) => c.mMode = .off
  | (_, _, .addFindNode id _ _) => id ≠ c.mOwnId ∧ id ≠ startupId
  | _ => True

/-- Every query is one of the two that the node starts or belongs to an active peer that is no longer
READY. -/
structure Tracked (c : BdNodeManager mFns) : Prop where
  apart : c.mOwnId ≠ startupId
  own : c.mActivePeers.find c.mOwnId = none
  startup : c.mActivePeers.find startupId = none
  tracked : ∀ id ∈ c.queryIds, id = c.mOwnId ∨ id = startupId ∨
    ∃ peer, c.mActivePeers.find id = some peer ∧ peer.mStatus ≠ .ready
  begun : ∀ q ∈ c.mLocalQueries, q.mState ≠ .ready
  stopped : c.mMode = .off ∨ c.mMode = .startup → c.mLocalQueries = []

/-- An iteration of the node keeps the queries tracked. -/
theorem Tracked.evolved {c c' : BdNodeManager mFns} (h : Tracked c)
    (hc' : c' = { c with toBdNodeIter := c'.toBdNodeIter })
    (hnode : NodeEvolved c.toBdNode c'.toBdNode) : Tracked c' := by
  have hactive : c'.mActivePeers = c.mActivePeers := by rw [hc']
  have hmode : c'.mMode = c.mMode := by rw [hc']
  refine ⟨?_, ?_, ?_, ?_, ?_, ?_⟩
  · rw [hnode.mOwnId]
    exact h.apart
  · rw [hactive, hnode.mOwnId]
    exact h.own
  · rw [hactive]
    exact h.startup
  · intro id hid
    rw [hactive, hnode.mOwnId]
    exact h.tracked id (hnode.queryIds_perm.mem_iff.1 hid)
  · exact hnode.queries.forall_mem (fun q op hq => queryStep_begun hq op) h.begun
  · intro hoff
    rw [hmode] at hoff
    have hperm := hnode.queries.ids
    rw [h.stopped hoff, List.map_nil, List.perm_nil, List.map_eq_nil_iff] at hperm
    exact hperm

/-- Some queries are removed, and the entries of the others are kept. -/
theorem Tracked.of_sublist {c c' : BdNodeManager mFns} (h : Tracked c) (hid : c'.mOwnId = c.mOwnId)
    (hqueries : c'.mLocalQueries.Sublist c.mLocalQueries) (hmode : c'.mMode = c.mMode)
    (hnone : ∀ id, c.mActivePeers.find id = none → c'.mActivePeers.find id = none)
    (hkept : ∀ id ∈ c'.queryIds, c.mActivePeers.find id ≠ none →
      c'.mActivePeers.find id = c.mActivePeers.find id) : Tracked c' := by
  refine ⟨?_, ?_, hnone _ h.startup, ?_, ?_, ?_⟩
  · rw [hid]
    exact h.apart
  · rw [hid]
    exact hnone _ h.own
  · intro id hmem
    rw [hid]
    rcases h.tracked id ((hqueries.map _).subset hmem) with hown | hstartup | ⟨peer, hfind, hstatus⟩
    · exact .inl hown
    · exact .inr (.inl hstartup)
    · refine .inr (.inr ⟨peer, ?_, hstatus⟩)
      rw [hkept id hmem (by rw [hfind]; exact Option.some_ne_none peer), hfind]
  · intro q hq
    exact h.begun q (hqueries.subset hq)
  · intro hoff
    rw [hmode] at hoff
    have hsub := hqueries
    rw [h.stopped hoff] at hsub
    exact List.sublist_nil.1 hsub

theorem Tracked.addsFresh {c : BdNodeManager mFns} (h : Tracked c)
    (op : (Nat → UInt32) × Int × ManagerOp) : AddsFresh c op := by
  rcases op with ⟨word, now, op⟩
  cases op with
  | iteration store whiteNodes env =>
      constructor
      · intro hmode _
        rw [BdNode.queryIds, h.stopped (.inr hmode)]
        exact ⟨h.apart, List.not_mem_nil, List.not_mem_nil⟩
      · rintro _ ⟨id, peer⟩ hit hid
        rcases List.mem_filter.1 hit with ⟨hmem, hready⟩
        have hfind : c.mActivePeers.find id = some peer := OrdMap.mem_entries_iff.1 hmem
        rcases h.tracked id hid with rfl | rfl | ⟨peer', hfind', hstatus⟩
        · rw [h.own] at hfind
          cases hfind
        · rw [h.startup] at hfind
          cases hfind
        · rw [hfind, Option.some.injEq] at hfind'
          subst hfind'
          exact hstatus (of_decide_eq_true hready)
  | _ =>
      trivial

/-- After `startQueries` and `checkStatus` no active peer is READY. -/
theorem Tracked.refreshed {c : BdNodeManager mFns} (h : Tracked c) (now : Int) :
    Tracked (c.refreshed now).checkStatus := by
  rcases c.refreshed_eq now with ⟨active, hrun, _⟩
  rcases (c.refreshed now).checkStatus_eq with ⟨active', hcheck, _⟩
  have hqueries : (c.refreshed now).mLocalQueries =
      c.mLocalQueries ++ c.readyPeers.map (c.startedQuery now) := by rw [hrun]
  have hbegun : ∀ q ∈ (c.refreshed now).mLocalQueries, q.mState ≠ .ready := by
    intro q hq
    rcases mem_refreshed hq with hold | ⟨it, _, rfl⟩
    · exact h.begun q hold
    · exact QueryState.noConfusion
  have hfind' := c.find_refresh now
  rw [hcheck] at hfind'
  -- an id that is active stays so
  have hfound : ∀ id peer, c.mActivePeers.find id = some peer →
      ∃ peer', active'.find id = some peer' ∧ peer'.mStatus ≠ .ready := by
    intro id peer hfind
    refine ⟨(c.refreshed now).checked id (asked peer), ?_, ?_⟩
    · calc
        active'.find id = (c.mActivePeers.find id).map _ := hfind' id
        _ = some ((c.refreshed now).checked id (asked peer)) := by rw [hfind, Option.map_some]
    · rw [checked]
      cases hlast : (c.refreshed now).lastQuery id with
      | none =>
          exact asked_ne_ready peer
      | some l =>
          exact hbegun l (mId_of_lastQuery hlast).1
  have hnone : ∀ id, c.mActivePeers.find id = none → active'.find id = none := by
    intro id hfind
    calc
      active'.find id = (c.mActivePeers.find id).map _ := hfind' id
      _ = none := by rw [hfind, Option.map_none]
  have hown : (c.refreshed now).mOwnId = c.mOwnId := by rw [hrun]
  rw [hcheck]
  refine ⟨?_, ?_, hnone _ h.startup, ?_, ?_, ?_⟩
  · dsimp only
    rw [hown]
    exact h.apart
  · dsimp only
    rw [hown]
    exact hnone _ h.own
  · intro id hid
    have hmem : id ∈ (c.mLocalQueries ++ c.readyPeers.map (c.startedQuery now)).map BdQuery.mId := by
      rw [← hqueries]
      exact (List.filter_sublist.map BdQuery.mId).subset hid
    rw [List.map_append, map_mId_startedQuery] at hmem
    dsimp only
    rw [hown]
    rcases List.mem_append.1 hmem with hold | hnew
    · rcases h.tracked id hold with hown | hstartup | ⟨peer, hfind, _⟩
      · exact .inl hown
      · exact .inr (.inl hstartup)
      · exact .inr (.inr (hfound id peer hfind))
    · rcases List.mem_map.1 hnew with ⟨⟨id', peer⟩, hit, rfl⟩
      exact .inr (.inr (hfound id' peer (OrdMap.mem_entries_iff.1 (List.mem_of_mem_filter hit))))
  · intro q hq
    exact hbegun q (List.mem_of_mem_filter hq)
  · intro hoff
    have hmode : (c.refreshed now).mMode = .active := by rw [hrun]
    dsimp only at hoff
    rw [hmode] at hoff
    rcases hoff with hoff | hoff
    · cases hoff
    · cases hoff

/-- The queries that the node starts for itself are the only ones then. -/
theorem Tracked.started {c : BdNodeManager mFns} (h : Tracked c) (hmode : c.mMode = .startup)
    (now : Int) (qflags : UInt32) :
    Tracked ({ (c.onNode (fun s => (s.addQuery now s.mOwnId qflags).addQuery now startupId qflags))
      with mMode := .findself, mModeTS := now } : BdNodeManager mFns) := by
  refine ⟨h.apart, h.own, h.startup, ?_, ?_, ?_⟩
  · intro id hid
    have hids : id ∈ c.queryIds ++ [c.mOwnId] ++ [startupId] := by simpa [onNode] using hid
    rw [BdNode.queryIds, h.stopped (.inr hmode)] at hids
    simp only [List.map_nil, List.nil_append, List.cons_append, List.mem_cons, List.not_mem_nil,
      or_false] at hids
    rcases hids with rfl | rfl
    · exact .inl rfl
    · exact .inr (.inl rfl)
  · intro q hq
    simp only [onNode, BdNode.addQuery_eq, h.stopped (.inr hmode), List.nil_append,
      List.cons_append, List.mem_cons, List.not_mem_nil, or_false] at hq
    rcases hq with rfl | rfl
    · exact QueryState.noConfusion
    · exact QueryState.noConfusion
  · rintro (hoff | hoff)
    · cases hoff
    · cases hoff

/-- A stop leaves no query. -/
theorem Tracked.stopDht {c : BdNodeManager mFns} (h : Tracked c) (now : Int) :
    Tracked (c.stopDht now) := by
  have hnone : ∀ id, c.mActivePeers.find id = none →
      (c.stopDht now).mActivePeers.find id = none := by
    intro id hfind
    have hready := OrdMap.find_mapVals c.mActivePeers
      (fun peer => { peer with mStatus := .ready }) id
    rw [hfind] at hready
    exact hready
  exact ⟨h.apart, hnone _ h.own, hnone _ h.startup, fun id hid => absurd hid List.not_mem_nil,
    fun q hq => absurd hq List.not_mem_nil, fun _ => rfl⟩

theorem Tracked.startDht {c : BdNodeManager mFns} (h : Tracked c) (hqueries : c.mLocalQueries = [])
    (now : Int) (store whiteNodes : List BdPeer) : Tracked (c.startDht now store whiteNodes) := by
  rw [BdNodeManager.startDht, restartNode_eq]
  exact ⟨h.apart, h.own, h.startup, h.tracked, h.begun, fun _ => hqueries⟩

theorem Tracked.addFindNode {c : BdNodeManager mFns} (h : Tracked c) {id : BdNodeId}
    (hown : id ≠ c.mOwnId) (hstartup : id ≠ startupId) (qflags : UInt32) (sinFamily : Nat) :
    Tracked (c.addFindNode id qflags sinFamily) := by
  rw [BdNodeManager.addFindNode]
  split
  · exact h
  · rename_i hnone
    refine ⟨h.apart, ?_, ?_, ?_, h.begun, h.stopped⟩
    · exact (OrdMap.find_assign_ne _ hown.symm _).trans h.own
    · exact (OrdMap.find_assign_ne _ hstartup.symm _).trans h.startup
    · intro id' hid'
      rcases h.tracked id' hid' with hown' | hstartup' | ⟨peer, hfind, hstatus⟩
      · exact .inl hown'
      · exact .inr (.inl hstartup')
      · have hne : id' ≠ id := by
          rintro rfl
          rw [hnone] at hfind
          cases hfind
        exact .inr (.inr ⟨peer, (OrdMap.find_assign_ne _ hne _).trans hfind, hstatus⟩)

theorem Tracked.removeFindNode {c : BdNodeManager mFns} (h : Tracked c) (id : BdNodeId) :
    Tracked (c.removeFindNode id) := by
  rw [BdNodeManager.removeFindNode]
  split
  · exact h
  · refine h.of_sublist rfl List.filter_sublist rfl ?_ ?_
    · intro id' hnone
      by_cases hid : id' = id
      · rw [hid]
        exact OrdMap.find_erase_self ..
      · exact (OrdMap.find_erase_ne _ hid).trans hnone
    · intro id' hid' _
      rcases List.mem_map.1 hid' with ⟨q, hq, rfl⟩
      exact OrdMap.find_erase_ne _ (by simpa using (List.mem_filter.1 hq).2)

theorem Tracked.removeAllFindNode {c : BdNodeManager mFns} (h : Tracked c) :
    Tracked c.removeAllFindNode := by
  rw [removeAllFindNode_eq]
  refine h.of_sublist rfl List.filter_sublist rfl (fun _ _ => rfl) ?_
  intro id hid hfind
  -- the queries for active ids are removed, but for the node's own id
  rcases List.mem_map.1 hid with ⟨q, hq, rfl⟩
  have hkept := (List.mem_filter.1 hq).2
  rw [Bool.not_eq_true', List.any_eq_false] at hkept
  rcases Option.ne_none_iff_exists'.1 hfind with ⟨peer, hpeer⟩
  have hnot := hkept _ (OrdMap.mem_entries_iff.2 hpeer)
  have hown : q.mId = c.mOwnId := by simpa using hnot
  rw [hown, h.own] at hpeer
  cases hpeer

theorem managerStepOn_tracked {c c' : BdNodeManager mFns} {op : (Nat → UInt32) × Int × ManagerOp}
    (h : Tracked c) (hop : KeepsApart c op) (hstep : managerStepOn c op = .ok c') : Tracked c' := by
  rcases op with ⟨word, now, op⟩
  cases op with
  | startDht store whiteNodes =>
      cases hstep
      exact h.startDht (h.stopped (.inl hop)) now store whiteNodes
  | stopDht =>
      cases hstep
      exact h.stopDht now
  | addFindNode id qflags sinFamily =>
      cases hstep
      exact h.addFindNode hop.1 hop.2 qflags sinFamily
  | removeFindNode id =>
      cases hstep
      exact h.removeFindNode id
  | removeAllFindNode =>
      cases hstep
      exact h.removeAllFindNode
  | addCallback cb =>
      cases hstep
      rw [addCallback]
      split_ifs
      · exact h
      · exact ⟨h.apart, h.own, h.startup, h.tracked, h.begun, h.stopped⟩
  | removeCallback cb =>
      cases hstep
      exact ⟨h.apart, h.own, h.startup, h.tracked, h.begun, h.stopped⟩
  | incomingMsg addr msg =>
      cases hstep
      exact ⟨h.apart, h.own, h.startup, h.tracked, h.begun, h.stopped⟩
  | outgoingMsg =>
      cases hstep
      exact ⟨h.apart, h.own, h.startup, h.tracked, h.begun, h.stopped⟩
  | iteration store whiteNodes env =>
      rcases iterationOn_ok hstep with ⟨hc', hnode⟩
      refine Tracked.evolved ?_ hc' hnode
      cases changeMode_cases c now store whiteNodes with
      | kept mode ts hmode hstartup hrefresh hrun =>
          rw [hrun]
          refine ⟨h.apart, h.own, h.startup, h.tracked, h.begun, ?_⟩
          intro hoff
          exact h.stopped (by rw [hmode hoff]; exact hoff)
      | started hmode hage hrun =>
          rw [hrun]
          exact h.started hmode now _
      | refreshed hmode hrun =>
          rw [hrun]
          exact h.refreshed now
      | restarted hmode hrun =>
          rw [hrun]
          exact (h.stopDht now).startDht rfl now store whiteNodes

/-- The queries stay apart if the node is only started when it is off and the ids that it looks for
itself are different and never added. -/
theorem uniqueQueries_of_calls {id : BdNodeId} (hid : id ≠ startupId) {dhtVersion : List UInt8}
    {store whiteNodes : List BdPeer} {rand : Nat → UInt32}
    {ops : List ((Nat → UInt32) × Int × ManagerOp)}
    (hops : Guarded managerStepOn KeepsApart
      (BdNodeManager.new id dhtVersion store whiteNodes rand : BdNodeManager mFns) ops) :
    Always managerStepOn UniqueQueries
      (BdNodeManager.new id dhtVersion store whiteNodes rand : BdNodeManager mFns) ops := by
  intro pre post c hsplit hrun
  subst hsplit
  have hstep : ∀ {c c' : BdNodeManager mFns} {op : (Nat → UInt32) × Int × ManagerOp},
      Tracked c ∧ UniqueQueries c → KeepsApart c op → managerStepOn c op = .ok c' →
        Tracked c' ∧ UniqueQueries c' := by
    intro c c' op hinv hop hstep
    exact ⟨managerStepOn_tracked hinv.1 hop hstep,
      (managerStepOn_uniqueQueries_iff hinv.2 hstep).2 (hinv.1.addsFresh op)⟩
  have hstart : Tracked (BdNodeManager.new id dhtVersion store whiteNodes rand :
      BdNodeManager mFns) := by
    refine ⟨hid, rfl, rfl, ?_, ?_, fun _ => rfl⟩
    · exact fun id hid => absurd hid List.not_mem_nil
    · exact fun q hq => absurd hq List.not_mem_nil
  have hinv := hops.append_left.inv hstep ⟨hstart, List.nodup_nil⟩ hrun
  exact hinv.2

end BdNodeManager

end BitDht
