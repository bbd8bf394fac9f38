import BitDht.Manager.Callbacks
import BitDht.Manager.Calls
import BitDht.Peer.Anchored

/-!
# Address — where the address of a found peer comes from

`checkStatus` copies an address when it sees a query in the state SUCCESS, and `getDhtPeerAddress`
hands it out.  The query may have lost its peer in between: `addressesHeld_of_resultKnown` says that
nothing else can go wrong.
-/

namespace BitDht

open Container Outcome

variable {mFns : BdDhtFunctions}

namespace BdNodeManager

/-! ## The addresses that are noted -/

theorem getDhtPeerAddress_eq_some_iff {c : BdNodeManager mFns} {id : BdNodeId} {addr : SockaddrIn} :
    c.getDhtPeerAddress id = some addr ↔
      ∃ peer, c.mActivePeers.find id = some peer ∧ peer.mStatus = .success ∧
        peer.mDhtAddr = addr := by
  rw [getDhtPeerAddress]
  cases c.mActivePeers.find id with
  | none =>
      simp
  | some peer =>
      simp

/-- A query for the id has a peer with that id, at the address, in `mClosest`. -/
def HeldAt (b : BdNodeId × SockaddrIn) (c : BdNodeManager mFns) : Prop :=
  ∃ q ∈ c.mLocalQueries, q.mId = b.1 ∧
    ∃ e ∈ q.mClosest.entries, e.2.mPeerId.id = b.1 ∧ e.2.mPeerId.addr = b.2

/-- `getDhtPeerAddress` hands the address out for the id. -/
def NotedAt (b : BdNodeId × SockaddrIn) (c : BdNodeManager mFns) : Prop :=
  c.getDhtPeerAddress b.1 = some b.2

/-- Each active peer whose query is seen in the state SUCCESS is still among the peers of the
query. -/
def ResultKnown (c : BdNodeManager mFns) : Prop :=
  ∀ id peer q, c.mActivePeers.find id = some peer → c.lastQuery id = some q →
    q.mState = .success → q.result ≠ []

/-- The entries of the active peers are the only thing that a noted address depends on. -/
theorem NotedAt.of_find {b : BdNodeId × SockaddrIn} {c c' : BdNodeManager mFns} (h : NotedAt b c')
    (hfind : ∀ peer, c'.mActivePeers.find b.1 = some peer → peer.mStatus = .success →
      c.mActivePeers.find b.1 = some peer) : NotedAt b c := by
  rcases getDhtPeerAddress_eq_some_iff.1 h with ⟨peer, hpeer, hstatus, haddr⟩
  exact getDhtPeerAddress_eq_some_iff.2 ⟨peer, hfind peer hpeer hstatus, hstatus, haddr⟩

/-- A new entry has no address that would be handed out. -/
theorem NotedAt.of_addFindNode {b : BdNodeId × SockaddrIn} {c : BdNodeManager mFns} {id : BdNodeId}
    {qflags : UInt32} {sinFamily : Nat} (h : NotedAt b (c.addFindNode id qflags sinFamily)) :
    NotedAt b c := by
  rw [addFindNode] at h
  split at h
  · exact h
  · apply h.of_find
    intro peer hpeer hstatus
    by_cases hid : b.1 = id
    · rw [hid] at hpeer
      have hready := (OrdMap.find_assign_self ..).symm.trans hpeer
      cases hready
      cases hstatus
    · exact (OrdMap.find_assign_ne _ hid _).symm.trans hpeer

theorem NotedAt.of_removeFindNode {b : BdNodeId × SockaddrIn} {c : BdNodeManager mFns}
    {id : BdNodeId} (h : NotedAt b (c.removeFindNode id)) : NotedAt b c := by
  rw [removeFindNode] at h
  split at h
  · exact h
  · apply h.of_find
    intro peer hpeer _
    by_cases hid : b.1 = id
    · rw [hid] at hpeer
      cases (OrdMap.find_erase_self ..).symm.trans hpeer
    · exact (OrdMap.find_erase_ne _ hid).symm.trans hpeer

theorem not_notedAt_stopDht (b : BdNodeId × SockaddrIn) (c : BdNodeManager mFns) (now : Int) :
    ¬ NotedAt b (c.stopDht now) := by
  intro h
  rcases getDhtPeerAddress_eq_some_iff.1 h with ⟨peer, hpeer, hstatus, _⟩
  have hready := OrdMap.find_mapVals c.mActivePeers (fun peer => { peer with mStatus := .ready }) b.1
  rw [stopDht] at hpeer
  rw [hready, Option.map_eq_some_iff] at hpeer
  rcases hpeer with ⟨peer', _, rfl⟩
  cases hstatus

theorem mDhtAddr_updatePeer {peer : BdQueryPeer} {status : BdQueryStatus} {front : BdId}
    {results : List BdId} (hstatus : status.mStatus = .success)
    (hresults : status.mResults = front :: results) :
    (updatePeer peer status).mDhtAddr = front.addr := by
  simp [updatePeer, checkFlags, hstatus, hresults]

theorem asked_of_success {peer : BdQueryPeer} (h : (asked peer).mStatus = .success) :
    asked peer = peer := by
  by_cases hready : peer.mStatus = .ready
  · rw [asked, if_pos hready] at h
    cases h
  · rw [asked, if_neg hready]

/-- `checkStatus` takes an address from a query. -/
theorem notedAt_refreshed {b : BdNodeId × SockaddrIn} {c : BdNodeManager mFns}
    (hxor : mFns.bdDistance = bdStdDistance) (hqueries : ∀ q ∈ c.mLocalQueries, Anchored mFns q)
    {now : Int} (hknown : ResultKnown (c.refreshed now))
    (h : NotedAt b (c.refreshed now).checkStatus) : NotedAt b c ∨ HeldAt b c := by
  rcases b with ⟨id, addr⟩
  rcases getDhtPeerAddress_eq_some_iff.1 h with ⟨peer, hpeer, hstatus, haddr⟩
  rw [find_refresh, Option.map_eq_some_iff] at hpeer
  rcases hpeer with ⟨peer, hfind, rfl⟩
  rcases c.refreshed_eq now with ⟨active, hrun, hasked⟩
  rw [checked] at hstatus haddr
  cases hlast : (c.refreshed now).lastQuery id with
  | none =>
      -- no query for the id: the entry is as before
      rw [hlast] at hstatus haddr
      have hsame : asked peer = peer := asked_of_success hstatus
      rw [hsame] at hstatus haddr
      exact .inl (getDhtPeerAddress_eq_some_iff.2 ⟨peer, hfind, hstatus, haddr⟩)
  | some q =>
      rw [hlast] at hstatus haddr
      have hsuccess : q.mState = .success := hstatus
      have hactive : (c.refreshed now).mActivePeers.find id = some (asked peer) := by
        rw [hrun]
        calc
          active.find id = (c.mActivePeers.find id).map asked := hasked id
          _ = some (asked peer) := by rw [hfind, Option.map_some]
      have hmem : q ∈ c.mLocalQueries :=
        mem_of_refreshed (mId_of_lastQuery hlast).1 (by rw [hsuccess]; exact QueryState.noConfusion)
      rcases List.exists_cons_of_ne_nil (hknown id _ q hactive hlast hsuccess) with
        ⟨front, results, hresults⟩
      rw [mDhtAddr_updatePeer hstatus hresults] at haddr
      rcases mem_result hxor (hqueries q hmem) (hresults ▸ List.mem_cons_self ..) with
        ⟨e, he, hpeerId, hid⟩
      have hqid : q.mId = id := (mId_of_lastQuery hlast).2
      refine .inr ⟨q, hmem, hqid, e, he, ?_, ?_⟩
      · rw [hpeerId, hid, hqid]
      · rw [hpeerId]
        exact haddr

/-! ## Runs -/

/-- `checkStatus` is called in a state with `P`, if the call is an iteration that calls it. -/
def AtCheck (P : BdNodeManager mFns → Prop) (c : BdNodeManager mFns) :
    (Nat → UInt32) × Int × ManagerOp → Prop
  | (_, now, .iteration _ _ _) => c.mMode = .refresh → P (c.refreshed now)
  | _ => True

theorem AtChecks.guarded {P : BdNodeManager mFns → Prop} {c₀ : BdNodeManager mFns}
    {ops : List ((Nat → UInt32) × Int × ManagerOp)} (h : AtChecks P c₀ ops) :
    Guarded managerStepOn (AtCheck P) c₀ ops := by
  rintro pre ⟨word, now, op⟩ post c hops hrun
  cases op with
  | iteration store whiteNodes env =>
      exact h pre word now store whiteNodes env post c hops hrun
  | _ =>
      trivial

/-- An address that is handed out after a call was handed out before it or is held by a query. -/
theorem managerStepOn_notedAt {b : BdNodeId × SockaddrIn} {c c' : BdNodeManager mFns}
    {op : (Nat → UInt32) × Int × ManagerOp} (hxor : mFns.bdDistance = bdStdDistance)
    (hqueries : ∀ q ∈ c.mLocalQueries, Anchored mFns q) (hop : AtCheck ResultKnown c op)
    (hstep : managerStepOn c op = .ok c') (h : NotedAt b c') : NotedAt b c ∨ HeldAt b c := by
  rcases op with ⟨word, now, op⟩
  cases op with
  | startDht store whiteNodes =>
      cases hstep
      rw [startDht, restartNode_eq] at h
      exact .inl h
  | stopDht =>
      cases hstep
      exact absurd h (not_notedAt_stopDht b c now)
  | addFindNode id qflags sinFamily =>
      cases hstep
      exact .inl h.of_addFindNode
  | removeFindNode id =>
      cases hstep
      exact .inl h.of_removeFindNode
  | removeAllFindNode =>
      cases hstep
      refine .inl (h.of_find ?_)
      intro peer hpeer _
      cases hpeer
  | addCallback cb =>
      cases hstep
      rw [addCallback] at h
      split_ifs at h
      · exact .inl h
      · exact .inl h
  | removeCallback cb =>
      cases hstep
      exact .inl h
  | incomingMsg addr msg =>
      cases hstep
      exact .inl h
  | outgoingMsg =>
      cases hstep
      exact .inl h
  | iteration store whiteNodes env =>
      have hc' := (iterationOn_ok hstep).1
      have hmode : NotedAt b (c.changeMode now store whiteNodes) := by
        rw [hc'] at h
        exact h
      cases changeMode_cases c now store whiteNodes with
      | kept mode ts _ _ _ hrun =>
          rw [hrun] at hmode
          exact .inl hmode
      | started _ _ hrun =>
          rw [hrun] at hmode
          exact .inl hmode
      | refreshed hrefresh hrun =>
          rw [hrun] at hmode
          exact notedAt_refreshed hxor hqueries (hop hrefresh) hmode
      | restarted _ hrun =>
          rw [hrun, startDht, restartNode_eq] at hmode
          exact absurd hmode (not_notedAt_stopDht b c now)

/-- Every address that is handed out was held by a query for the id before. -/
def AddressesHeld (c₀ : BdNodeManager mFns) (ops : List ((Nat → UInt32) × Int × ManagerOp)) : Prop :=
  ∀ pre post c, ops = pre ++ post → pre.foldlM managerStepOn c₀ = .ok c →
    ∀ id addr, c.getDhtPeerAddress id = some addr → Once managerStepOn (HeldAt (id, addr)) c₀ pre

/-- In a run in which no query has lost its peer when it is seen in the state SUCCESS, every address
that is handed out was held by a query. -/
theorem addressesHeld_of_resultKnown (hxor : mFns.bdDistance = bdStdDistance) (id : BdNodeId)
    (dhtVersion : List UInt8) (store whiteNodes : List BdPeer) (rand : Nat → UInt32)
    (ops : List ((Nat → UInt32) × Int × ManagerOp))
    (hknown : AtChecks ResultKnown
      (BdNodeManager.new id dhtVersion store whiteNodes rand : BdNodeManager mFns) ops) :
    AddressesHeld (BdNodeManager.new id dhtVersion store whiteNodes rand : BdNodeManager mFns)
      ops := by
  intro pre post c hsplit hrun id' addr hget
  subst hsplit
  have hnoted : NotedAt (id', addr) c := hget
  have hstart : ∀ q ∈ (BdNodeManager.new id dhtVersion store whiteNodes rand :
      BdNodeManager mFns).mLocalQueries, Anchored mFns q := by
    intro q hq
    cases hq
  have hseen := hknown.guarded.append_left.once_seen
    (fun hqueries _ hstep => forall_queries queryStep_anchored anchored_new hqueries hstep)
    (fun hqueries hop hstep h => managerStepOn_notedAt hxor hqueries hop hstep h) hstart hrun hnoted
  apply hseen.resolve_left
  intro hfirst
  cases hfirst

/-- The queries that `startQueries` adds are in progress. -/
theorem resultKnown_refreshed {c : BdNodeManager mFns}
    (h : ∀ q ∈ c.mLocalQueries, q.mState = .success → q.result ≠ []) (now : Int) :
    ResultKnown (c.refreshed now) := by
  intro id peer q _ hlast hsuccess
  refine h q (mem_of_refreshed (mId_of_lastQuery hlast).1 ?_) hsuccess
  rw [hsuccess]
  exact QueryState.noConfusion

/-- A search that ends with its peer, whose address is handed out. -/
theorem addressesHeld_of_resultKnown_search :
    AddressesHeld searchStart (searchEndOps ++ [searchIteration 1901]) ∧
      ∃ c, (searchEndOps ++ [searchIteration 1901]).foldlM managerStepOn searchStart = .ok c ∧
        c.getDhtPeerAddress (byteId 1) = some ⟨afInet, 7, 7⟩ := by
  have hrun : checkRun managerStepOn
      (fun c => c.mLocalQueries.all (fun q => q.mState ≠ .success || !q.result.isEmpty))
      (fun c => c.getDhtPeerAddress (byteId 1) = some ⟨afInet, 7, 7⟩) searchStart
      (searchEndOps ++ [searchIteration 1901]) = true := by
    decide +kernel
  rcases always_of_checkRun hrun with ⟨halways, c, hc, hget⟩
  refine ⟨addressesHeld_of_resultKnown rfl (byteId 0) [] [] [] (fun _ => 5) _ ?_, c, hc,
    of_decide_eq_true hget⟩
  intro pre word now store whiteNodes env post c hops hpre _
  apply resultKnown_refreshed
  intro q hq hsuccess hnil
  have hknown := List.all_eq_true.1 (halways pre _ c hops hpre) q hq
  rw [hsuccess, hnil] at hknown
  cases hknown

/-- The query for `byteId 1` is in the state SUCCESS when a pong of `byteId 22` makes it drop the
peers that do not reply.  The address is the one of no peer then. -/
theorem not_addressesHeld_dropped :
    ¬ AddressesHeld searchStart (searchAskOps ++ [searchIteration 1870, searchIteration 1871,
      searchIteration 1880, searchPong 22, searchIteration 1882, searchIteration 1883]) := by
  have hrun : checkRun managerStepOn
      (fun c => c.mLocalQueries.all (fun q =>
        q.mClosest.entries.all (fun e => e.2.mPeerId.addr.sAddr ≠ 0)))
      (fun c => c.getDhtPeerAddress (byteId 1) = some ⟨afInet, 0, 0⟩) searchStart
      (searchAskOps ++ [searchIteration 1870, searchIteration 1871, searchIteration 1880,
        searchPong 22, searchIteration 1882, searchIteration 1883]) = true := by
    decide +kernel
  intro h
  rcases always_of_checkRun hrun with ⟨halways, c, hc, hget⟩
  refine Once.not_of_always ?_
    (h _ [] c (List.append_nil _).symm hc (byteId 1) ⟨afInet, 0, 0⟩ (of_decide_eq_true hget))
  rintro pre post c' hops hpre ⟨q, hq, _, e, he, _, haddr⟩
  have hall := List.all_eq_true.1 (halways pre post c' hops hpre) q hq
  have hne := of_decide_eq_true (List.all_eq_true.1 hall e he)
  rw [haddr] at hne
  exact hne rfl

end BdNodeManager

end BitDht
