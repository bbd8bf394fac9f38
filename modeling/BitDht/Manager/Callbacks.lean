import BitDht.Manager.CheckStatus

/-!
# Callbacks — what the callbacks are told about a peer

`mem_statusCalls_iff` says which calls of `dhtPeerCallback` one `checkStatus` makes.  Two things
follow over whole runs: which finished queries are reported (`reportsFound_iff`), and when what is
reported is true (`callsTrue_iff`).
-/

namespace BitDht

open Container

variable {mFns : BdDhtFunctions}

namespace BdNodeManager

/-! ## The calls of one `checkStatus` -/

/-- The calls of `dhtPeerCallback` that `checkStatus` makes. -/
def statusCalls (c : BdNodeManager mFns) : List PeerCallback :=
  c.checkStatus.peerCallbacks.drop c.peerCallbacks.length

theorem statusCalls_eq (c : BdNodeManager mFns) :
    c.statusCalls = c.queryStatus.entries.flatMap c.issued := by
  rcases c.checkStatus_eq with ⟨active, hrun, _⟩
  rw [statusCalls, hrun]
  exact List.drop_left

theorem mem_peerCalls_iff {c : BdNodeManager mFns} {id : BdNodeId} {callbackStatus : Nat}
    {k : PeerCallback} : k ∈ c.peerCalls id callbackStatus ↔
      ∃ f, c.firstQuery id = some f ∧ k.peer ∈ f.matchResult ∧ k.cb ∈ c.mCallbacks ∧
        k.status = callbackStatus := by
  rcases k with ⟨cb, peer, status⟩
  rw [peerCalls]
  cases c.firstQuery id with
  | none =>
      simp
  | some f =>
      simp [eq_comm]

/-- A call is made for the id of a query that is not removed, if the id is active and the state of
the query is final or the one that is recorded for the id. -/
theorem mem_statusCalls_iff {c : BdNodeManager mFns} {k : PeerCallback} :
    k ∈ c.statusCalls ↔ ∃ id l p f, c.lastQuery id = some l ∧ c.mActivePeers.find id = some p ∧
      c.firstQuery id = some f ∧ k.peer ∈ f.matchResult ∧ k.cb ∈ c.mCallbacks ∧
      (p.mStatus = l.mState ∨ (checkFlags l.mState).doCallback = true) ∧
      removed (id, l.status) = false ∧ k.status = (checkFlags l.mState).callbackStatus := by
  rw [statusCalls_eq, List.mem_flatMap]
  constructor
  · rintro ⟨⟨id, status⟩, hit, hk⟩
    rw [OrdMap.mem_entries_iff, BdNode.find_queryStatus, Option.map_eq_some_iff] at hit
    rcases hit with ⟨l, hlast, rfl⟩
    rw [issued] at hk
    split_ifs at hk with hdo
    · rw [Bool.and_eq_true, Bool.not_eq_true'] at hdo
      rcases mem_peerCalls_iff.1 hk with ⟨f, hfirst, hpeer, hcb, hstatus⟩
      cases hactive : c.mActivePeers.find id with
      | none =>
          rw [hactive] at hdo
          exact absurd hdo.1 Bool.false_ne_true
      | some p =>
          rw [hactive] at hdo
          exact ⟨id, l, p, f, hlast, hactive, hfirst, hpeer, hcb, doCallback_some_iff.1 hdo.1,
            hdo.2, hstatus⟩
    · cases hk
  · rintro ⟨id, l, p, f, hlast, hactive, hfirst, hpeer, hcb, hcall, hkept, hstatus⟩
    refine ⟨(id, l.status), ?_, ?_⟩
    · rw [OrdMap.mem_entries_iff, BdNode.find_queryStatus, hlast]
      rfl
    · have hdo : (doCallback (c.mActivePeers.find id) l.status && !removed (id, l.status)) =
          true := by
        rw [hactive, hkept, Bool.not_false, Bool.and_true]
        exact doCallback_some_iff.2 hcall
      rw [issued, if_pos hdo]
      exact mem_peerCalls_iff.2 ⟨f, hfirst, hpeer, hcb, hstatus⟩

/-! ## The status of a state -/

/-- The status that tells of a final state. -/
def mgrStatus : QueryState → Option Nat
  | .failure => some bitdhtMgrQueryFailure
  | .foundClosest => some bitdhtMgrQueryPeerOffline
  | .peerUnreachable => some bitdhtMgrQueryPeerUnreachable
  | .success => some bitdhtMgrQueryPeerOnline
  | .ready => none
  | .querying => none

/-- The states whose status is told are the ones that `checkStatus` takes for final. -/
theorem doCallback_eq (state : QueryState) :
    (checkFlags state).doCallback = (mgrStatus state).isSome := by
  cases state <;> rfl

theorem callbackStatus_of_final {state : QueryState} {status : Nat}
    (h : mgrStatus state = some status) : (checkFlags state).callbackStatus = status := by
  cases state <;> cases h <;> rfl

/-- The status of a call is that of a final state only if the query is in that state. -/
theorem state_eq_of_callbackStatus {state state' : QueryState} {status : Nat}
    (h : mgrStatus state = some status) (h' : status = (checkFlags state').callbackStatus) :
    state' = state := by
  subst h'
  cases state <;> cases state' <;> first | rfl | cases h

/-- A query is kept exactly when it idles or is not done. -/
theorem removed_eq_false_iff {id : BdNodeId} {q : BdQuery} :
    removed (id, q.status) = false ↔ mgrStatus q.mState = none ∨ doIdle q.mQueryFlags = true := by
  rw [removed, BdQuery.status]
  cases q.mState <;> simp [checkFlags, mgrStatus]

theorem mId_of_mem_matchResult {q : BdQuery} {peer : BdPeer} (h : peer ∈ q.matchResult) :
    peer.mPeerId.id = q.mId := by
  simpa using (List.mem_filter.1 h).2

/-! ## Finished queries are reported -/

/-- The query `q` of an active id has found its peer, reachable or not, since its state was noted
last, and it knows the peer. -/
structure FoundPeer (c : BdNodeManager mFns) (p : BdQueryPeer) (q : BdQuery) : Prop where
  active : c.mActivePeers.find q.mId = some p
  query : q ∈ c.mLocalQueries
  state : q.mState = .success ∨ q.mState = .peerUnreachable
  news : p.mStatus ≠ q.mState
  known : q.matchResult ≠ []

/-- Every callback is told of every matching peer of the query, with the status of its state. -/
def Reported (c : BdNodeManager mFns) (q : BdQuery) : Prop :=
  ∀ cb ∈ c.mCallbacks, ∀ peer ∈ q.matchResult, ∀ status, mgrStatus q.mState = some status →
    ⟨cb, peer, status⟩ ∈ c.statusCalls

def ReportsFound (c : BdNodeManager mFns) : Prop :=
  ∀ p q, FoundPeer c p q → Reported c q

/-- The query that is asked for its state idles and is in the state of `q`, and the one that is asked
for its peers knows those of `q`.  With one query for an id both are `q`. -/
def KeepsFound (c : BdNodeManager mFns) : Prop :=
  ∀ p q, FoundPeer c p q → c.mCallbacks = [] ∨
    ∃ l f, c.lastQuery q.mId = some l ∧ c.firstQuery q.mId = some f ∧
      doIdle l.mQueryFlags = true ∧ l.mState = q.mState ∧ q.matchResult ⊆ f.matchResult

theorem FoundPeer.final {c : BdNodeManager mFns} {p : BdQueryPeer} {q : BdQuery}
    (h : FoundPeer c p q) : ∃ status, mgrStatus q.mState = some status := by
  rcases h.state with hstate | hstate
  · exact ⟨_, by rw [hstate]; rfl⟩
  · exact ⟨_, by rw [hstate]; rfl⟩

theorem reported_iff {c : BdNodeManager mFns} {p : BdQueryPeer} {q : BdQuery}
    (h : FoundPeer c p q) : Reported c q ↔ c.mCallbacks = [] ∨
      ∃ l f, c.lastQuery q.mId = some l ∧ c.firstQuery q.mId = some f ∧
        doIdle l.mQueryFlags = true ∧ l.mState = q.mState ∧ q.matchResult ⊆ f.matchResult := by
  rcases h.final with ⟨status, hstatus⟩
  constructor
  · intro hreported
    rcases hcbs : c.mCallbacks with _ | ⟨cb, cbs⟩
    · exact .inl rfl
    have hcb : cb ∈ c.mCallbacks := by rw [hcbs]; exact List.mem_cons_self ..
    -- the call for a peer of `q` was made in the round of its id
    have hcall : ∀ peer ∈ q.matchResult, ∃ l p f, c.lastQuery q.mId = some l ∧
        c.mActivePeers.find q.mId = some p ∧ c.firstQuery q.mId = some f ∧
        peer ∈ f.matchResult ∧ cb ∈ c.mCallbacks ∧
        (p.mStatus = l.mState ∨ (checkFlags l.mState).doCallback = true) ∧
        removed (q.mId, l.status) = false ∧ status = (checkFlags l.mState).callbackStatus := by
      intro peer hpeer
      rcases mem_statusCalls_iff.1 (hreported cb hcb peer hpeer status hstatus) with
        ⟨id, l, p, f, hlast, hactive, hfirst, hmem, hrest⟩
      have hid : q.mId = id := by
        rw [← mId_of_mem_matchResult hpeer, mId_of_mem_matchResult hmem, mId_of_firstQuery hfirst]
      rw [hid]
      exact ⟨l, p, f, hlast, hactive, hfirst, hmem, hrest⟩
    right
    rcases List.exists_mem_of_ne_nil q.matchResult h.known with ⟨peer, hpeer⟩
    rcases hcall peer hpeer with ⟨l, p', f, hlast, _, hfirst, _, _, _, hkept, hcode⟩
    have hstate : l.mState = q.mState := state_eq_of_callbackStatus hstatus hcode
    refine ⟨l, f, hlast, hfirst, ?_, hstate, ?_⟩
    · rcases removed_eq_false_iff.1 hkept with hopen | hidle
      · rw [hstate, hstatus] at hopen
        cases hopen
      · exact hidle
    · intro peer' hpeer'
      rcases hcall peer' hpeer' with ⟨_, _, f', _, _, hfirst', hmem, _⟩
      rw [hfirst, Option.some.injEq] at hfirst'
      rwa [hfirst']
  · rintro (hnone | ⟨l, f, hlast, hfirst, hidle, hstate, hsub⟩) cb hcb peer hpeer status' hstatus'
    · rw [hnone] at hcb
      cases hcb
    · rw [← hstate] at hstatus'
      refine mem_statusCalls_iff.2 ⟨q.mId, l, p, f, hlast, h.active, hfirst, hsub hpeer, hcb, ?_,
        removed_eq_false_iff.2 (.inr hidle), (callbackStatus_of_final hstatus').symm⟩
      right
      rw [doCallback_eq, hstatus']
      rfl

/-- In every run the queries that have found their peer are reported exactly when they idle: the
others are removed before their peers are asked for. -/
theorem reportsFound_iff (id : BdNodeId) (dhtVersion : List UInt8) (store whiteNodes : List BdPeer)
    (rand : Nat → UInt32) (ops : List ((Nat → UInt32) × Int × ManagerOp)) :
    let c₀ : BdNodeManager mFns := BdNodeManager.new id dhtVersion store whiteNodes rand
    AtChecks ReportsFound c₀ ops ↔ AtChecks KeepsFound c₀ ops := by
  intro c₀
  apply AtChecks.congr
  intro c
  constructor
  · intro h p q hfound
    exact (reported_iff hfound).1 (h p q hfound)
  · intro h p q hfound
    exact (reported_iff hfound).2 (h p q hfound)

/-! ## What is reported is true -/

/-- Every call tells the status of the final state that the queries for the peer are in. -/
def CallsTrue (c : BdNodeManager mFns) : Prop :=
  ∀ k ∈ c.statusCalls, ∀ q ∈ c.mLocalQueries, q.mId = k.peer.mPeerId.id →
    mgrStatus q.mState = some k.status

/-- For an active id with a known peer, the state of a query that is not done is not the recorded
one, and all queries are in the state of the last one if it is done and idles. -/
def Settled (c : BdNodeManager mFns) : Prop :=
  c.mCallbacks ≠ [] → ∀ id p l f, c.mActivePeers.find id = some p → c.lastQuery id = some l →
    c.firstQuery id = some f → f.matchResult ≠ [] →
      (mgrStatus l.mState = none → p.mStatus ≠ l.mState) ∧
      (mgrStatus l.mState ≠ none → doIdle l.mQueryFlags = true →
        ∀ q ∈ c.mLocalQueries, q.mId = id → q.mState = l.mState)

theorem callsTrue_iff_settled (c : BdNodeManager mFns) : CallsTrue c ↔ Settled c := by
  constructor
  · intro h hcbs id p l f hactive hlast hfirst hknown
    rcases List.exists_mem_of_ne_nil _ hcbs with ⟨cb, hcb⟩
    rcases List.exists_mem_of_ne_nil _ hknown with ⟨peer, hpeer⟩
    have hpeerId : peer.mPeerId.id = id := by
      rw [mId_of_mem_matchResult hpeer, mId_of_firstQuery hfirst]
    -- a call that is made is true of every query for the id
    have htrue : (p.mStatus = l.mState ∨ (checkFlags l.mState).doCallback = true) →
        removed (id, l.status) = false → ∀ q ∈ c.mLocalQueries, q.mId = id →
          mgrStatus q.mState = some (checkFlags l.mState).callbackStatus := by
      intro hcall hkept q hq hid
      refine h ⟨cb, peer, _⟩ (mem_statusCalls_iff.2 ⟨id, l, p, f, hlast, hactive, hfirst, hpeer, hcb,
        hcall, hkept, rfl⟩) q hq ?_
      rw [hid, hpeerId]
    constructor
    · intro hopen hsame
      have hcode := htrue (.inl hsame) (removed_eq_false_iff.2 (.inl hopen)) l
        (mId_of_lastQuery hlast).1 (mId_of_lastQuery hlast).2
      rw [hopen] at hcode
      cases hcode
    · intro hfinal hidle q hq hid
      have hcall : (checkFlags l.mState).doCallback = true := by
        rw [doCallback_eq]
        exact Option.isSome_iff_ne_none.2 hfinal
      have hcode := htrue (.inr hcall) (removed_eq_false_iff.2 (.inr hidle)) q hq hid
      exact (state_eq_of_callbackStatus hcode rfl).symm
  · intro h k hk q hq hid
    rcases mem_statusCalls_iff.1 hk with
      ⟨id, l, p, f, hlast, hactive, hfirst, hpeer, hcb, hcall, hkept, hcode⟩
    have hqid : q.mId = id := by
      rw [hid, mId_of_mem_matchResult hpeer, mId_of_firstQuery hfirst]
    rcases h (List.ne_nil_of_mem hcb) id p l f hactive hlast hfirst (List.ne_nil_of_mem hpeer) with
      ⟨hopen, hfinal⟩
    cases hstatus : mgrStatus l.mState with
    | none =>
        -- such a call is only made when the recorded state is that of the query
        rw [doCallback_eq, hstatus] at hcall
        exact absurd (hcall.resolve_right Bool.false_ne_true) (hopen hstatus)
    | some status =>
        rw [hstatus] at hfinal
        rcases removed_eq_false_iff.1 hkept with hnone | hidle
        · rw [hstatus] at hnone
          cases hnone
        · rw [hfinal (Option.some_ne_none status) hidle q hq hqid, hstatus, hcode,
            callbackStatus_of_final hstatus]

/-- In every run each call tells the final state of the query exactly when no query is in progress
that was noted as in progress before and knows its peer already. -/
theorem callsTrue_iff (id : BdNodeId) (dhtVersion : List UInt8) (store whiteNodes : List BdPeer)
    (rand : Nat → UInt32) (ops : List ((Nat → UInt32) × Int × ManagerOp)) :
    let c₀ : BdNodeManager mFns := BdNodeManager.new id dhtVersion store whiteNodes rand
    AtChecks CallsTrue c₀ ops ↔ AtChecks Settled c₀ ops :=
  AtChecks.congr callsTrue_iff_settled _ ops

end BdNodeManager

/-! ## A search -/

/-- A pong of the node `byteId k` comes in. -/
def searchPong (k : Nat) : (Nat → UInt32) × Int × ManagerOp :=
  (fun _ => 0, 12, .incomingMsg ⟨afInet, 7, 7⟩ (bencode (Msg.pong ⟨[97]⟩ (byteId k) ⟨[]⟩).tree))

def searchIteration (now : Int) : (Nat → UInt32) × Int × ManagerOp :=
  (fun _ => 0, now, .iteration [] [] ⟨fun _ => ⟨byteId 0, byteId 0, 0⟩, fun _ id _ => id,
    fun _ => byteId 255⟩)

def searchStart : BdNodeManager bdStdDht :=
  BdNodeManager.new (byteId 0) [] [] [] (fun _ => 5)

/-- A callback is added, the node is started, `byteId 1` is to be found, 21 nodes answer, and a
minute later the mode is REFRESH. -/
def searchOps : List ((Nat → UInt32) × Int × ManagerOp) :=
  [(fun _ => 0, 0, .addCallback 1), (fun _ => 0, 0, .startDht [] []),
    (fun _ => 0, 0, .addFindNode (byteId 1) 0 afInet), searchIteration 11] ++ (List.range 21).map (fun k => searchPong (k + 1)) ++
    [searchIteration 12, searchIteration 73]

/-- The query for `byteId 1` asks the ten closest peers. -/
def searchAskOps : List ((Nat → UInt32) × Int × ManagerOp) :=
  searchOps ++ (List.range 10).map (fun (k : Nat) => searchIteration (74 + k))

/-- It gives up after half an hour. -/
def searchEndOps : List ((Nat → UInt32) × Int × ManagerOp) := searchAskOps ++ [searchIteration 1900]

namespace BdNodeManager

/-- The query for `byteId 1` has found its peer.  It does not idle, so the callback is not called. -/
theorem not_reportsFound_idleless :
    ¬ AtChecks ReportsFound searchStart (searchEndOps ++ [searchIteration 1901]) := by
  have hrun : Outcome.holds (searchEndOps.foldlM managerStepOn searchStart) (fun c =>
      decide (c.mMode = .refresh) && ((c.refreshed 1901).mLocalQueries.any (fun q =>
        ((c.refreshed 1901).mActivePeers.find q.mId).any (fun p => p.mStatus = .querying) &&
          (q.mState = .success && (!q.matchResult.isEmpty &&
            ((c.refreshed 1901).mCallbacks.contains 1 &&
              !(c.refreshed 1901).statusCalls.any (fun k => k.status = bitdhtMgrQueryPeerOnline))))))) =
      true := by
    decide +kernel
  intro h
  rcases Outcome.holds_iff.1 hrun with ⟨c, hc, htest⟩
  rw [Bool.and_eq_true, List.any_eq_true] at htest
  rcases htest with ⟨hmode, q, hq, htest⟩
  rw [Bool.and_eq_true, Bool.and_eq_true, Bool.and_eq_true, Bool.and_eq_true,
    Option.any_eq_true] at htest
  rcases htest with ⟨⟨p, hactive, hp⟩, hstate, hknown, hcb, hcalls⟩
  have hsuccess : q.mState = .success := of_decide_eq_true hstate
  have hfound : FoundPeer (c.refreshed 1901) p q := by
    refine ⟨hactive, hq, .inl hsuccess, ?_, ?_⟩
    · rw [of_decide_eq_true hp, hsuccess]
      decide
    · intro hnil
      rw [hnil] at hknown
      cases hknown
  rcases List.exists_mem_of_ne_nil _ hfound.known with ⟨peer, hpeer⟩
  have hreported := h searchEndOps _ 1901 _ _ _ [] c rfl hc (of_decide_eq_true hmode) p q hfound 1
    (List.contains_iff_mem.1 hcb) peer hpeer bitdhtMgrQueryPeerOnline (by rw [hsuccess]; rfl)
  rw [Bool.not_eq_true', List.any_eq_false] at hcalls
  exact hcalls _ hreported (decide_eq_true rfl)

/-- The query for `byteId 1` has just been started, and the callback is called with the status 0. -/
theorem not_callsTrue_unfinished :
    ¬ AtChecks CallsTrue searchStart (searchOps ++ [searchIteration 74]) := by
  have hrun : Outcome.holds (searchOps.foldlM managerStepOn searchStart) (fun c =>
      decide (c.mMode = .refresh) && (c.refreshed 74).statusCalls.any (fun k => k.status = 0 &&
        (c.refreshed 74).mLocalQueries.any (fun q => q.mId = k.peer.mPeerId.id))) = true := by
    decide +kernel
  intro h
  rcases Outcome.holds_iff.1 hrun with ⟨c, hc, htest⟩
  rw [Bool.and_eq_true, List.any_eq_true] at htest
  rcases htest with ⟨hmode, k, hk, htest⟩
  rw [Bool.and_eq_true, List.any_eq_true] at htest
  rcases htest with ⟨hstatus, q, hq, hid⟩
  have htrue := h searchOps _ 74 _ _ _ [] c rfl hc (of_decide_eq_true hmode) k hk q hq
    (of_decide_eq_true hid)
  rw [of_decide_eq_true hstatus] at htrue
  cases hstate : q.mState <;> rw [hstate] at htrue <;> cases htrue

end BdNodeManager

end BitDht
