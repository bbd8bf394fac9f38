import BitDht.Manager.Callbacks
import BitDht.Manager.Calls

/-!
# Stopped — a node that is not running

`stopDht` empties what the node sends from and what it learns into, and in the mode OFF `iteration`
only throws away what came in.  So nothing that is called before the next `startDht` reaches these
containers (`Silent`).
-/

namespace BitDht

open Container Outcome

variable {mFns : BdDhtFunctions}

namespace BdNodeManager

/-- Nothing is to be sent, asked or answered, and nobody is known. -/
structure Silent (c : BdNodeManager mFns) : Prop where
  mOutgoingMsgs : c.mOutgoingMsgs = []
  mLocalQueries : c.mLocalQueries = []
  mRemoteQueries : c.mRemoteQueries = []
  mPotentialPeers : c.mPotentialPeers = []
  buckets : ∀ bucket ∈ c.mNodeSpace.buckets, bucket = []

/-- The manager is off, and none of its peers is looked for. -/
structure Stopped (c : BdNodeManager mFns) : Prop where
  silent : c.Silent
  mMode : c.mMode = .off
  ready : ∀ {id peer}, c.mActivePeers.find id = some peer → peer.mStatus = .ready

theorem stopped_new (id : BdNodeId) (dhtVersion : List UInt8) (store whiteNodes : List BdPeer)
    (rand : Nat → UInt32) : (new id dhtVersion store whiteNodes rand : BdNodeManager mFns).Stopped := by
  refine ⟨⟨rfl, rfl, rfl, rfl, ?_⟩, rfl, ?_⟩
  · intro bucket hbucket
    exact List.eq_of_mem_replicate hbucket
  · intro _ _ hpeer
    cases hpeer

theorem stopped_stopDht (c : BdNodeManager mFns) (now : Int) : (c.stopDht now).Stopped := by
  refine ⟨⟨rfl, rfl, rfl, rfl, ?_⟩, rfl, ?_⟩
  · intro bucket hbucket
    rcases List.mem_map.1 hbucket with ⟨_, _, rfl⟩
    rfl
  · intro id peer hpeer
    rw [stopDht, OrdMap.find_mapVals] at hpeer
    rcases Option.map_eq_some_iff.1 hpeer with ⟨_, _, rfl⟩
    rfl

theorem Stopped.addFindNode {c : BdNodeManager mFns} (h : c.Stopped) (id : BdNodeId)
    (qflags : UInt32) (sinFamily : Nat) : (c.addFindNode id qflags sinFamily).Stopped := by
  unfold BdNodeManager.addFindNode
  cases c.mActivePeers.find id with
  | some peer =>
      exact h
  | none =>
      refine ⟨{ h.silent with }, h.mMode, ?_⟩
      intro id' peer hpeer
      by_cases hid : id' = id
      · rw [hid] at hpeer
        cases (OrdMap.find_assign_self _ _ _).symm.trans hpeer
        rfl
      · exact h.ready ((OrdMap.find_assign_ne _ hid _).symm.trans hpeer)

theorem Stopped.removeFindNode {c : BdNodeManager mFns} (h : c.Stopped) (id : BdNodeId) :
    (c.removeFindNode id).Stopped := by
  unfold BdNodeManager.removeFindNode
  cases c.mActivePeers.find id with
  | none =>
      exact h
  | some peer =>
      refine ⟨{ h.silent with mLocalQueries := ?_ }, h.mMode, ?_⟩
      · show c.mLocalQueries.filter (fun it => it.mId ≠ id) = []
        rw [h.silent.mLocalQueries, List.filter_nil]
      · intro id' peer' hpeer
        by_cases hid : id' = id
        · rw [hid] at hpeer
          cases (OrdMap.find_erase_self _ _).symm.trans hpeer
        · exact h.ready ((OrdMap.find_erase_ne _ hid).symm.trans hpeer)

theorem Stopped.removeAllFindNode {c : BdNodeManager mFns} (h : c.Stopped) :
    c.removeAllFindNode.Stopped := by
  rw [removeAllFindNode_eq]
  refine ⟨{ h.silent with mLocalQueries := ?_ }, h.mMode, ?_⟩
  · simp only [h.silent.mLocalQueries, List.filter_nil]
  · intro _ _ hpeer
    cases hpeer

/-- In the mode OFF an iteration only throws away what came in. -/
theorem Stopped.iterationOn {c : BdNodeManager mFns} (h : c.Stopped) (now : Int)
    (word : Nat → UInt32) (store whiteNodes : List BdPeer) (env : IterEnv) :
    c.iterationOn word now store whiteNodes env = .ok { c with mIncomingMsgs := [] } := by
  have hmode : c.changeMode now store whiteNodes = c := by simp only [changeMode, h.mMode]
  rw [BdNodeManager.iterationOn, hmode, if_pos h.mMode]
  rfl

/-- The call starts the node. -/
def Starts : (Nat → UInt32) × Int × ManagerOp → Prop
  | (_, _, .startDht _ _) => True
  | _ => False

theorem Stopped.step {c : BdNodeManager mFns} {op : (Nat → UInt32) × Int × ManagerOp}
    (h : c.Stopped) (hop : ¬ Starts op) : ∃ c', managerStepOn c op = .ok c' ∧ c'.Stopped := by
  have hsilent := h.silent
  rcases op with ⟨word, now, op⟩
  cases op with
  | startDht store whiteNodes =>
      exact absurd trivial hop
  | stopDht =>
      exact ⟨_, rfl, stopped_stopDht c now⟩
  | addFindNode id qflags sinFamily =>
      exact ⟨_, rfl, h.addFindNode id qflags sinFamily⟩
  | removeFindNode id =>
      exact ⟨_, rfl, h.removeFindNode id⟩
  | removeAllFindNode =>
      exact ⟨_, rfl, h.removeAllFindNode⟩
  | addCallback cb =>
      refine ⟨_, rfl, ?_⟩
      unfold addCallback
      split_ifs
      · exact h
      · exact ⟨{ hsilent with }, h.mMode, h.ready⟩
  | removeCallback cb =>
      exact ⟨_, rfl, { hsilent with }, h.mMode, h.ready⟩
  | incomingMsg addr msg =>
      exact ⟨_, rfl, { hsilent with }, h.mMode, h.ready⟩
  | outgoingMsg =>
      refine ⟨_, rfl, { hsilent with mOutgoingMsgs := ?_ }, h.mMode, h.ready⟩
      show c.mOutgoingMsgs.drop 1 = []
      rw [hsilent.mOutgoingMsgs, List.drop_nil]
  | iteration store whiteNodes env =>
      exact ⟨_, h.iterationOn now word store whiteNodes env, { hsilent with }, h.mMode, h.ready⟩

theorem Stopped.getDhtPeerAddress {c : BdNodeManager mFns} (h : c.Stopped) (id : BdNodeId) :
    c.getDhtPeerAddress id = none := by
  unfold BdNodeManager.getDhtPeerAddress
  cases hpeer : c.mActivePeers.find id with
  | none =>
      rfl
  | some peer =>
      simp only [h.ready hpeer]
      rfl

/-- From its construction, and from any `stopDht`, until the next `startDht` the calls all succeed
and leave the node silent; `getDhtPeerAddress` finds nothing. -/
theorem stopped_silent (id : BdNodeId) (dhtVersion : List UInt8) (store whiteNodes : List BdPeer)
    (rand : Nat → UInt32) {pre mid : List ((Nat → UInt32) × Int × ManagerOp)}
    {c : BdNodeManager mFns}
    (hrun : pre.foldlM managerStepOn (new id dhtVersion store whiteNodes rand) = .ok c)
    (hpre : pre = [] ∨ ∃ before word now, pre = before ++ [(word, now, .stopDht)])
    (hmid : ∀ op ∈ mid, ¬ Starts op) :
    ∃ c', mid.foldlM managerStepOn c = .ok c' ∧ c'.Silent ∧
      ∀ id', c'.getDhtPeerAddress id' = none := by
  have hstopped : c.Stopped := by
    rcases hpre with rfl | ⟨before, word, now, rfl⟩
    · cases hrun
      exact stopped_new id dhtVersion store whiteNodes rand
    · rw [List.foldlM_append] at hrun
      rcases bind_eq_ok.1 hrun with ⟨c₁, _, hstop⟩
      cases hstop
      exact stopped_stopDht c₁ now
  have hstep : ∀ {c : BdNodeManager mFns} {op}, c.Stopped → ¬ Starts op →
      ∃ c', managerStepOn c op = .ok c' ∧ c'.Stopped := fun h hop => h.step hop
  rcases exists_run hstep hmid hstopped with ⟨c', hrest, h⟩
  exact ⟨c', hrest, h.silent, h.getDhtPeerAddress⟩

/-- What happens after a search has been stopped: a pong comes in, and an id is to be found. -/
def stoppedOps : List ((Nat → UInt32) × Int × ManagerOp) :=
  [searchPong 22, (fun _ => 0, 76, .addFindNode (byteId 2) 0 afInet), searchIteration 77]

theorem stopped_silent_search : ∃ c c' : BdNodeManager bdStdDht,
    (searchOps ++ [searchIteration 74, (fun _ => 0, 75, .stopDht)]).foldlM managerStepOn searchStart =
      .ok c ∧
      stoppedOps.foldlM managerStepOn c = .ok c' ∧ c'.Silent ∧
      ∀ id', c'.getDhtPeerAddress id' = none := by
  have hrun : Outcome.holds ((searchOps ++ [searchIteration 74, (fun _ => 0, 75, .stopDht)]).foldlM
      managerStepOn searchStart) (fun _ => true) = true := by
    decide +kernel
  rcases Outcome.holds_iff.1 hrun with ⟨c, hc, _⟩
  have hmid : ∀ op ∈ stoppedOps, ¬ Starts op := by
    intro op hop
    simp only [stoppedOps, List.mem_cons, List.not_mem_nil, or_false] at hop
    rcases hop with rfl | rfl | rfl
    · exact id
    · exact id
    · exact id
  rcases stopped_silent (byteId 0) [] [] [] (fun _ => 5) hc
    (.inr ⟨searchOps ++ [searchIteration 74], fun _ => 0, 75, by simp⟩) hmid with ⟨c', hc', hsilent, hget⟩
  exact ⟨c, c', hc, hc', hsilent, hget⟩

end BdNodeManager

end BitDht
