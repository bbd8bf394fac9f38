import BitDht.Node.Iteration
import BitDht.Node.Leftover

/-!
# Calls — a node from call to call

What is called on a node, by its iteration and by the manager, each call at a time.  A packet comes with
the word that it finds in the scratch of the trailer.  An iteration is a run of such calls
(`iteration_calls`), so what holds over every run of calls holds over every run of a node.  The model of
`iteration` stops where a packet comes to its trailer; `iterationOn` goes on as `recvPktOn` does, with a
leftover word for each packet.
-/

namespace BitDht

open Outcome

variable {mFns : BdDhtFunctions}

/-- A call on a node.  `iteration` makes the first ones, and once a loop is left, the next. -/
inductive NodeCall
  | recvPkt (junk : Junk) (word : UInt32) (msg : List UInt8) (addr : SockaddrIn)
  | pingPotential (n : Nat)
  | askQueries (env : IterEnv) (n i sentMsgs : Nat)
  | processRemoteQuery
  | pingOutOfDate (fuel : Nat)
  | broadcastTo (it : BdPeer)
  | punch (times : Nat) (it : BdId)
  | addQuery (id : BdNodeId) (qflags : UInt32)
  | clearQuery (rmId : BdNodeId)
  | addConnReq (id : BdNodeId)
  | addPotentialPeer (id : BdId)
  | reloadStore (store : List BdPeer)
  | outgoingMsg
  | shutdownNode

namespace BdNode

/-- `outgoingMsg`: the queue afterwards. -/
def outgoingMsg (s : BdNode mFns) : BdNode mFns :=
  { s with mOutgoingMsgs := s.mOutgoingMsgs.drop 1 }

/-- `shutdownNode` -/
def shutdownNode (s : BdNode mFns) : BdNode mFns :=
  { s with
      mLocalQueries := [],
      mRemoteQueries := [],
      mNodeSpace := s.mNodeSpace.clear,
      mPotentialPeers := [],
      mStore := [],
      mOutgoingMsgs := [] }

end BdNode

/-- A call at a time. -/
def callStep (s : BdNode mFns) : Int × NodeCall → Exec (BdNode mFns)
  | (now, .recvPkt junk word msg addr) => s.recvPktOn word now junk msg msg.length addr
  | (_, .pingPotential n) => do
      let (_, s) ← BdNode.pingPotential n s
      pure s
  | (now, .askQueries env n i sentMsgs) => BdNode.askQueries now env n i sentMsgs s
  | (now, .processRemoteQuery) => s.processRemoteQuery now
  | (now, .pingOutOfDate fuel) => BdNode.pingOutOfDate now fuel s
  | (_, .broadcastTo it) => s.broadcastTo it
  | (_, .punch times it) => BdNode.punch times s it
  | (now, .addQuery id qflags) => pure (s.addQuery now id qflags)
  | (_, .clearQuery rmId) => pure (s.clearQuery rmId)
  | (_, .addConnReq id) => pure (s.addConnReq id)
  | (_, .addPotentialPeer id) => pure (s.addPotentialPeer id)
  | (_, .reloadStore store) => pure { s with mStore := store }
  | (_, .outgoingMsg) => pure s.outgoingMsg
  | (_, .shutdownNode) => pure s.shutdownNode

/-! ## An iteration as a run of calls -/

/-- Some calls at the time `now` lead from one node to the other. -/
def CallRun (now : Int) (s s' : BdNode mFns) : Prop :=
  ∃ calls : List (Int × NodeCall), (∀ c ∈ calls, c.1 = now) ∧
    calls.foldlM callStep s = .ok s'

namespace CallRun

variable {now : Int} {s s' s'' : BdNode mFns}

theorem refl (now : Int) (s : BdNode mFns) : CallRun now s s :=
  ⟨[], fun _ hc => absurd hc List.not_mem_nil, rfl⟩

theorem single {c : NodeCall} (h : callStep s (now, c) = .ok s') : CallRun now s s' := by
  refine ⟨[(now, c)], ?_, ?_⟩
  · intro x hx
    rw [List.mem_singleton.1 hx]
  · rw [List.foldlM_cons, h, ok_bind]
    rfl

theorem trans (h : CallRun now s s') (h' : CallRun now s' s'') : CallRun now s s'' := by
  rcases h with ⟨calls, htime, hrun⟩
  rcases h' with ⟨calls', htime', hrun'⟩
  refine ⟨calls ++ calls', ?_, ?_⟩
  · intro c hc
    rcases List.mem_append.1 hc with hc | hc
    · exact htime c hc
    · exact htime' c hc
  · rw [List.foldlM_append, hrun, ok_bind, hrun']

end CallRun

/-- An iteration is a run of calls, all of them at its time. -/
theorem BdNodeIter.iteration_calls {s s' : BdNodeIter mFns} {now : Int} {env : IterEnv}
    (h : s.iteration now env = .ok s') : CallRun now s.toBdNode s'.toBdNode := by
  have hcalls : IterationRel now (@CallRun mFns now) :=
    { refl := .refl now
      trans := .trans
      -- the packet does not come to a trailer, so any word will do
      recvPkt := fun {_ _ junk msg addr} h =>
        .single (c := .recvPkt junk 0 msg addr) (BdNode.recvPktOn_eq_of_ok h 0)
      pingPotential := fun {_ _ n _} h => .single (c := .pingPotential n) (by
        rw [callStep, h]
        rfl)
      askQueries := fun {_ _ env n i sentMsgs} h => .single (c := .askQueries env n i sentMsgs) h
      processRemoteQuery := fun h => .single (c := .processRemoteQuery) h
      pingOutOfDate := fun {_ _ fuel} h => .single (c := .pingOutOfDate fuel) h
      broadcastTo := fun {_ _ it} h => .single (c := .broadcastTo it) h
      punch := fun {_ _ times it} h => .single (c := .punch times it) h }
  exact hcalls.iteration h

theorem BdNodeIter.restartNode_calls (s : BdNodeIter mFns) (now : Int)
    (store whiteNodes : List BdPeer) :
    CallRun now s.toBdNode (s.restartNode store whiteNodes).toBdNode := by
  have hpeers : ∀ (peers : List BdPeer) (node : BdNode mFns), CallRun now node
      (peers.foldl (fun s it => s.addPotentialPeer it.mPeerId) node) := by
    intro peers
    induction peers with
    | nil =>
        exact fun node => .refl now node
    | cons it peers ih =>
        intro node
        exact (CallRun.single (c := .addPotentialPeer it.mPeerId) rfl).trans (ih _)
  have hstore : CallRun now s.toBdNode { s.toBdNode with mStore := store } :=
    .single (c := .reloadStore store) rfl
  exact (hstore.trans (hpeers store _)).trans (hpeers whiteNodes _)

theorem BdNodeIter.shutdownNode_toBdNode (s : BdNodeIter mFns) :
    s.shutdownNode.toBdNode = s.toBdNode.shutdownNode := rfl

theorem BdNodeIter.outgoingMsg_toBdNode (s : BdNodeIter mFns) :
    s.outgoingMsg.toBdNode = s.toBdNode.outgoingMsg := rfl

/-! ## An iteration that goes past a trailer -/

namespace BdNodeIter

/-- The incoming messages from the `i`-th on. -/
def recvPktsOn (word : Nat → UInt32) (now : Int) (env : IterEnv) : Nat → List BdNodeNetMsg →
    BdNode mFns → Exec (BdNode mFns)
  | _, [], s => pure s
  | i, msg :: msgs, s => do
      let s ← s.recvPktOn (word i) now (env.junk i) msg.data msg.data.length msg.addr
      recvPktsOn word now env (i + 1) msgs s

/-- `iteration`, which receives the packets first and then goes on as with none. -/
def iterationOn (word : Nat → UInt32) (s : BdNodeIter mFns) (now : Int) (env : IterEnv) :
    Exec (BdNodeIter mFns) := do
  let node ← recvPktsOn word now env 0 s.mIncomingMsgs s.toBdNode
  { s with toBdNode := node, mIncomingMsgs := [] }.iteration now env

theorem recvPktsOn_eq_of_ok (word : Nat → UInt32) {now : Int} {env : IterEnv} {i : Nat}
    {msgs : List BdNodeNetMsg} {s s' : BdNode mFns} (h : recvPkts now env i msgs s = .ok s') :
    recvPktsOn word now env i msgs s = .ok s' := by
  induction msgs generalizing i s with
  | nil => exact h
  | cons msg msgs ih =>
      rcases bind_eq_ok.1 h with ⟨s₁, hs₁, hrest⟩
      rw [recvPktsOn, BdNode.recvPktOn_eq_of_ok hs₁, ok_bind]
      exact ih hrest

/-- Where the model of `iteration` does not stop, no leftover word makes a difference. -/
theorem iterationOn_eq_of_ok (word : Nat → UInt32) {s s' : BdNodeIter mFns} {now : Int}
    {env : IterEnv} (h : s.iteration now env = .ok s') : s.iterationOn word now env = .ok s' := by
  rcases bind_eq_ok.1 h with ⟨node, hnode, hrest⟩
  rcases bind_eq_ok.1 hnode with ⟨s₁, hs₁, hnode⟩
  have hiterate : iterate s₁ now env [] = .ok node := hnode
  rw [iterationOn, recvPktsOn_eq_of_ok word hs₁, ok_bind, iteration]
  dsimp only
  rw [hiterate]
  exact hrest

end BdNodeIter

/-- So is an iteration that goes past a trailer. -/
theorem BdNodeIter.iterationOn_calls {word : Nat → UInt32} {s s' : BdNodeIter mFns} {now : Int}
    {env : IterEnv} (h : s.iterationOn word now env = .ok s') :
    CallRun now s.toBdNode s'.toBdNode := by
  have hpackets : ∀ {msgs : List BdNodeNetMsg} {i : Nat} {node node' : BdNode mFns},
      recvPktsOn word now env i msgs node = .ok node' → CallRun now node node' := by
    intro msgs
    induction msgs with
    | nil =>
        intro i node node' hrun
        cases hrun
        exact .refl now node
    | cons msg msgs ih =>
        intro i node node' hrun
        rcases bind_eq_ok.1 hrun with ⟨node₁, hnode₁, hrest⟩
        exact (CallRun.single (c := .recvPkt (env.junk i) (word i) msg.data msg.addr) hnode₁).trans
          (ih hrest)
  rcases bind_eq_ok.1 h with ⟨node, hnode, hrest⟩
  exact (hpackets hnode).trans (iteration_calls hrest)

end BitDht
