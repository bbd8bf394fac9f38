import BitDht.Node.RecvPkt

/-!
# Iteration — what a `bdNode` does once a second

`bdNode::iteration` with the loops it is made of, the start and the end of a node, and what the
manager asks it about its queries.  `BdNodeIter` has the members that no handler works on.  A relation
between an earlier node and a later one holds over an iteration if it holds over the calls of which
the iteration is made (`IterationRel.iteration`).
-/

namespace BitDht

open Container Outcome

variable {mFns : BdDhtFunctions}

/-- What the library functions of one call of `iteration` come to, and what lies in the variables
that it does not assign to: for the packets and the queries in their order. -/
structure IterEnv where
  junk : Nat → Junk
  bdRandomMidId : Nat → BdNodeId → BdNodeId → BdNodeId
  endId : Nat → BdNodeId

/-! ## More messages -/

namespace BdNode

/-- `msgout_find_node` -/
def msgoutFindNode (s : BdNode mFns) (id : BdId) (transId : BdToken) (query : BdNodeId) :
    Exec (BdNode mFns) :=
  s.msgout (bitdhtFindNodeMsg transId s.mOwnId query) id.addr

/-- `msgout_ask_myip` -/
def msgoutAskMyip (s : BdNode mFns) (dhtId : BdId) (transId : BdToken) : Exec (BdNode mFns) :=
  s.msgoutEcrypted (bitdhtAskMyipMsg transId s.mOwnId) dhtId.addr

/-- `msgout_broadcast_conn` -/
def msgoutBroadcastConn (s : BdNode mFns) (id : BdId) (tid : BdToken) (nodeId peerId : BdNodeId) :
    Exec (BdNode mFns) :=
  s.msgout (bitdhtBroadcastConnMsg tid s.mOwnId nodeId peerId) id.addr

/-- The next transaction id and a ping with it. -/
def ping (s : BdNode mFns) (id : BdId) : Exec (BdNode mFns) :=
  let (transId, s) := s.genNewTransId
  s.msgoutPing id transId

/-! ## The loops of `iteration` -/

/-- `maxMsgs` -/
def maxMsgs : Nat := 50

/-- `0.9 * maxMsgs` -/
def allowedPings : Nat := 45

/-- The loop over the potential peers, of which `n` may still be pinged: the node and how many were
not. -/
def pingPotential : Nat → BdNode mFns → Exec (Nat × BdNode mFns)
  | 0, s => pure (0, s)
  | n + 1, s =>
      match s.mPotentialPeers with
      | [] => pure (n + 1, s)
      | pid :: peers => do
          let s ← { s with mPotentialPeers := peers }.ping pid
          pingPotential n s

/-- The loop over the queries from the `i`-th on, `n` in all, while `sentMsgs < maxMsgs`.  Each one is
taken from the front, put behind the others and may ask one peer. -/
def askQueries (now : Int) (env : IterEnv) : Nat → Nat → Nat → BdNode mFns → Exec (BdNode mFns)
  | 0, _, _, s => pure s
  | n + 1, i, sentMsgs, s =>
      match s.mLocalQueries with
      | [] => pure s
      | query :: queries =>
          if sentMsgs < maxMsgs then
            let r := query.nextQuery mFns (env.bdRandomMidId i) now (env.endId i)
            let s := { s with mLocalQueries := queries ++ [r.1] }
            match r.2 with
            | some (id, targetNodeId) => do
                let (transId, s) := s.genNewTransId
                let s ← s.msgoutFindNode id transId targetNodeId
                askQueries now env n (i + 1) (sentMsgs + 1) s
            | none => askQueries now env n (i + 1) sentMsgs s
          else
            pure s

/-- The loop over the peers that are out of date.  Each round notes the time with one more of the
peers, so `fuel` need not be more than their number. -/
def pingOutOfDate (now : Int) : Nat → BdNode mFns → Exec (BdNode mFns)
  | 0, s => pure s
  | fuel + 1, s =>
      match s.mNodeSpace.outOfDatePeer now with
      | (_, none) => pure s
      | (space, some id) => do
          let s ← { s with mNodeSpace := space }.ping id
          pingOutOfDate now fuel s

/-- The body of both loops of `broadcastPeers`. -/
def broadcastTo (s : BdNode mFns) (it : BdPeer) : Exec (BdNode mFns) := do
  let (transId, s) := s.genNewTransId
  let s ← s.msgoutAskMyip it.mPeerId transId
  s.mConnectRequests.entries.foldlM (fun s itt => do
    let (transId, s) := s.genNewTransId
    s.msgoutBroadcastConn it.mPeerId transId itt.1 itt.2) s

/-- The body of the loop of `punching`. -/
def punch (times : Nat) (s : BdNode mFns) (it : BdId) : Exec (BdNode mFns) :=
  let (transId, s) := s.genNewTransId
  (List.range times).foldlM (fun s _ => s.msgoutPing it transId) s

/-- `punching` -/
def punching (s : BdNode mFns) (times : Nat) : Exec (BdNode mFns) :=
  s.mPunching.foldlM (punch times) s

/-! ## Requests and queries -/

/-- `addConnReq` -/
def addConnReq (s : BdNode mFns) (id : BdNodeId) : BdNode mFns :=
  { s with mConnectRequests := s.mConnectRequests.assign s.mOwnId id }

/-- `addPotentialPeer` -/
def addPotentialPeer (s : BdNode mFns) (id : BdId) : BdNode mFns :=
  { s with mPotentialPeers := s.mPotentialPeers ++ [id] }

end BdNode

/-- `bdQueryStatus` -/
structure BdQueryStatus where
  mStatus : QueryState
  mQFlags : UInt32
  mResults : List BdId

namespace BdNode

/-- `QueryStatus`: what the call makes of an empty map. -/
def queryStatus (s : BdNode mFns) : OrdMap BdNodeId BdQueryStatus :=
  s.mLocalQueries.foldl (fun statusMap it => statusMap.assign it.mId
    { mStatus := it.mState, mQFlags := it.mQueryFlags, mResults := it.result }) OrdMap.empty

/-- `getIdFromQuery`: what the call adds to `idList`, if it returns true. -/
def getIdFromQuery (s : BdNode mFns) (id : BdNodeId) : Option (List BdPeer) :=
  (s.mLocalQueries.find? (fun it => it.mId = id)).map BdQuery.matchResult

end BdNode

/-! ## The node as a whole -/

/-- `bdNode` with the members that its handlers do not work on. -/
structure BdNodeIter (mFns : BdDhtFunctions) extends BdNode mFns where
  mWhiteNodes : List BdPeer
  mIncomingMsgs : List BdNodeNetMsg
  /-- a static variable of `iteration` -/
  broadcastCount : Nat

namespace BdNodeIter

/-- The constructor of `bdNode`, with the peers that the two files hold. -/
def new (ownId : BdNodeId) (dhtVersion : List UInt8) (store whiteNodes : List BdPeer)
    (rand : Nat → UInt32) : BdNodeIter mFns where
  toBdNode := BdNode.new ownId dhtVersion store rand
  mWhiteNodes := whiteNodes
  mIncomingMsgs := []
  broadcastCount := 0

/-- `incomingMsg` -/
def incomingMsg (s : BdNodeIter mFns) (addr : SockaddrIn) (msg : List UInt8) : BdNodeIter mFns :=
  { s with mIncomingMsgs := s.mIncomingMsgs ++ [{ data := msg, addr := addr }] }

/-- `outgoingMsg`: the queue afterwards. -/
def outgoingMsg (s : BdNodeIter mFns) : BdNodeIter mFns :=
  { s with mOutgoingMsgs := s.mOutgoingMsgs.drop 1 }

/-- `restartNode`, with the peers that the two files hold now. -/
def restartNode (s : BdNodeIter mFns) (store whiteNodes : List BdPeer) : BdNodeIter mFns :=
  let node := { s.toBdNode with mStore := store }
  let node := store.foldl (fun s it => s.addPotentialPeer it.mPeerId) node
  let node := whiteNodes.foldl (fun s it => s.addPotentialPeer it.mPeerId) node
  { s with toBdNode := node, mWhiteNodes := whiteNodes }

/-- `shutdownNode` -/
def shutdownNode (s : BdNodeIter mFns) : BdNodeIter mFns :=
  { s with
      mLocalQueries := [],
      mRemoteQueries := [],
      mNodeSpace := s.mNodeSpace.clear,
      mPotentialPeers := [],
      mStore := [],
      mOutgoingMsgs := [] }

/-- `broadcastPeers` -/
def broadcastPeers (s : BdNodeIter mFns) : Exec (BdNodeIter mFns) := do
  let node ← s.mWhiteNodes.foldlM BdNode.broadcastTo s.toBdNode
  let node ← node.mStore.foldlM BdNode.broadcastTo node
  pure { s with toBdNode := node }

/-- The incoming messages from the `i`-th on. -/
def recvPkts (now : Int) (env : IterEnv) : Nat → List BdNodeNetMsg → BdNode mFns →
    Exec (BdNode mFns)
  | _, [], s => pure s
  | i, msg :: msgs, s => do
      let s ← s.recvPkt now (env.junk i) msg.data msg.data.length msg.addr
      recvPkts now env (i + 1) msgs s

/-- `iteration` up to the broadcasts. -/
def iterate (s : BdNode mFns) (now : Int) (env : IterEnv) (msgs : List BdNodeNetMsg) :
    Exec (BdNode mFns) := do
  -- process incoming msgs
  let s ← recvPkts now env 0 msgs s
  let (left, s) ← BdNode.pingPotential BdNode.allowedPings s
  -- allow each query to send up to one query... until maxMsgs has been reached
  let s ← BdNode.askQueries now env s.mLocalQueries.length 0 (BdNode.allowedPings - left) s
  -- process remote query too
  let s ← s.processRemoteQuery now
  BdNode.pingOutOfDate now s.mNodeSpace.calcSpaceSize s

/-- `iteration` -/
def iteration (s : BdNodeIter mFns) (now : Int) (env : IterEnv) : Exec (BdNodeIter mFns) := do
  let node ← iterate s.toBdNode now env s.mIncomingMsgs
  let broadcastCount := s.broadcastCount + 1
  let s := { s with toBdNode := node, mIncomingMsgs := [], broadcastCount := broadcastCount }
  let s ← if broadcastCount % 10 = 0 then s.broadcastPeers else pure s
  if broadcastCount % 2 = 0 then do
    let node ← s.toBdNode.punching 100
    pure { s with toBdNode := node }
  else
    pure s

/-- `iterationOff` -/
def iterationOff (s : BdNodeIter mFns) : BdNodeIter mFns :=
  { s with mIncomingMsgs := [] }

end BdNodeIter

/-! ## What holds over an iteration -/

section loops

variable {R : BdNode mFns → BdNode mFns → Prop} {s s' : BdNode mFns} {now : Int}

/-- What holds over each ping holds over the loop of them. -/
theorem BdNode.pingPotential_rel (hrefl : ∀ s, R s s)
    (htrans : ∀ {s s' s''}, R s s' → R s' s'' → R s s'')
    (hpop : ∀ (s : BdNode mFns) peers, R s { s with mPotentialPeers := peers })
    (hping : ∀ {s s' : BdNode mFns} {id}, s.ping id = .ok s' → R s s') {n left : Nat}
    (h : pingPotential n s = .ok (left, s')) : R s s' := by
  induction n generalizing s with
  | zero =>
      cases h
      exact hrefl _
  | succ n ih =>
      rw [pingPotential] at h
      split at h
      · cases h
        exact hrefl _
      · rename_i pid peers _
        rcases bind_eq_ok.1 h with ⟨s₁, hs₁, hrest⟩
        exact htrans (htrans (hpop s peers) (hping hs₁)) (ih hrest)

/-- What holds over `nextQuery` of the first query, and over a FIND_NODE with a new transaction id,
holds over the loop of them. -/
theorem BdNode.askQueries_rel (hrefl : ∀ s, R s s)
    (htrans : ∀ {s s' s''}, R s s' → R s' s'' → R s s'')
    (hquery : ∀ {s : BdNode mFns} {query queries} bdRandomMidId endId,
      s.mLocalQueries = query :: queries → R s { s with
        mLocalQueries := queries ++ [(query.nextQuery mFns bdRandomMidId now endId).1] })
    (hask : ∀ {s s' : BdNode mFns} {id target},
      s.genNewTransId.2.msgoutFindNode id s.genNewTransId.1 target = .ok s' → R s s')
    {env : IterEnv} {n i sentMsgs : Nat} (h : askQueries now env n i sentMsgs s = .ok s') :
    R s s' := by
  induction n generalizing i sentMsgs s with
  | zero =>
      cases h
      exact hrefl _
  | succ n ih =>
      rw [askQueries] at h
      split at h
      · cases h
        exact hrefl _
      · rename_i query queries hqueries
        have hround := hquery (env.bdRandomMidId i) (env.endId i) hqueries
        split_ifs at h
        · dsimp only at h
          split at h
          · rcases bind_eq_ok.1 h with ⟨s₁, hs₁, hrest⟩
            exact htrans (htrans hround (hask hs₁)) (ih hrest)
          · exact htrans hround (ih h)
        · cases h
          exact hrefl _

/-- What holds over each ping of a peer that is out of date holds over the loop of them. -/
theorem BdNode.pingOutOfDate_rel (hrefl : ∀ s, R s s)
    (htrans : ∀ {s s' s''}, R s s' → R s' s'' → R s s'')
    (hspace : ∀ (s : BdNode mFns) space, R s { s with mNodeSpace := space })
    (hping : ∀ {s s' : BdNode mFns} {id}, s.ping id = .ok s' → R s s') {fuel : Nat}
    (h : pingOutOfDate now fuel s = .ok s') : R s s' := by
  induction fuel generalizing s with
  | zero =>
      cases h
      exact hrefl _
  | succ fuel ih =>
      rw [pingOutOfDate] at h
      split at h
      · cases h
        exact hrefl _
      · rename_i space id _
        rcases bind_eq_ok.1 h with ⟨s₁, hs₁, hrest⟩
        exact htrans (htrans (hspace s space) (hping hs₁)) (ih hrest)

/-- What holds over a NEWCONN and over each BROADCAST_CONN, all with new transaction ids, holds over
both loops of `broadcastPeers`. -/
theorem BdNode.broadcastTo_rel (hrefl : ∀ s, R s s)
    (htrans : ∀ {s s' s''}, R s s' → R s' s'' → R s s'')
    (hask : ∀ {s s' : BdNode mFns} {id},
      s.genNewTransId.2.msgoutAskMyip id s.genNewTransId.1 = .ok s' → R s s')
    (hbroadcast : ∀ {s s' : BdNode mFns} {id nodeId peerId},
      s.genNewTransId.2.msgoutBroadcastConn id s.genNewTransId.1 nodeId peerId = .ok s' → R s s')
    {it : BdPeer} (h : s.broadcastTo it = .ok s') : R s s' := by
  rcases bind_eq_ok.1 h with ⟨s₁, hs₁, hrest⟩
  exact htrans (hask hs₁) (foldlM_rel hrefl htrans hbroadcast hrest)

/-- What holds over each broadcast and over each punching holds over an iteration from there on. -/
theorem BdNodeIter.iteration_rel (hrefl : ∀ s, R s s)
    (htrans : ∀ {s s' s''}, R s s' → R s' s'' → R s s'')
    (hbroadcast : ∀ {s s' : BdNode mFns} {it}, s.broadcastTo it = .ok s' → R s s')
    (hpunch : ∀ {s s' : BdNode mFns} {times it}, BdNode.punch times s it = .ok s' → R s s')
    {s s' : BdNodeIter mFns} {env : IterEnv} (h : s.iteration now env = .ok s') :
    ∃ node, iterate s.toBdNode now env s.mIncomingMsgs = .ok node ∧ R node s'.toBdNode := by
  have hpeers : ∀ {s s' : BdNodeIter mFns}, s.broadcastPeers = .ok s' →
      R s.toBdNode s'.toBdNode := by
    intro s s' h
    rcases bind_eq_ok.1 h with ⟨node₁, hnode₁, h⟩
    rcases bind_eq_ok.1 h with ⟨node₂, hnode₂, h⟩
    cases h
    exact htrans (foldlM_rel hrefl htrans hbroadcast hnode₁)
      (foldlM_rel hrefl htrans hbroadcast hnode₂)
  rcases bind_eq_ok.1 h with ⟨node, hnode, hrest⟩
  refine ⟨node, hnode, ?_⟩
  dsimp only at hrest
  split_ifs at hrest
  · rcases bind_eq_ok.1 hrest with ⟨s₁, hs₁, hrest⟩
    rcases bind_eq_ok.1 hrest with ⟨node₁, hnode₁, hrest⟩
    cases hrest
    exact htrans (hpeers hs₁) (foldlM_rel hrefl htrans hpunch hnode₁)
  · rcases bind_eq_ok.1 hrest with ⟨s₁, hs₁, hrest⟩
    cases hrest
    exact hpeers hs₁
  · rcases bind_eq_ok.1 hrest with ⟨s₁, hs₁, hrest⟩
    rcases bind_eq_ok.1 hrest with ⟨node₁, hnode₁, hrest⟩
    cases hs₁
    cases hrest
    exact foldlM_rel hrefl htrans hpunch hnode₁
  · cases hrest
    exact hrefl node

end loops

/-- A relation between a node and a later one that holds over each call that an iteration makes at
the time `now`, and over one call after another. -/
structure IterationRel (now : Int) (R : BdNode mFns → BdNode mFns → Prop) : Prop where
  refl : ∀ s, R s s
  trans : ∀ {s s' s''}, R s s' → R s' s'' → R s s''
  recvPkt : ∀ {s s' : BdNode mFns} {junk msg addr},
    s.recvPkt now junk msg msg.length addr = .ok s' → R s s'
  pingPotential : ∀ {s s' n left}, BdNode.pingPotential n s = .ok (left, s') → R s s'
  askQueries : ∀ {s s' env n i sentMsgs},
    BdNode.askQueries now env n i sentMsgs s = .ok s' → R s s'
  processRemoteQuery : ∀ {s s' : BdNode mFns}, s.processRemoteQuery now = .ok s' → R s s'
  pingOutOfDate : ∀ {s s' fuel}, BdNode.pingOutOfDate now fuel s = .ok s' → R s s'
  broadcastTo : ∀ {s s' : BdNode mFns} {it}, s.broadcastTo it = .ok s' → R s s'
  punch : ∀ {s s' times it}, BdNode.punch times s it = .ok s' → R s s'

namespace IterationRel

variable {now : Int} {R : BdNode mFns → BdNode mFns → Prop}

theorem recvPkts (hR : IterationRel now R) {env : IterEnv} {i : Nat} {msgs : List BdNodeNetMsg}
    {s s' : BdNode mFns} (h : BdNodeIter.recvPkts now env i msgs s = .ok s') : R s s' := by
  induction msgs generalizing i s with
  | nil =>
      cases h
      exact hR.refl _
  | cons msg msgs ih =>
      rcases bind_eq_ok.1 h with ⟨s₁, hs₁, hrest⟩
      exact hR.trans (hR.recvPkt hs₁) (ih hrest)

theorem iterate (hR : IterationRel now R) {env : IterEnv} {msgs : List BdNodeNetMsg}
    {s s' : BdNode mFns} (h : BdNodeIter.iterate s now env msgs = .ok s') : R s s' := by
  rcases bind_eq_ok.1 h with ⟨s₁, hs₁, h⟩
  rcases bind_eq_ok.1 h with ⟨⟨left, s₂⟩, hs₂, h⟩
  rcases bind_eq_ok.1 h with ⟨s₃, hs₃, h⟩
  rcases bind_eq_ok.1 h with ⟨s₄, hs₄, hs'⟩
  have hasked := hR.trans (hR.trans (hR.recvPkts hs₁) (hR.pingPotential hs₂)) (hR.askQueries hs₃)
  exact hR.trans (hR.trans hasked (hR.processRemoteQuery hs₄)) (hR.pingOutOfDate hs')

/-- It holds over a whole iteration, with or without the broadcasts. -/
theorem iteration (hR : IterationRel now R) {s s' : BdNodeIter mFns} {env : IterEnv}
    (h : s.iteration now env = .ok s') : R s.toBdNode s'.toBdNode := by
  rcases BdNodeIter.iteration_rel hR.refl hR.trans hR.broadcastTo hR.punch h with
    ⟨node, hnode, hrest⟩
  exact hR.trans (hR.iterate hnode) hrest

end IterationRel

end BitDht
