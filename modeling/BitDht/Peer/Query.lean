import BitDht.Peer.Space

/-!
# Query — local and remote queries of `bdquery.cc`

A local query keeps the closest peers that answered and the closest that were only heard of, both
sorted by their distance to the target.
-/

namespace BitDht

open Container

/-! ## Constants -/

def bitdhtPeerStatusRecvPong : UInt32 := 0x00000001

def bitdhtPeerStatusRecvNodes : UInt32 := 0x00000002

def expectedReply : Int := 20

def queryIdleRetryPeerPeriod : Int := 300

def bitdhtMinQueryAge : Int := 10

def bitdhtMaxQueryAge : Int := 1800

def bitdhtQflagsDisguise : UInt32 := 1

def bitdhtQflagsDoIdle : UInt32 := 2

/-- `BITDHT_QUERY_READY` to `BITDHT_QUERY_SUCCESS` -/
inductive QueryState
  | ready
  | querying
  | failure
  | foundClosest
  | peerUnreachable
  | success
  deriving DecidableEq, Repr

/-! ## Local queries -/

/-- `bdQuery` -/
structure BdQuery where
  mId : BdNodeId
  mLimit : BdMetric
  mState : QueryState
  mQueryTS : Int
  mQueryFlags : UInt32
  mSearchTime : Int
  mQueryIdlePeerRetryPeriod : Int
  mClosest : Multimap BdMetric BdPeer
  mPotentialClosest : Multimap BdMetric BdPeer

/-- `bdZeroNodeId` -/
def bdZeroNodeId : BdNodeId where
  data := List.replicate bitdhtKeyLen 0
  size := by simp

/-- The constructor of `bdQuery`. -/
def BdQuery.new (mFns : BdDhtFunctions) (now : Int) (id : BdNodeId) (startList : List BdId)
    (queryFlags : UInt32) : BdQuery where
  mId := id
  mLimit := bdZeroNodeId
  mState := .querying
  mQueryTS := now
  mQueryFlags := queryFlags
  mSearchTime := 0
  mQueryIdlePeerRetryPeriod := queryIdleRetryPeerPeriod
  mClosest := startList.foldl (fun closest it => closest.insert (mFns.bdDistance id it.id)
    { mPeerId := it, mPeerFlags := 0, mLastSendTime := 0, mLastRecvTime := 0, mFoundTime := now })
    Multimap.empty
  mPotentialClosest := Multimap.empty

/-- A peer that was asked more than `EXPECTED_REPLY` seconds ago and has not answered. -/
def unresponsive (ts : Int) (peer : BdPeer) : Bool :=
  let sendts := ts - peer.mLastSendTime
  let hasSent := peer.mLastSendTime != 0
  let hasReply := decide (peer.mLastRecvTime ≥ peer.mLastSendTime)
  hasSent && !hasReply && decide (sendts > expectedReply)

/-- The entry of the peer `id` among those at the distance `dist`. -/
def samePeer (dist : BdMetric) (id : BdId) (e : BdMetric × BdPeer) : Bool :=
  e.1 = dist && bdIdEq e.2.mPeerId id

/-- `if (mode & BITDHT_PEER_STATUS_RECV_NODES) it->second.mLastRecvTime = ts` -/
def noteReply (mode : UInt32) (ts : Int) (peer : BdPeer) : BdPeer :=
  if mode &&& bitdhtPeerStatusRecvNodes ≠ 0 then { peer with mLastRecvTime := ts } else peer

/-- `toDrop` times the first entry that does not reply is dropped. -/
def dropUnresponsive (ts : Int) : Nat → List (BdMetric × BdPeer) → List (BdMetric × BdPeer)
  | 0, l => l
  | toDrop + 1, l => dropUnresponsive ts toDrop (l.eraseP (fun e => unresponsive ts e.2))

theorem dropUnresponsive_sublist (ts : Int) (toDrop : Nat) (l : List (BdMetric × BdPeer)) :
    (dropUnresponsive ts toDrop l).Sublist l := by
  induction toDrop generalizing l with
  | zero =>
      exact List.Sublist.refl l
  | succ toDrop ih =>
      exact (ih _).trans List.eraseP_sublist

/-- `while (size() > bdNodesPerBucket() - 1)` the last entry is dropped. -/
def trimBack (mFns : BdDhtFunctions) (l : List (BdMetric × BdPeer)) : List (BdMetric × BdPeer) :=
  l.take (mFns.bdNodesPerBucket - 1)

/-- `bdQuery::addPeer`: the query afterwards and the returned flag. -/
def BdQuery.addPeer (mFns : BdDhtFunctions) (q : BdQuery) (ts : Int) (id : BdId)
    (mode : UInt32) : BdQuery × Nat :=
  let dist := mFns.bdDistance q.mId id.id
  let closer := q.mClosest.below dist
  let toDrop := closer.countP (fun e => unresponsive ts e.2)
  -- the ones that do not reply are not counted
  let i : Int := closer.length - toDrop
  if i > (mFns.bdNodesPerBucket : Int) - 1 then
    (q, 0)
  else if (q.mClosest.equalRange dist).any (fun e => bdIdEq e.2.mPeerId id) then
    ({ q with mClosest := q.mClosest.update (samePeer dist id) (noteReply mode ts) }, 1)
  else
    let kept := q.mClosest.erase
      ((List.take_sublist _ _).trans (dropUnresponsive_sublist ts toDrop q.mClosest.entries) :
        (trimBack mFns (dropUnresponsive ts toDrop q.mClosest.entries)).Sublist q.mClosest.entries)
    let peer : BdPeer := noteReply mode ts
      { mPeerId := id, mPeerFlags := 0, mLastSendTime := 0, mLastRecvTime := 0, mFoundTime := ts }
    ({ q with mClosest := kept.insert dist peer }, 1)

/-- `bdQuery::addPotentialPeer`: the query afterwards and the returned flag. -/
def BdQuery.addPotentialPeer (mFns : BdDhtFunctions) (q : BdQuery) (ts : Int) (id : BdId)
    (mode : UInt32) : BdQuery × Nat :=
  let dist := mFns.bdDistance q.mId id.id
  let known := (q.mClosest.equalRange dist).any (fun e => bdIdEq e.2.mPeerId id)
  -- outside range, and the list is full
  let tooFar := decide ((q.mClosest.below dist).length = q.mClosest.size) &&
    decide (q.mClosest.size ≥ mFns.bdNodesPerBucket)
  if known || tooFar then
    (q, 0)
  else if ((q.mPotentialClosest.below dist).length : Int) > (mFns.bdNodesPerBucket : Int) - 1 then
    -- outside the list, but inside `mClosest` still, so the peer should be tried
    (q, 1)
  else if (q.mPotentialClosest.equalRange dist).any (fun e => bdIdEq e.2.mPeerId id) then
    ({ q with mPotentialClosest :=
        q.mPotentialClosest.update (samePeer dist id) (noteReply mode ts) }, 0)
  else
    let kept := q.mPotentialClosest.erase
      (List.take_sublist _ _ :
        (trimBack mFns q.mPotentialClosest.entries).Sublist q.mPotentialClosest.entries)
    let peer : BdPeer :=
      { mPeerId := id, mPeerFlags := 0, mLastSendTime := 0, mLastRecvTime := ts, mFoundTime := ts }
    ({ q with mPotentialClosest := kept.insert dist peer }, 1)

/-- `mQueryFlags & BITDHT_QFLAGS_DO_IDLE` -/
def doIdle (queryFlags : UInt32) : Bool := queryFlags &&& bitdhtQflagsDoIdle != 0

/-- The conversion to `int32_t`. -/
def toInt32 (n : Int) : Int := n.bmod (2 ^ 32)

/-- The update of `mQueryIdlePeerRetryPeriod` in `nextQuery`. -/
def BdQuery.updateRetryPeriod (q : BdQuery) (now : Int) : BdQuery :=
  if (now - q.mQueryTS).tdiv 2 > q.mQueryIdlePeerRetryPeriod then
    { q with mQueryIdlePeerRetryPeriod := toInt32 ((now - q.mQueryTS).tdiv 2) }
  else
    q

/-- `queryPeer` in the loop of `nextQuery`: never queried, or queried too long ago. -/
def BdQuery.queryPeer (q : BdQuery) (now : Int) (peer : BdPeer) : Bool :=
  peer.mLastSendTime == 0 ||
    doIdle q.mQueryFlags && decide (now - peer.mLastSendTime > q.mQueryIdlePeerRetryPeriod)

/-- The state of a query that is finished.  `mPotentialClosest.begin()` is looked at without a test;
for an empty map `endId` stands for the id that lies behind it. -/
def BdQuery.finalState (q : BdQuery) (endId : BdNodeId) : QueryState :=
  match q.mClosest.entries with
  | [] => .failure
  | e :: _ =>
      if e.2.mPeerId.id = q.mId then
        .success
      else if (q.mPotentialClosest.entries.head?.map (fun e => e.2.mPeerId.id)).getD endId =
          q.mId then
        .peerUnreachable
      else
        .foundClosest

/-- `bdQuery::nextQuery`: the query afterwards, and the peer and the target if it returns 1.
`bdRandomMidId` is what the function of that name comes to in this call. -/
def BdQuery.nextQuery (mFns : BdDhtFunctions) (bdRandomMidId : BdNodeId → BdNodeId → BdNodeId)
    (q : BdQuery) (now : Int) (endId : BdNodeId) : BdQuery × Option (BdId × BdNodeId) :=
  if q.mState ≠ .querying ∧ doIdle q.mQueryFlags = false then
    (q, none)
  else
    let q := q.updateRetryPeriod now
    match q.mClosest.entries.find? (fun e => q.queryPeer now e.2) with
    | some e =>
        let id := e.2.mPeerId
        let targetNodeId :=
          if q.mQueryFlags &&& bitdhtQflagsDisguise ≠ 0 then bdRandomMidId q.mId id.id else q.mId
        let asked := q.mClosest.update (fun e => q.queryPeer now e.2)
          (fun peer => { peer with mLastSendTime := now })
        ({ q with mClosest := asked }, some (id, targetNodeId))
    | none =>
        let notFinished := q.mClosest.entries.any (fun e => e.2.mLastRecvTime == 0)
        let age := now - q.mQueryTS
        if age < bitdhtMinQueryAge then
          (q, none)
        else if ¬ age > bitdhtMaxQueryAge ∧
            (q.mClosest.size < mFns.bdNodesPerBucket ∨ notFinished = true) then
          -- not full yet...
          (q, none)
        else
          let mSearchTime := if q.mState = .querying then toInt32 age else q.mSearchTime
          ({ q with mSearchTime := mSearchTime, mState := q.finalState endId }, none)

/-- `bdQuery::result`: what the call adds to `answer`. -/
def BdQuery.result (q : BdQuery) : List BdId :=
  (q.mClosest.upTo q.mLimit).map (fun e => e.2.mPeerId)

/-- `bdQuery::matchResult`: what the call adds to `idList`. -/
def BdQuery.matchResult (q : BdQuery) : List BdPeer :=
  ((q.mClosest.entries ++ q.mPotentialClosest.entries).map Prod.snd).filter
    (fun peer => peer.mPeerId.id = q.mId)

/-- `bdQuery::result`: the list afterwards and the returned flag. -/
def BdQuery.resultCall (q : BdQuery) (answer : List BdId) : List BdId × Bool :=
  let r := (q.mClosest.upTo q.mLimit).foldl
    (fun (r : List BdId × Nat) sit => (r.1 ++ [sit.2.mPeerId], r.2 + 1)) (answer, 0)
  (r.1, decide (r.2 > 0))

/-- What the loops of `matchResult` do with an entry, over the list and the count. -/
def matchEntry (mId : BdNodeId) (r : List BdPeer × Nat) (it : BdMetric × BdPeer) :
    List BdPeer × Nat :=
  if it.2.mPeerId.id = mId then (r.1 ++ [it.2], r.2 + 1) else r

/-- `bdQuery::matchResult`: the list afterwards and the returned flag. -/
def BdQuery.matchResultCall (q : BdQuery) (idList : List BdPeer) : List BdPeer × Bool :=
  let r := q.mClosest.entries.foldl (matchEntry q.mId) (idList, 0)
  -- the head of the second loop counts every entry
  let r := q.mPotentialClosest.entries.foldl
    (fun r it => ((matchEntry q.mId r it).1, (matchEntry q.mId r it).2 + 1)) r
  (r.1, decide (r.2 > 0))

/-! ## Runs of a query -/

/-- The calls that change a query. -/
inductive QueryOp
  | addPeer (id : BdId) (mode : UInt32)
  | addPotentialPeer (id : BdId) (mode : UInt32)
  | nextQuery (bdRandomMidId : BdNodeId → BdNodeId → BdNodeId) (endId : BdNodeId)

/-- One call at the time that `time(NULL)` returns in it. -/
def queryStep (mFns : BdDhtFunctions) (q : BdQuery) : Int × QueryOp → BdQuery
  | (ts, .addPeer id mode) => (q.addPeer mFns ts id mode).1
  | (ts, .addPotentialPeer id mode) => (q.addPotentialPeer mFns ts id mode).1
  | (now, .nextQuery bdRandomMidId endId) => (q.nextQuery mFns bdRandomMidId now endId).1

/-! ## Remote queries -/

def bdQueryNeighbours : UInt32 := 1

def bdQueryHash : UInt32 := 2

/-- `bdRemoteQuery` -/
structure BdRemoteQuery where
  mId : BdId
  mQuery : BdNodeId
  mTransId : BdToken
  mQueryType : UInt32
  mQueryTS : Int

end BitDht
