import BitDht.Node.Calls

/-!
# Manager — `bdNodeManager`

The manager starts and stops its node, keeps the ids that are to be found, starts their queries and
tells its callbacks what became of them.  `managerStep` has one case for each function that is
called from outside; `managerStepOn` goes on where a packet comes to its trailer.
-/

namespace BitDht

open Container Outcome

variable {mFns : BdDhtFunctions}

/-! ## Constants and ids -/

/-- `BITDHT_MGR_STATE_OFF` to `BITDHT_MGR_STATE_FAILED` -/
inductive MgrState
  | off
  | startup
  | findself
  | active
  | refresh
  | quiet
  | failed
  deriving DecidableEq, Repr

def maxStartupTime : Int := 10

def maxRefreshTime : Int := 10

def maxFindselfTime : Int := 60

def transitionOpSpaceSize : Nat := 100

def minOpSpaceSize : Nat := 20

def bitdhtMgrQueryFailure : Nat := 1

def bitdhtMgrQueryPeerOffline : Nat := 2

def bitdhtMgrQueryPeerUnreachable : Nat := 3

def bitdhtMgrQueryPeerOnline : Nat := 4

/-- The value of a hex digit in `bdStdNodeId`. -/
def hexDigit (c : UInt8) : UInt32 :=
  if c ≥ chr '0' ∧ c ≤ chr '9' then (c - chr '0').toUInt32
  else if c ≥ chr 'A' ∧ c ≤ chr 'F' then (c - (chr 'A' - 0x0A)).toUInt32
  else if c ≥ chr 'a' ∧ c ≤ chr 'f' then (c - (chr 'a' - 0x0A)).toUInt32
  else 0x0F

/-- The place of a digit in its word, of eight digits each. -/
def digitOffset : List UInt32 := [1, 0, 3, 2, 5, 4, 7, 6]

/-- `a_data[i]` in `bdStdNodeId` -/
def idWord (idStr : List UInt8) (i : Nat) : UInt32 :=
  if i < idStr.length / 8 then
    (List.zip ((idStr.drop (i * 8)).take 8) digitOffset).foldl
      (fun word d => word ||| hexDigit d.1 <<< (d.2 * 4)) 0
  else
    0

/-- `bdStdNodeId` -/
def bdStdNodeId (idStr : List UInt8) : BdNodeId where
  data := (List.range 5).flatMap (fun i => storeU32 (idWord idStr i))
  size := rfl

/-- The second id that is looked for when the node starts. -/
def startupId : BdNodeId := bdStdNodeId (ascii "9329969e1aacf24928389724d4c35177756b0000")

/-! ## The manager -/

/-- `bdQueryPeer` -/
structure BdQueryPeer where
  mStatus : QueryState
  mQFlags : UInt32
  mDhtAddr : SockaddrIn

/-- A call of `dhtPeerCallback`. -/
structure PeerCallback where
  cb : Nat
  peer : BdPeer
  status : Nat
  deriving DecidableEq

/-- `bdNodeManager`, and the calls of `dhtPeerCallback` so far.  A callback is the number that stands
for its pointer. -/
structure BdNodeManager (mFns : BdDhtFunctions) extends BdNodeIter mFns where
  mActivePeers : OrdMap BdNodeId BdQueryPeer
  mCallbacks : List Nat
  mMode : MgrState
  mModeTS : Int
  peerCallbacks : List PeerCallback

namespace BdNodeManager

/-- The constructor of `bdNodeManager`. -/
def new (id : BdNodeId) (dhtVersion : List UInt8) (store whiteNodes : List BdPeer)
    (rand : Nat → UInt32) : BdNodeManager mFns where
  toBdNodeIter := BdNodeIter.new id dhtVersion store whiteNodes rand
  mActivePeers := OrdMap.empty
  mCallbacks := []
  mMode := .off
  mModeTS := 0
  peerCallbacks := []

/-- A call of a function of `bdNode`. -/
def onNode (c : BdNodeManager mFns) (f : BdNode mFns → BdNode mFns) : BdNodeManager mFns :=
  { c with toBdNode := f c.toBdNode }

/-! ## Starting and stopping -/

/-- `stopDht` -/
def stopDht (c : BdNodeManager mFns) (now : Int) : BdNodeManager mFns :=
  -- flag queries as inactive
  { c with
      toBdNodeIter := c.toBdNodeIter.shutdownNode,
      mActivePeers := c.mActivePeers.mapVals (fun peer => { peer with mStatus := .ready }),
      mMode := .off,
      mModeTS := now }

/-- `startDht`, with the peers that the two files hold. -/
def startDht (c : BdNodeManager mFns) (now : Int) (store whiteNodes : List BdPeer) :
    BdNodeManager mFns :=
  { c with
      toBdNodeIter := c.toBdNodeIter.restartNode store whiteNodes,
      mMode := .startup,
      mModeTS := now }

/-! ## The ids to be found -/

/-- `addFindNode`.  The address family of the new entry is not assigned to. -/
def addFindNode (c : BdNodeManager mFns) (id : BdNodeId) (qflags : UInt32) (sinFamily : Nat) :
    BdNodeManager mFns :=
  match c.mActivePeers.find id with
  | some _ => c
  | none =>
      let peer : BdQueryPeer :=
        { mStatus := .ready, mQFlags := qflags,
          mDhtAddr := { sinFamily := sinFamily, sAddr := 0, sinPort := 0 } }
      { c with mActivePeers := c.mActivePeers.assign id peer }.onNode (fun s => s.addConnReq id)

/-- The body of the loop of `startQueries`. -/
def startQuery (now : Int) (c : BdNodeManager mFns) (it : BdNodeId × BdQueryPeer) :
    BdNodeManager mFns :=
  if it.2.mStatus = .ready then
    let qflags := it.2.mQFlags ||| bitdhtQflagsDisguise
    { c with mActivePeers := c.mActivePeers.assign it.1 { it.2 with mStatus := .querying } }.onNode
      (fun s => s.addQuery now it.1 qflags)
  else
    c

/-- `startQueries` -/
def startQueries (c : BdNodeManager mFns) (now : Int) : BdNodeManager mFns :=
  c.mActivePeers.entries.foldl (startQuery now) c

/-- `removeFindNode` -/
def removeFindNode (c : BdNodeManager mFns) (id : BdNodeId) : BdNodeManager mFns :=
  match c.mActivePeers.find id with
  | none => c
  | some _ => { c.onNode (fun s => s.clearQuery id) with mActivePeers := c.mActivePeers.erase id }

/-- `removeAllFindNode` -/
def removeAllFindNode (c : BdNodeManager mFns) : BdNodeManager mFns :=
  let c := c.mActivePeers.entries.foldl (fun c it =>
    if it.1 = c.mOwnId then c else c.onNode (fun s => s.clearQuery it.1)) c
  { c with mActivePeers := OrdMap.empty }

/-! ## Callbacks -/

/-- `addCallback` -/
def addCallback (c : BdNodeManager mFns) (cb : Nat) : BdNodeManager mFns :=
  if cb ∈ c.mCallbacks then c else { c with mCallbacks := c.mCallbacks ++ [cb] }

/-- `removeCallback` -/
def removeCallback (c : BdNodeManager mFns) (cb : Nat) : BdNodeManager mFns :=
  { c with mCallbacks := c.mCallbacks.erase cb }

/-- `doPeerCallback` -/
def doPeerCallback (c : BdNodeManager mFns) (peer : BdPeer) (status : Nat) : BdNodeManager mFns :=
  { c with peerCallbacks := c.peerCallbacks ++
      c.mCallbacks.map (fun cb => { cb := cb, peer := peer, status := status }) }

/-! ## The status of the queries -/

/-- The variables that the first switch of `checkStatus` sets. -/
structure CheckFlags where
  doRemove : Bool
  doCallback : Bool
  doSaveAddress : Bool
  callbackStatus : Nat

/-- The first switch of `checkStatus`. -/
def checkFlags : QueryState → CheckFlags
  | .failure => ⟨true, true, false, bitdhtMgrQueryFailure⟩
  | .foundClosest => ⟨true, true, false, bitdhtMgrQueryPeerOffline⟩
  | .peerUnreachable => ⟨true, true, false, bitdhtMgrQueryPeerUnreachable⟩
  | .success => ⟨true, true, true, bitdhtMgrQueryPeerOnline⟩
  | .ready => ⟨false, false, false, 0⟩
  | .querying => ⟨false, false, false, 0⟩

/-- The entry of an active peer after its query was found in the state `status`. -/
def updatePeer (peer : BdQueryPeer) (status : BdQueryStatus) : BdQueryPeer :=
  let mDhtAddr :=
    if (checkFlags status.mStatus).doSaveAddress then
      match status.mResults with
      | front :: _ => front.addr
      | [] => { peer.mDhtAddr with sAddr := 0, sinPort := 0 }
    else
      peer.mDhtAddr
  { peer with mStatus := status.mStatus, mDhtAddr := mDhtAddr }

/-- `doCallback` as the body of the loop of `checkStatus` leaves it: an active peer whose status is
unchanged always has the callback. -/
def doCallback (peer : Option BdQueryPeer) (status : BdQueryStatus) : Bool :=
  match peer with
  | none => false
  | some peer => peer.mStatus = status.mStatus || (checkFlags status.mStatus).doCallback

/-- The callbacks at the end of the body, for the peers that `getIdFromQuery` finds. -/
def notifyPeers (c : BdNodeManager mFns) (id : BdNodeId) (callbackStatus : Nat) :
    BdNodeManager mFns :=
  match c.getIdFromQuery id with
  | none => c
  | some list => list.foldl (fun c it => c.doPeerCallback it callbackStatus) c

/-- The body of the loop of `checkStatus`. -/
def checkQuery (c : BdNodeManager mFns) (it : BdNodeId × BdQueryStatus) : BdNodeManager mFns :=
  let flags := checkFlags it.2.mStatus
  -- remove done queries
  let c := if flags.doRemove && !doIdle it.2.mQFlags then c.onNode (fun s => s.clearQuery it.1) else c
  let pit := c.mActivePeers.find it.1
  let c :=
    match pit with
    | none => c
    | some peer => { c with mActivePeers := c.mActivePeers.assign it.1 (updatePeer peer it.2) }
  if doCallback pit it.2 then c.notifyPeers it.1 flags.callbackStatus else c

/-- `checkStatus` -/
def checkStatus (c : BdNodeManager mFns) : BdNodeManager mFns :=
  c.queryStatus.entries.foldl checkQuery c

/-! ## The mode -/

/-- The switch of `iteration`, with the peers that the two files hold. -/
def changeMode (c : BdNodeManager mFns) (now : Int) (store whiteNodes : List BdPeer) :
    BdNodeManager mFns :=
  let modeAge := now - c.mModeTS
  match c.mMode with
  | .off => c
  | .startup =>
      -- 10 seconds startup .... then switch to ACTIVE
      if modeAge > maxStartupTime then
        let c := c.onNode (fun s => s.addQuery now c.mOwnId
          (bitdhtQflagsDoIdle ||| bitdhtQflagsDisguise))
        let c := c.onNode (fun s => s.addQuery now startupId
          (bitdhtQflagsDoIdle ||| bitdhtQflagsDisguise))
        { c with mMode := .findself, mModeTS := now }
      else
        c
  | .findself =>
      let nodeSpaceSize := c.mNodeSpace.calcSpaceSize
      let c :=
        if nodeSpaceSize > transitionOpSpaceSize then { c with mMode := .refresh, mModeTS := now }
        else c
      if modeAge > maxFindselfTime then
        if nodeSpaceSize > minOpSpaceSize then { c with mMode := .refresh, mModeTS := now }
        else { c with mMode := .failed, mModeTS := now }
      else
        c
  | .active =>
      if modeAge > maxRefreshTime then { c with mMode := .refresh, mModeTS := now } else c
  | .refresh =>
      ({ c with mMode := .active, mModeTS := now }.startQueries now).checkStatus
  | .quiet => c
  | .failed => (c.stopDht now).startDht now store whiteNodes

/-- `iteration` -/
def iteration (c : BdNodeManager mFns) (now : Int) (store whiteNodes : List BdPeer)
    (env : IterEnv) : Exec (BdNodeManager mFns) := do
  let c := c.changeMode now store whiteNodes
  if c.mMode = .off then
    pure { c with toBdNodeIter := c.toBdNodeIter.iterationOff }
  else do
    let node ← c.toBdNodeIter.iteration now env
    pure { c with toBdNodeIter := node }

/-- `iteration` -/
def iterationOn (word : Nat → UInt32) (c : BdNodeManager mFns) (now : Int)
    (store whiteNodes : List BdPeer) (env : IterEnv) : Exec (BdNodeManager mFns) := do
  let c := c.changeMode now store whiteNodes
  if c.mMode = .off then
    pure { c with toBdNodeIter := c.toBdNodeIter.iterationOff }
  else do
    let node ← c.toBdNodeIter.iterationOn word now env
    pure { c with toBdNodeIter := node }

theorem iterationOn_eq_of_ok (word : Nat → UInt32) {c c' : BdNodeManager mFns} {now : Int}
    {store whiteNodes : List BdPeer} {env : IterEnv}
    (h : c.iteration now store whiteNodes env = .ok c') :
    c.iterationOn word now store whiteNodes env = .ok c' := by
  simp only [iteration] at h
  simp only [iterationOn]
  split_ifs at h ⊢
  · exact h
  · rcases bind_eq_ok.1 h with ⟨node, hnode, hrest⟩
    rw [BdNodeIter.iterationOn_eq_of_ok word hnode]
    exact hrest

/-- `getDhtPeerAddress`: the address, if it returns 1. -/
def getDhtPeerAddress (c : BdNodeManager mFns) (id : BdNodeId) : Option SockaddrIn :=
  match c.mActivePeers.find id with
  | none => none
  | some peer => if peer.mStatus = .success then some peer.mDhtAddr else none

end BdNodeManager

/-! ## Runs -/

/-- The calls from outside, with what they read there. -/
inductive ManagerOp
  | startDht (store whiteNodes : List BdPeer)
  | stopDht
  | addFindNode (id : BdNodeId) (qflags : UInt32) (sinFamily : Nat)
  | removeFindNode (id : BdNodeId)
  | removeAllFindNode
  | addCallback (cb : Nat)
  | removeCallback (cb : Nat)
  | incomingMsg (addr : SockaddrIn) (msg : List UInt8)
  | outgoingMsg
  | iteration (store whiteNodes : List BdPeer) (env : IterEnv)

/-- One call at the time that `time(NULL)` returns in it. -/
def managerStep (c : BdNodeManager mFns) : Int × ManagerOp → Exec (BdNodeManager mFns)
  | (now, .startDht store whiteNodes) => pure (c.startDht now store whiteNodes)
  | (now, .stopDht) => pure (c.stopDht now)
  | (_, .addFindNode id qflags sinFamily) => pure (c.addFindNode id qflags sinFamily)
  | (_, .removeFindNode id) => pure (c.removeFindNode id)
  | (_, .removeAllFindNode) => pure c.removeAllFindNode
  | (_, .addCallback cb) => pure (c.addCallback cb)
  | (_, .removeCallback cb) => pure (c.removeCallback cb)
  | (_, .incomingMsg addr msg) =>
      pure { c with toBdNodeIter := c.toBdNodeIter.incomingMsg addr msg }
  | (_, .outgoingMsg) => pure { c with toBdNodeIter := c.toBdNodeIter.outgoingMsg }
  | (now, .iteration store whiteNodes env) => c.iteration now store whiteNodes env

/-- One call, with the words that an iteration finds. -/
def managerStepOn (c : BdNodeManager mFns) :
    (Nat → UInt32) × Int × ManagerOp → Exec (BdNodeManager mFns)
  | (word, now, .iteration store whiteNodes env) => c.iterationOn word now store whiteNodes env
  | (_, op) => managerStep c op

end BitDht
