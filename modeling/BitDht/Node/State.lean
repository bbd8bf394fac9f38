import BitDht.Msgs.Cipher
import BitDht.Msgs.Parse
import BitDht.Msgs.Build
import BitDht.Peer.Query
import BitDht.Peer.Store

/-!
# State — a `bdNode` and what it sends

The members of `bdNode` that its message handling reads or writes, and the `msgout_` functions, which
queue messages for the socket.  The statistics counters and the log are left out.
-/

namespace BitDht

open Container Decimal Outcome

/-! ## The node -/

/-- `bdNodeNetMsg` -/
structure BdNodeNetMsg where
  data : List UInt8
  addr : SockaddrIn
  deriving DecidableEq, Repr

/-- `bdNode`, and the parts of its process that it works on: the counter of transaction ids, what
`rand()` will return from call to call, and the calls of `PacketCallback` so far. -/
structure BdNode (mFns : BdDhtFunctions) where
  mOwnId : BdNodeId
  mMyIPs : List SockaddrIn
  mNodeSpace : BdSpace mFns
  mStore : List BdPeer
  mBlackNodes : List SockaddrIn
  mDhtVersion : List UInt8
  mLocalQueries : List BdQuery
  mRemoteQueries : List BdRemoteQuery
  mPotentialPeers : List BdId
  mConnectRequests : OrdMap BdNodeId BdNodeId
  mPeerAddrs : OrdMap BdNodeId SockaddrIn
  mPunching : List BdId
  mOutgoingMsgs : List BdNodeNetMsg
  mRandomTokenArray : List UInt32
  transIdCounter : UInt64
  rand : Nat → UInt32
  recvCallbacks : List (BdId × MsgType)

variable {mFns : BdDhtFunctions}

namespace BdNode

/-- The constructor of `bdNode`, with the peers that the boot file holds. -/
def new (ownId : BdNodeId) (dhtVersion : List UInt8) (store : List BdPeer)
    (rand : Nat → UInt32) : BdNode mFns where
  mOwnId := ownId
  mMyIPs := []
  mNodeSpace := BdSpace.new ownId
  mStore := store
  mBlackNodes := []
  mDhtVersion := dhtVersion
  mLocalQueries := []
  mRemoteQueries := []
  mPotentialPeers := []
  mConnectRequests := OrdMap.empty
  mPeerAddrs := OrdMap.empty
  mPunching := []
  mOutgoingMsgs := []
  mRandomTokenArray := []
  transIdCounter := 0
  rand := rand
  recvCallbacks := []

/-! ## Addresses that are not listened to -/

/-- The comparison of addresses in the functions on `mBlackNodes`. -/
def sameAddr (it blackAddr : SockaddrIn) : Bool :=
  it.sAddr == blackAddr.sAddr && it.sinPort == blackAddr.sinPort

/-- `isMemberOfBlackList` -/
def isMemberOfBlackList (s : BdNode mFns) (blackAddr : SockaddrIn) : Bool :=
  s.mBlackNodes.any (fun it => sameAddr it blackAddr)

/-- `addBlackList` -/
def addBlackList (s : BdNode mFns) (blackAddr : SockaddrIn) : BdNode mFns :=
  if s.mBlackNodes.any (fun it => sameAddr it blackAddr) then s
  else { s with mBlackNodes := s.mBlackNodes ++ [blackAddr] }

/-! ## Tokens -/

/-- `getRandomToken` -/
def getRandomToken (s : BdNode mFns) : UInt32 × BdNode mFns :=
  let num := s.rand 0
  let tokens := s.mRandomTokenArray ++ [num]
  let tokens := if tokens.length > 1000 then tokens.drop 1 else tokens
  (num, { s with mRandomTokenArray := tokens, rand := fun i => s.rand (i + 1) })

/-- `isUsedToken` -/
def isUsedToken (s : BdNode mFns) (token : UInt32) : Bool :=
  s.mRandomTokenArray.any (fun it => it == token)

/-- `out << std::setw(w) << std::setfill('0') << n` -/
def setw (w n : Nat) : List UInt8 :=
  List.replicate (w - (ofNat n).length) (chr '0') ++ ofNat n

/-- `genNewTransId` -/
def genNewTransId (s : BdNode mFns) : BdToken × BdNode mFns :=
  let num := setw 2 s.transIdCounter.toNat
  ({ data := num.take bitdhtTokenMaxLen }, { s with transIdCounter := s.transIdCounter + 1 })

/-! ## Sending -/

/-- `sendPkt` -/
def sendPkt (s : BdNode mFns) (msg : List UInt8) (len : Nat) (addr : SockaddrIn) :
    Exec (BdNode mFns) := do
  let data ← readBytes len msg
  pure { s with mOutgoingMsgs := s.mOutgoingMsgs ++ [{ data := data, addr := addr }] }

/-- `char msg[10240]`.  The builders write before they read, so its first contents do not matter. -/
def msgBuffer : List UInt8 := List.replicate 10240 0

/-- What the `msgout_` functions share: a builder fills the buffer, and the message is queued. -/
def msgout (s : BdNode mFns) (build : List UInt8 → Int → Exec (List UInt8 × Nat))
    (addr : SockaddrIn) : Exec (BdNode mFns) := do
  let (msg, blen) ← build msgBuffer (10240 - 1)
  s.sendPkt msg blen addr

/-- What the two of them share that put a trailer behind the message. -/
def msgoutEcrypted (s : BdNode mFns) (build : List UInt8 → Int → Exec (List UInt8 × Nat))
    (addr : SockaddrIn) : Exec (BdNode mFns) := do
  let (msg, blen) ← build msgBuffer (10240 - 1)
  let (token, s) := s.getRandomToken
  let (msg, blen) ← bitdhtEcrypt msg blen (10240 - 1) token
  s.sendPkt msg blen addr

/-- `msgout_ping` -/
def msgoutPing (s : BdNode mFns) (id : BdId) (transId : BdToken) : Exec (BdNode mFns) :=
  s.msgout (bitdhtCreatePingMsg transId s.mOwnId) id.addr

/-- The version that `msgout_pong` sends. -/
def versionToken (s : BdNode mFns) : BdToken where
  data := s.mDhtVersion.take bitdhtTokenMaxLen

/-- `msgout_pong` -/
def msgoutPong (s : BdNode mFns) (id : BdId) (transId : BdToken) : Exec (BdNode mFns) :=
  s.msgout (bitdhtResponsePingMsg transId s.mOwnId s.versionToken) id.addr

/-- `msgout_reply_find_node` -/
def msgoutReplyFindNode (s : BdNode mFns) (id : BdId) (transId : BdToken) (peers : List BdId) :
    Exec (BdNode mFns) :=
  s.msgout (bitdhtRespNodeMsg transId s.mOwnId peers) id.addr

/-- `msgout_reply_ask_myip` -/
def msgoutReplyAskMyip (s : BdNode mFns) (tunnelId : BdId) (transId : BdToken) :
    Exec (BdNode mFns) :=
  s.msgoutEcrypted (fun msg avail => bitdhtReplyMyipMsg transId s.mOwnId tunnelId msg true avail)
    tunnelId.addr

/-- `msgout_ask_conn` -/
def msgoutAskConn (s : BdNode mFns) (id : BdId) (tid : BdToken) (nodeId : BdNodeId)
    (peerId : BdId) : Exec (BdNode mFns) :=
  s.msgout (bitdhtAskConnMsg tid s.mOwnId nodeId peerId) id.addr

/-! ## Queries -/

/-- `queueQuery` -/
def queueQuery (s : BdNode mFns) (now : Int) (id : BdId) (query : BdNodeId) (transId : BdToken)
    (queryType : UInt32) : BdNode mFns :=
  let remote : BdRemoteQuery :=
    { mId := id, mQuery := query, mTransId := transId, mQueryType := queryType, mQueryTS := now }
  { s with mRemoteQueries := s.mRemoteQueries ++ [remote] }

def bitdhtQueryStartPeers : Int := 10

def bitdhtQueryNeighbourPeers : Int := 8

def bitdhtMaxRemoteQueryAge : Int := 10

/-- The loop of `processRemoteQuery` over what is left of the queue. -/
def processQueue (s : BdNode mFns) (now : Int) : List BdRemoteQuery → Exec (BdNode mFns)
  | [] => pure { s with mRemoteQueries := [] }
  | query :: queue =>
      -- discard older ones (stops queue getting overloaded)
      if query.mQueryTS > now - bitdhtMaxRemoteQueryAge then
        if query.mQueryType = bdQueryNeighbours then do
          let nearest := s.mNodeSpace.findNearestNodes query.mQuery bitdhtQueryNeighbourPeers
            Multimap.empty
          let s ← s.msgoutReplyFindNode query.mId query.mTransId (nearest.entries.map Prod.snd)
          pure { s with mRemoteQueries := queue }
        -- a hash query is taken off the queue and not answered
        else if query.mQueryType = bdQueryHash then
          pure { s with mRemoteQueries := queue }
        else
          s.processQueue now queue
      else
        s.processQueue now queue

/-- `processRemoteQuery` -/
def processRemoteQuery (s : BdNode mFns) (now : Int) : Exec (BdNode mFns) :=
  s.processQueue now s.mRemoteQueries

/-- The loop sends a reply or none, and then shortens the queue. -/
theorem processQueue_rel {R : BdNode mFns → BdNode mFns → Prop} {s s' : BdNode mFns} {now : Int}
    {queue : List BdRemoteQuery} (hdrop : ∀ queue, R s { s with mRemoteQueries := queue })
    (hreply : ∀ {id transId peers queue s₁}, s.msgoutReplyFindNode id transId peers = .ok s₁ →
      R s { s₁ with mRemoteQueries := queue })
    (h : s.processQueue now queue = .ok s') : R s s' := by
  induction queue with
  | nil =>
      cases h
      exact hdrop []
  | cons query queue ih =>
      simp only [processQueue] at h
      split_ifs at h
      · rcases bind_eq_ok.1 h with ⟨s₁, hs₁, hrest⟩
        cases hrest
        exact hreply hs₁
      · cases h
        exact hdrop queue
      · exact ih h
      · exact ih h

/-- `addQuery` -/
def addQuery (s : BdNode mFns) (now : Int) (id : BdNodeId) (qflags : UInt32) : BdNode mFns :=
  let nearest := s.mNodeSpace.findNearestNodes id bitdhtQueryStartPeers Multimap.empty
  let startList := nearest.entries.map Prod.snd
  { s with mLocalQueries := s.mLocalQueries ++ [BdQuery.new mFns now id startList qflags] }

/-- `clearQuery` -/
def clearQuery (s : BdNode mFns) (rmId : BdNodeId) : BdNode mFns :=
  { s with mLocalQueries := s.mLocalQueries.filter (fun it => it.mId ≠ rmId) }

/-- `addPeer` -/
def addPeer (s : BdNode mFns) (now : Int) (id : BdId) (peerflags : UInt32) : BdNode mFns :=
  let peer : BdPeer :=
    { mPeerId := id, mPeerFlags := peerflags, mLastSendTime := 0, mLastRecvTime := now,
      mFoundTime := 0 }
  { s with
      mLocalQueries := s.mLocalQueries.map (fun it => (it.addPeer mFns now id peerflags).1),
      mNodeSpace := (s.mNodeSpace.addPeer now id peerflags).1,
      mStore := addStore s.mStore peer }

/-- `checkPotentialPeer` -/
def checkPotentialPeer (s : BdNode mFns) (now : Int) (id : BdId) : BdNode mFns :=
  let asked := s.mLocalQueries.map (fun it => it.addPotentialPeer mFns now id 0)
  let isWorthyPeer := asked.any (fun r => r.2 ≠ 0)
  { s with
      mLocalQueries := asked.map Prod.fst,
      mPotentialPeers := if isWorthyPeer then s.mPotentialPeers ++ [id] else s.mPotentialPeers }

end BdNode

end BitDht
