import BitDht.Node.State

/-!
# Handlers — the `msgin_` functions of `bdnode.cc`

What a node does with a message once it is parsed.  `MsgIn` has one constructor for each of the
functions, with its arguments.
-/

namespace BitDht

open Container Outcome

variable {mFns : BdDhtFunctions}

/-! ## Peer flags of a version -/

def bitdhtPeerStatusDhtEngine : UInt32 := 0x00000100

def bitdhtPeerStatusDhtAppl : UInt32 := 0x00000200

def bitdhtPeerStatusDhtVersion : UInt32 := 0x00000400

/-- A byte of the packet, which is unsigned, against a `char`, which is signed. -/
def sameChar (u c : UInt8) : Bool :=
  (u.toNat : Int) == if c.toNat < 128 then (c.toNat : Int) else (c.toNat : Int) - 256

/-- The check of two bytes from `i` on. -/
def versionMatches (versionId : BdToken) (dhtVersion : List UInt8) (i : Nat) : Bool :=
  decide (versionId.len ≥ i + 2) && decide (dhtVersion.length ≥ i + 2) &&
    sameChar (versionId.data.getD i 0) (dhtVersion.getD i 0) &&
    sameChar (versionId.data.getD (i + 1) 0) (dhtVersion.getD (i + 1) 0)

/-- The flags that `msgin_pong` gives a peer. -/
def pongFlags (versionId : Option BdToken) (dhtVersion : List UInt8) : UInt32 :=
  let check := fun i => versionId.any (fun v => versionMatches v dhtVersion i)
  let sameDhtEngine := check 0
  let sameAppl := check 2
  let sameVersion := check 4
  let peerflags := bitdhtPeerStatusRecvPong
  let peerflags := if sameDhtEngine then peerflags ||| bitdhtPeerStatusDhtEngine else peerflags
  let peerflags := if sameAppl then peerflags ||| bitdhtPeerStatusDhtAppl else peerflags
  if sameVersion then peerflags ||| bitdhtPeerStatusDhtVersion else peerflags

namespace BdNode

/-! ## The handlers -/

/-- `mPacketCallback->onRecvCallback(id, type)` -/
def onRecvCallback (s : BdNode mFns) (id : BdId) (type : MsgType) : BdNode mFns :=
  { s with recvCallbacks := s.recvCallbacks ++ [(id, type)] }

/-- `msgin_ping` -/
def msginPing (s : BdNode mFns) (now : Int) (id : BdId) (transId : BdToken) :
    Exec (BdNode mFns) := do
  -- peer is alive
  let s := s.addPeer now id 0
  let s ← s.msgoutPong id transId
  pure (s.onRecvCallback id .ping)

/-- `msgin_pong` -/
def msginPong (s : BdNode mFns) (now : Int) (id : BdId) (_transId : BdToken)
    (versionId : Option BdToken) : BdNode mFns :=
  (s.addPeer now id (pongFlags versionId s.mDhtVersion)).onRecvCallback id .pong

/-- `msgin_find_node` -/
def msginFindNode (s : BdNode mFns) (now : Int) (id : BdId) (transId : BdToken)
    (query : BdNodeId) : BdNode mFns :=
  let s := s.queueQuery now id query transId bdQueryNeighbours
  (s.addPeer now id 0).onRecvCallback id .findNode

/-- `msgin_reply_find_node` -/
def msginReplyFindNode (s : BdNode mFns) (now : Int) (id : BdId) (_transId : BdToken)
    (nodes : List BdId) : BdNode mFns :=
  -- add neighbours to the potential list
  let s := nodes.foldl (fun s it => s.checkPotentialPeer now it) s
  -- received reply - so peer must be good
  (s.addPeer now id bitdhtPeerStatusRecvNodes).onRecvCallback id .replyNode

/-- `msgin_get_hash` -/
def msginGetHash (s : BdNode mFns) (now : Int) (id : BdId) (transId : BdToken)
    (infoHash : BdNodeId) : BdNode mFns :=
  s.queueQuery now id infoHash transId bdQueryHash

/-- `msgin_reply_hash` -/
def msginReplyHash (s : BdNode mFns) (_id : BdId) (_transId _token : BdToken)
    (_values : List (List UInt8)) : BdNode mFns := s

/-- `msgin_reply_nearest` -/
def msginReplyNearest (s : BdNode mFns) (_id : BdId) (_transId _token : BdToken)
    (_nodes : List BdId) : BdNode mFns := s

/-- `msgin_post_hash` -/
def msginPostHash (s : BdNode mFns) (_id : BdId) (_transId : BdToken) (_infoHash : BdNodeId)
    (_port : UInt32) (_token : BdToken) : BdNode mFns := s

/-- `msgin_reply_post` -/
def msginReplyPost (s : BdNode mFns) (_id : BdId) (_transId : BdToken) : BdNode mFns := s

/-- `msgin_ask_myip` -/
def msginAskMyip (s : BdNode mFns) (tunnelId : BdId) (transId : BdToken) :
    Exec (BdNode mFns) := do
  let s ← s.msgoutReplyAskMyip tunnelId transId
  pure (s.onRecvCallback tunnelId .newconn)

/-- The comparison of addresses in the lists of own addresses and of peers to punch. -/
def sameSockaddr (a b : SockaddrIn) : Bool :=
  a.sinFamily == b.sinFamily && a.sAddr == b.sAddr && a.sinPort == b.sinPort

/-- `msgin_reply_ask_myip` -/
def msginReplyAskMyip (s : BdNode mFns) (tunnelId : BdId) (_transId : BdToken) : BdNode mFns :=
  let s := s.onRecvCallback tunnelId .replyNewconn
  if s.mOwnId = tunnelId.id then
    if s.mMyIPs.any (fun it => sameSockaddr it tunnelId.addr) then s
    else { s with mMyIPs := s.mMyIPs ++ [tunnelId.addr] }
  else
    s

/-- Both branches of `msgin_broadcast_conn`: the sender is the party `self` of the pair and the
other one is `other`; the two messages name `nid₁` and `nid₂`. -/
def matchConn (s : BdNode mFns) (id : BdId) (self other nid₁ nid₂ : BdNodeId) :
    Exec (BdNode mFns) := do
  let s := { s with mConnectRequests := s.mConnectRequests.assign self other,
                    mPeerAddrs := s.mPeerAddrs.assign id.id id.addr }
  match s.mPeerAddrs.find other with
  -- the other party has not asked for the connection yet
  | none => pure s
  | some addr => do
      -- pair match!
      let peer : BdId := { addr := addr, id := other }
      let (transId, s) := s.genNewTransId
      let s ← s.msgoutAskConn peer transId nid₁ id
      let (transId, s) := s.genNewTransId
      s.msgoutAskConn id transId nid₂ peer

/-- Both branches note the request and the address, and may send two messages, each with a new
transaction id. -/
theorem matchConn_rel {R : BdNode mFns → BdNode mFns → Prop}
    (htrans : ∀ {s s' s''}, R s s' → R s' s'' → R s s'')
    (hnote : ∀ (s : BdNode mFns) mConnectRequests mPeerAddrs,
      R s { s with mConnectRequests := mConnectRequests, mPeerAddrs := mPeerAddrs })
    (hask : ∀ {s s' : BdNode mFns} {id nodeId peerId},
      s.genNewTransId.2.msgoutAskConn id s.genNewTransId.1 nodeId peerId = .ok s' → R s s')
    {s s' : BdNode mFns} {id : BdId} {self other nid₁ nid₂ : BdNodeId}
    (h : s.matchConn id self other nid₁ nid₂ = .ok s') : R s s' := by
  simp only [matchConn] at h
  split at h
  · cases h
    exact hnote s _ _
  · -- both parties of the pair are sent the address of the other one
    rcases bind_eq_ok.1 h with ⟨s₁, hs₁, hrest⟩
    exact htrans (htrans (hnote s _ _) (hask hs₁)) (hask hrest)

/-- `msgin_broadcast_conn` -/
def msginBroadcastConn (s : BdNode mFns) (id : BdId) (_tid : BdToken) (nodeId peerId : BdNodeId) :
    Exec (BdNode mFns) :=
  if id.id = nodeId then
    s.matchConn id nodeId peerId peerId peerId
  else if id.id = peerId then
    s.matchConn id peerId nodeId nodeId peerId
  else
    pure s

/-- `msgin_ask_conn` -/
def msginAskConn (s : BdNode mFns) (_id : BdId) (_tid : BdToken) (nodeId : BdNodeId)
    (peerId : BdId) : BdNode mFns :=
  if s.mOwnId = nodeId then
    if s.mPunching.any (fun it => it.id = peerId.id && sameSockaddr it.addr peerId.addr) then s
    else { s with mPunching := s.mPunching ++ [peerId] }
  else
    s

end BdNode

/-! ## Calls of the handlers -/

/-- The sender of a packet; `id` is none where the packet had none to assign. -/
structure SrcId where
  addr : SockaddrIn
  id : Option BdNodeId
  deriving DecidableEq

/-- A call of a `msgin_` function by `recvPkt`.  An argument that is a local variable which nothing
was assigned to is `none`. -/
inductive MsgIn
  | ping (id : SrcId) (transId : BdToken)
  | pong (id : SrcId) (transId : BdToken) (versionId : Option BdToken)
  | findNode (id : SrcId) (transId : BdToken) (query : Option BdNodeId)
  | replyFindNode (id : SrcId) (transId : BdToken) (nodes : List BdId)
  | getHash (id : SrcId) (transId : BdToken) (infoHash : Option BdNodeId)
  | replyHash (id : SrcId) (transId token : BdToken) (values : List (List UInt8))
  | replyNearest (id : SrcId) (transId token : BdToken) (nodes : List BdId)
  | postHash (id : SrcId) (transId : BdToken) (infoHash : Option BdNodeId) (port : Option UInt32)
      (token : BdToken)
  | replyPost (id : SrcId) (transId : BdToken)
  | askMyip (tunnelId : SrcId) (transId : BdToken)
  | replyAskMyip (tunnelId : BdId) (transId : BdToken)
  | broadcastConn (id : SrcId) (tid : BdToken) (nodeId peerId : BdNodeId)
  | askConn (id : SrcId) (tid : BdToken) (nodeId : BdNodeId) (peerId : BdId)
  deriving DecidableEq

/-- The tokens that a handler is called with. -/
def MsgIn.tokens : MsgIn → List BdToken
  | .ping _ transId => [transId]
  | .pong _ transId versionId => transId :: versionId.toList
  | .findNode _ transId _ => [transId]
  | .replyFindNode _ transId _ => [transId]
  | .getHash _ transId _ => [transId]
  | .replyHash _ transId token _ => [transId, token]
  | .replyNearest _ transId token _ => [transId, token]
  | .postHash _ transId _ _ token => [transId, token]
  | .replyPost _ transId => [transId]
  | .askMyip _ transId => [transId]
  | .replyAskMyip _ transId => [transId]
  | .broadcastConn _ tid _ _ => [tid]
  | .askConn _ tid _ _ => [tid]

/-- What lies in the local variables of `recvPkt` as long as nothing is assigned to them. -/
structure Junk where
  id : BdNodeId
  targetInfoHash : BdNodeId
  port : UInt32

def SrcId.bdId (junk : Junk) (id : SrcId) : BdId where
  addr := id.addr
  id := id.id.getD junk.id

/-- The call itself. -/
def BdNode.msgin (s : BdNode mFns) (now : Int) (junk : Junk) : MsgIn → Exec (BdNode mFns)
  | .ping id transId => s.msginPing now (id.bdId junk) transId
  | .pong id transId versionId => pure (s.msginPong now (id.bdId junk) transId versionId)
  | .findNode id transId query =>
      pure (s.msginFindNode now (id.bdId junk) transId (query.getD junk.targetInfoHash))
  | .replyFindNode id transId nodes =>
      pure (s.msginReplyFindNode now (id.bdId junk) transId nodes)
  | .getHash id transId infoHash =>
      pure (s.msginGetHash now (id.bdId junk) transId (infoHash.getD junk.targetInfoHash))
  | .replyHash id transId token values =>
      pure (s.msginReplyHash (id.bdId junk) transId token values)
  | .replyNearest id transId token nodes =>
      pure (s.msginReplyNearest (id.bdId junk) transId token nodes)
  | .postHash id transId infoHash port token =>
      pure (s.msginPostHash (id.bdId junk) transId (infoHash.getD junk.targetInfoHash)
        (port.getD junk.port) token)
  | .replyPost id transId => pure (s.msginReplyPost (id.bdId junk) transId)
  | .askMyip tunnelId transId => s.msginAskMyip (tunnelId.bdId junk) transId
  | .replyAskMyip tunnelId transId => pure (s.msginReplyAskMyip tunnelId transId)
  | .broadcastConn id tid nodeId peerId => s.msginBroadcastConn (id.bdId junk) tid nodeId peerId
  | .askConn id tid nodeId peerId => pure (s.msginAskConn (id.bdId junk) tid nodeId peerId)

end BitDht
