import BitDht.Node.RecvPkt
import BitDht.Node.Sending

/-!
# Node — `bdTunnelNode`

The node that opens connections.  It keeps a list of requests and in each iteration sends a NEWCONN
to every one of them; of what comes in it only answers a NEWCONN.  Its packets carry no trailer.
-/

namespace BitDht

open Container Outcome

/-! ## The node -/

/-- `bdTunnelNode`, the counter of transaction ids of its process, and the ids that `msgout_newconn`
was called with so far.  A `bdTunnelReq` is the id in it. -/
structure BdTunnelNode where
  mOwnId : BdNodeId
  mTunnelRequests : List BdId
  mOutgoingMsgs : List BdNodeNetMsg
  mIncomingMsgs : List BdNodeNetMsg
  transIdCounter : UInt64
  newconns : List BdId

/-- What an iteration finds: in the local variables of its calls of `recvPkt`, and in the counter
that the other node of the process draws from as well. -/
structure TunnelEnv where
  junk : Nat → Junk
  transIdCounter : UInt64

namespace BdTunnelNode

/-- The constructor of `bdTunnelNode`. -/
def new (ownId : BdNodeId) : BdTunnelNode where
  mOwnId := ownId
  mTunnelRequests := []
  mOutgoingMsgs := []
  mIncomingMsgs := []
  transIdCounter := 0
  newconns := []

/-- `shutdownNode` -/
def shutdownNode (s : BdTunnelNode) : BdTunnelNode :=
  { s with mOutgoingMsgs := [] }

/-- `iterationOff` -/
def iterationOff (s : BdTunnelNode) : BdTunnelNode :=
  { s with mIncomingMsgs := [] }

/-! ## Sending -/

/-- `genNewTransId` -/
def genNewTransId (s : BdTunnelNode) : BdToken × BdTunnelNode :=
  let num := BdNode.setw 2 s.transIdCounter.toNat
  ({ data := num.take bitdhtTokenMaxLen }, { s with transIdCounter := s.transIdCounter + 1 })

/-- `sendPkt` -/
def sendPkt (s : BdTunnelNode) (msg : List UInt8) (len : Nat) (addr : SockaddrIn) :
    Exec BdTunnelNode := do
  let data ← readBytes len msg
  pure { s with mOutgoingMsgs := s.mOutgoingMsgs ++ [{ data := data, addr := addr }] }

/-- What the two `msgout_` functions share. -/
def msgout (s : BdTunnelNode) (build : List UInt8 → Int → Exec (List UInt8 × Nat))
    (addr : SockaddrIn) : Exec BdTunnelNode := do
  let (msg, blen) ← build BdNode.msgBuffer (10240 - 1)
  s.sendPkt msg blen addr

/-- `msgout_newconn` -/
def msgoutNewconn (s : BdTunnelNode) (dhtId : BdId) (transId : BdToken) : Exec BdTunnelNode :=
  { s with newconns := s.newconns ++ [dhtId] }.msgout (bitdhtAskMyipMsg transId s.mOwnId) dhtId.addr

/-- `msgout_reply_newconn` -/
def msgoutReplyNewconn (s : BdTunnelNode) (tunnelId : BdId) (transId : BdToken) :
    Exec BdTunnelNode :=
  s.msgout (fun msg avail => bitdhtReplyMyipMsg transId s.mOwnId tunnelId msg true avail)
    tunnelId.addr

/-! ## Receiving -/

/-- The block of `recvPkt` for a REPLY_NEWCONN. -/
def replyNewconnBlock (beType : MsgType) (beData : BeNode) : Recv Unit :=
  if beType = .replyNewconn then do
    let _ ← Recv.need (beMsgGetDictNode beData (ascii "newconn"))
    let bePid ← Recv.need (beMsgGetDictNode beData (ascii "pid"))
    let peerId ← Recv.call (beMsgGetBdId bePid)
    let _ ← Recv.need peerId
    pure ()
  else
    pure ()

/-- `recvPkt` down to where a message has its type, its sender and its transaction id. -/
def parsePkt (msg : List UInt8) (len : Nat) (addr : SockaddrIn) :
    Recv (MsgType × SrcId × BdToken) := do
  -- convert to a be_node
  let node ← Recv.call (beDecoden msg len)
  let node ← Recv.need node
  -- find message type
  let beType ← Recv.call (beMsgType node)
  let y ← Recv.call (beMsgGetY node)
  if beType = .unknown then
    failure
  else do
    -- the blocks are those of `bdNode::recvPkt`
    let (beData, f) ← parseFields node beType (y = .q)
    replyNewconnBlock beType beData
    pure (beType, { addr := addr, id := f.id }, f.transId)

/-- `recvPkt` -/
def recvPkt (s : BdTunnelNode) (junk : Junk) (msg : List UInt8) (len : Nat) (addr : SockaddrIn) :
    Exec BdTunnelNode := do
  let pkt ← (parsePkt msg len addr).run
  match pkt with
  | some (.newconn, srcId, transId) => s.msgoutReplyNewconn (srcId.bdId junk) transId
  | _ => pure s

/-! ## The requests -/

/-- `addTunnel` -/
def addTunnel (s : BdTunnelNode) (id : BdId) : BdTunnelNode :=
  if s.mTunnelRequests.any (fun it => bdIdEq it id) then s
  else { s with mTunnelRequests := s.mTunnelRequests ++ [id] }

/-- `clearTunnel` -/
def clearTunnel (s : BdTunnelNode) (rmId : BdId) : BdTunnelNode :=
  { s with mTunnelRequests := s.mTunnelRequests.filter (fun it => !bdIdEq it rmId) }

/-! ## `iteration` -/

/-- The first loop of `iteration`, over the packets that have come in. -/
def recvPkts (s : BdTunnelNode) (junk : Nat → Junk) : List BdNodeNetMsg → Nat → Exec BdTunnelNode
  | [], _ => pure { s with mIncomingMsgs := [] }
  | msg :: msgs, i => do
      let s ← s.recvPkt (junk i) msg.data msg.data.length msg.addr
      s.recvPkts junk msgs (i + 1)

/-- The next transaction id and a NEWCONN with it. -/
def sendRequest (s : BdTunnelNode) (query : BdId) : Exec BdTunnelNode :=
  let (transId, s) := s.genNewTransId
  s.msgoutNewconn query transId

/-- The second loop of `iteration`, which has that many rounds to go. -/
def sendRequests (s : BdTunnelNode) : Nat → Exec BdTunnelNode
  | 0 => pure s
  | rounds + 1 =>
      match s.mTunnelRequests with
      | [] => pure s
      | query :: rest => do
          let s ← { s with mTunnelRequests := rest ++ [query] }.sendRequest query
          s.sendRequests rounds

/-- `iteration` -/
def iteration (s : BdTunnelNode) (env : TunnelEnv) : Exec BdTunnelNode := do
  let s ← { s with transIdCounter := env.transIdCounter }.recvPkts env.junk s.mIncomingMsgs 0
  s.sendRequests s.mTunnelRequests.length

/-- `incomingMsg` -/
def incomingMsg (s : BdTunnelNode) (addr : SockaddrIn) (msg : List UInt8) : BdTunnelNode :=
  { s with mIncomingMsgs := s.mIncomingMsgs ++ [{ data := msg, addr := addr }] }

/-- `outgoingMsg`: the queue afterwards. -/
def outgoingMsg (s : BdTunnelNode) : BdTunnelNode :=
  { s with mOutgoingMsgs := s.mOutgoingMsgs.drop 1 }

end BdTunnelNode

end BitDht
