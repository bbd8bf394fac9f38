import BitDht.Node.Handlers

/-!
# RecvPkt — `bdNode::recvPkt`

`parseFields` is the part of `recvPkt` before its switch, block by block, and `dispatch` the switch.
Both run in `Recv`, where a plain `return` of the source, which drops the packet, is a failure.
-/

namespace BitDht

open Outcome

variable {mFns : BdDhtFunctions}

abbrev Recv := OptionT Exec

namespace Recv

/-- A node that must be there: without it the packet is dropped. -/
def need {α : Type} (n : Option α) : Recv α :=
  OptionT.mk (pure n)

/-- A call that drops nothing. -/
def call {α : Type} (x : Exec α) : Recv α :=
  OptionT.lift x

end Recv

open Recv

/-! ## The blocks -/

/-- `beMsgGetToken(n, token)` as `recvPkt` calls it: the token afterwards, whatever it returns. -/
def fillToken (n : BeNode) (token : BdToken) : Exec BdToken := do
  let r ← beMsgGetToken n
  pure (r.getD token)

/-- The lookups of a node that only some message types have: `key` is none for the others. -/
def lookupFor (beData : BeNode) (key : Option String) : Recv (Option BeNode) :=
  match key with
  | none => pure none
  | some key => do
      let n ← need (beMsgGetDictNode beData (ascii key))
      pure (some n)

/-- `if (be_version) beMsgGetToken(be_version, versionId)` -/
def fillVersion : Option BeNode → Exec (Option BdToken)
  | none => pure none
  | some n => do
      let versionId ← fillToken n BdToken.empty
      pure (some versionId)

/-- `if (be_nodes) beMsgGetListBdIds(be_nodes, nodes)` -/
def fillNodes : Option BeNode → Exec (List BdId)
  | none => pure []
  | some n => do
      let nodes ← beMsgGetListBdIds n
      pure (nodes.getD [])

/-- `if (be_values) beMsgGetListStrings(be_values, values)` -/
def fillValues : Option BeNode → List (List UInt8)
  | none => []
  | some n => (beMsgGetListStrings n).2

/-- `if (be_token) beMsgGetToken(be_transId, transId)`, which fills the transaction id once more and
leaves the token as it is. -/
def refillTransId (beToken : Option BeNode) (beTransId : BeNode) (transId : BdToken) :
    Exec BdToken :=
  match beToken with
  | none => pure transId
  | some _ => fillToken beTransId transId

/-- The key of the target (query) or info_hash (get_hash). -/
def targetKey : MsgType → Option String
  | .findNode => some "target"
  | .getHash => some "info_hash"
  | .postHash => some "info_hash"
  | _ => none

/-- The key of the nodes (reply_query or reply_near). -/
def nodesKey : MsgType → Option String
  | .replyNode => some "nodes"
  | .replyNear => some "nodes"
  | _ => none

/-- The key of the values (reply_hash). -/
def valuesKey : MsgType → Option String
  | .replyHash => some "values"
  | _ => none

/-- The key of the token (reply_hash, reply_near, post hash). -/
def tokenKey : MsgType → Option String
  | .replyHash => some "token"
  | .replyNear => some "token"
  | .postHash => some "token"
  | _ => none

/-- The key of the port (post hash). -/
def portKey : MsgType → Option String
  | .postHash => some "port"
  | _ => none

/-- The local variables of `recvPkt` that the switch passes on.  `id`, `targetInfoHash` and `port`
have no first value. -/
structure Fields where
  transId : BdToken
  id : Option BdNodeId
  versionId : Option BdToken
  targetInfoHash : Option BdNodeId
  nodes : List BdId
  values : List (List UInt8)
  token : BdToken
  port : Option UInt32

/-- `recvPkt` from the handling of the token on, down to the handling of the port. -/
def parseFields (node : BeNode) (beType : MsgType) (beQuery : Bool) : Recv (BeNode × Fields) := do
  -- handle token (all)
  let beTransId ← need (beMsgGetDictNode node (ascii "t"))
  let transId ← call (fillToken beTransId BdToken.empty)
  -- handle data (all)
  let beData ← need (beMsgGetDictNode node (ascii (if beQuery then "a" else "r")))
  -- handle id (all)
  let beId ← need (beMsgGetDictNode beData (ascii "id"))
  let id := beMsgGetNodeId beId
  -- handle version (optional:pong)
  let beVersion := if beType = .pong then beMsgGetDictNode node (ascii "v") else none
  let versionId ← call (fillVersion beVersion)
  -- handle target (query) or info_hash (get_hash)
  let beTarget ← lookupFor beData (targetKey beType)
  -- handle nodes (reply_query or reply_near)
  let beNodes ← lookupFor beData (nodesKey beType)
  let nodes ← call (fillNodes beNodes)
  -- handle values (reply_hash)
  let beValues ← lookupFor beData (valuesKey beType)
  -- handle token (reply_hash, reply_near, post hash)
  let beToken ← lookupFor beData (tokenKey beType)
  let transId ← call (refillTransId beToken beTransId transId)
  -- handle port (post hash)
  let bePort ← lookupFor beData (portKey beType)
  pure (beData, { transId := transId, id := id, versionId := versionId,
                  targetInfoHash := beTarget.bind beMsgGetNodeId, nodes := nodes,
                  values := fillValues beValues, token := BdToken.empty,
                  port := bePort.bind beMsgGetUInt32 })

/-! ## The switch -/

/-- What `recvPkt` does with a packet that it does not drop. -/
inductive RecvAct
  | msgin (m : MsgIn)
  | addBlackList (addr : SockaddrIn)
  deriving DecidableEq

/-- The cases of NEWCONN and REPLY_NEWCONN: only a valid packet reaches `m`. -/
def recvEcrypted (s : BdNode mFns) (msg : List UInt8) (len : Nat) (addr : SockaddrIn)
    (m : MsgIn) : Recv RecvAct := do
  let (valid, token) ← call (bitdhtDecrypt msg len)
  if s.isUsedToken token then
    pure (.addBlackList addr)
  else if valid then
    pure (.msgin m)
  else
    failure

/-- The switch of `recvPkt`.  The three types that carry ids of other peers have their extraction
block, the last one before the switch, in their case. -/
def dispatch (s : BdNode mFns) (msg : List UInt8) (len : Nat) (addr : SockaddrIn)
    (beType : MsgType) (beData : BeNode) (f : Fields) : Recv RecvAct :=
  let srcId : SrcId := { addr := addr, id := f.id }
  match beType with
  | .ping => pure (.msgin (.ping srcId f.transId))
  | .pong => pure (.msgin (.pong srcId f.transId f.versionId))
  | .findNode => pure (.msgin (.findNode srcId f.transId f.targetInfoHash))
  | .replyNode => pure (.msgin (.replyFindNode srcId f.transId f.nodes))
  | .getHash => pure (.msgin (.getHash srcId f.transId f.targetInfoHash))
  | .replyHash => pure (.msgin (.replyHash srcId f.transId f.token f.values))
  | .replyNear => pure (.msgin (.replyNearest srcId f.transId f.token f.nodes))
  | .postHash => pure (.msgin (.postHash srcId f.transId f.targetInfoHash f.port f.token))
  | .replyPost => pure (.msgin (.replyPost srcId f.transId))
  | .newconn => recvEcrypted s msg len addr (.askMyip srcId f.transId)
  | .replyNewconn => do
      let _ ← need (beMsgGetDictNode beData (ascii "newconn"))
      let bePid ← need (beMsgGetDictNode beData (ascii "pid"))
      let peerId ← call (beMsgGetBdId bePid)
      let peerId ← need peerId
      recvEcrypted s msg len addr (.replyAskMyip peerId f.transId)
  | .broadcastConn => do
      let beId ← need (beMsgGetDictNode beData (ascii "nid"))
      let bePid ← need (beMsgGetDictNode beData (ascii "pid"))
      let thisNodeId ← need (beMsgGetNodeId beId)
      let peerNodeId ← need (beMsgGetNodeId bePid)
      pure (.msgin (.broadcastConn srcId f.transId thisNodeId peerNodeId))
  | .askConn => do
      let beId ← need (beMsgGetDictNode beData (ascii "nid"))
      let thisNodeId2 ← need (beMsgGetNodeId beId)
      let bePid ← need (beMsgGetDictNode beData (ascii "pid"))
      let peerNodeId2 ← call (beMsgGetBdId bePid)
      let peerNodeId2 ← need peerNodeId2
      pure (.msgin (.askConn srcId f.transId thisNodeId2 peerNodeId2))
  | .replyConn => failure
  | .unknown => failure

namespace BdNode

/-- What `recvPkt` does with a packet; it fails where the packet is dropped. -/
def recvAct (s : BdNode mFns) (msg : List UInt8) (len : Nat) (addr : SockaddrIn) :
    Recv RecvAct :=
  if s.isMemberOfBlackList addr then
    failure
  else do
    -- convert to a be_node
    let node ← call (beDecoden msg len)
    let node ← need node
    -- find message type
    let beType ← call (beMsgType node)
    let y ← call (beMsgGetY node)
    if beType = .unknown then
      failure
    else do
      let (beData, f) ← parseFields node beType (y = .q)
      dispatch s msg len addr beType beData f

/-- The outcome of a packet carried out. -/
def perform (s : BdNode mFns) (now : Int) (junk : Junk) : Option RecvAct → Exec (BdNode mFns)
  | none => pure s
  | some (.msgin m) => s.msgin now junk m
  | some (.addBlackList addr) => pure (s.addBlackList addr)

/-- `recvPkt` -/
def recvPkt (s : BdNode mFns) (now : Int) (junk : Junk) (msg : List UInt8) (len : Nat)
    (addr : SockaddrIn) : Exec (BdNode mFns) := do
  let act ← (s.recvAct msg len addr).run
  s.perform now junk act

end BdNode

end BitDht
