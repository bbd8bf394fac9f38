import BitDht.Bencode.Encode
import BitDht.Iface

/-!
# Build — the message builders of `bdmsgs.cc`

Every builder makes a dictionary, adds its entries one after the other, encodes it into the caller's
buffer and returns the length.  `makeDict` is what they share.
-/

namespace BitDht

open Decimal Outcome

/-! ## Compact ids -/

/-- `encodeCompactPeerId` -/
def encodeCompactPeerId (addr : SockaddrIn) : List UInt8 :=
  storeU32 addr.sAddr ++ storeU16 addr.sinPort

/-- `encodeCompactNodeId` -/
def encodeCompactNodeId (id : BdId) : List UInt8 :=
  id.id.data ++ encodeCompactPeerId id.addr

/-- `makeCompactBdIdString` -/
def makeCompactBdIdString (id : BdId) : Exec BeNode :=
  beCreateStrWlen (encodeCompactNodeId id) bitdhtCompactNodeIdLen

/-- `makeCompactIdListString` -/
def makeCompactIdListString (nodes : List BdId) : Exec BeNode :=
  let len := bitdhtCompactNodeIdLen * nodes.length
  let cni := nodes.flatMap encodeCompactNodeId
  beCreateStrWlen cni len

/-- The loop of `makeCompactPeerIds`. -/
def addStrings (valuesnode : BeNode) : List (List UInt8) → Exec BeNode
  | [] => pure valuesnode
  | it :: values => do
      let val ← beCreateStrWlen it it.length
      addStrings (beAddList valuesnode val).1 values

/-- `makeCompactPeerIds` -/
def makeCompactPeerIds (values : List (List UInt8)) : Exec BeNode := do
  let valuesnode ← beCreateList
  addStrings valuesnode values

/-! ## The builders -/

/-- A string literal of the source in memory. -/
def lit (s : String) : List UInt8 :=
  ascii s ++ [0]

/-- A run of `be_add_keypair(dict, str, node)`, with the call that makes each node. -/
def addKeypairs (dict : BeNode) : List (String × Exec BeNode) → Exec BeNode
  | [] => pure dict
  | (str, node) :: entries => do
      let node ← node
      let (dict, _) ← beAddKeypair dict (lit str) node
      addKeypairs dict entries

def makeDict (entries : List (String × Exec BeNode)) : Exec BeNode := do
  let dict ← beCreateDict
  addKeypairs dict entries

/-- `be_create_str_wlen((char *) id->data, BITDHT_KEY_LEN)` -/
def idNode (id : BdNodeId) : Exec BeNode :=
  beCreateStrWlen id.data bitdhtKeyLen

/-- `be_create_str_wlen((char *) tid->data, tid->len)` -/
def tokenNode (tid : BdToken) : Exec BeNode :=
  beCreateStrWlen tid.data tid.len

def litNode (s : String) : Exec BeNode :=
  beCreateStr (lit s)

/-- The end of every builder. -/
def encodeDict (entries : List (String × Exec BeNode)) (msg : List UInt8) (avail : Int) :
    Exec (List UInt8 × Nat) := do
  let dict ← makeDict entries
  beEncode dict msg avail

/-- `bitdht_create_ping_msg` -/
def bitdhtCreatePingMsg (tid : BdToken) (id : BdNodeId) (msg : List UInt8) (avail : Int) :
    Exec (List UInt8 × Nat) :=
  let iddict := makeDict [("id", idNode id)]
  encodeDict [("a", iddict), ("q", litNode "ping"), ("t", tokenNode tid), ("y", litNode "q")]
    msg avail

/-- `bitdht_response_ping_msg` -/
def bitdhtResponsePingMsg (tid : BdToken) (id : BdNodeId) (vid : BdToken) (msg : List UInt8)
    (avail : Int) : Exec (List UInt8 × Nat) :=
  let iddict := makeDict [("id", idNode id)]
  encodeDict [("r", iddict), ("t", tokenNode tid), ("y", litNode "r"), ("v", tokenNode vid)]
    msg avail

/-- `bitdht_find_node_msg` -/
def bitdhtFindNodeMsg (tid : BdToken) (id target : BdNodeId) (msg : List UInt8) (avail : Int) :
    Exec (List UInt8 × Nat) :=
  let iddict := makeDict [("id", idNode id), ("target", idNode target)]
  encodeDict [("a", iddict), ("t", tokenNode tid), ("y", litNode "q"), ("q", litNode "find_node")]
    msg avail

/-- `bitdht_resp_node_msg` -/
def bitdhtRespNodeMsg (tid : BdToken) (id : BdNodeId) (nodes : List BdId) (msg : List UInt8)
    (avail : Int) : Exec (List UInt8 × Nat) :=
  let replydict := makeDict [("id", idNode id), ("nodes", makeCompactIdListString nodes)]
  encodeDict [("t", tokenNode tid), ("y", litNode "r"), ("r", replydict)] msg avail

/-- `bitdht_get_peers_msg` -/
def bitdhtGetPeersMsg (tid : BdToken) (id infoHash : BdNodeId) (msg : List UInt8) (avail : Int) :
    Exec (List UInt8 × Nat) :=
  let iddict := makeDict [("id", idNode id), ("info_hash", idNode infoHash)]
  encodeDict [("a", iddict), ("t", tokenNode tid), ("y", litNode "q"), ("q", litNode "get_peers")]
    msg avail

/-- `bitdht_peers_reply_hash_msg` -/
def bitdhtPeersReplyHashMsg (tid : BdToken) (id : BdNodeId) (token : BdToken)
    (values : List (List UInt8)) (msg : List UInt8) (avail : Int) : Exec (List UInt8 × Nat) :=
  let replydict := makeDict
    [("id", idNode id), ("token", tokenNode token), ("values", makeCompactPeerIds values)]
  encodeDict [("t", tokenNode tid), ("y", litNode "r"), ("r", replydict)] msg avail

/-- `bitdht_peers_reply_closest_msg` -/
def bitdhtPeersReplyClosestMsg (tid : BdToken) (id : BdNodeId) (token : BdToken)
    (nodes : List BdId) (msg : List UInt8) (avail : Int) : Exec (List UInt8 × Nat) :=
  let replydict := makeDict
    [("id", idNode id), ("token", tokenNode token), ("nodes", makeCompactIdListString nodes)]
  encodeDict [("t", tokenNode tid), ("y", litNode "r"), ("r", replydict)] msg avail

/-- `bitdht_announce_peers_msg` -/
def bitdhtAnnouncePeersMsg (tid : BdToken) (id infoHash : BdNodeId) (port : UInt32)
    (token : BdToken) (msg : List UInt8) (avail : Int) : Exec (List UInt8 × Nat) :=
  let iddict := makeDict
    [("id", idNode id), ("info_hash", idNode infoHash), ("port", pure (beCreateInt port.toNat)),
      ("token", tokenNode token)]
  encodeDict [("a", iddict), ("q", litNode "announce_peer"), ("t", tokenNode tid),
    ("y", litNode "q")] msg avail

/-- `bitdht_reply_announce_msg`, the same as a PONG message but for the version. -/
def bitdhtReplyAnnounceMsg (tid : BdToken) (id : BdNodeId) (msg : List UInt8) (avail : Int) :
    Exec (List UInt8 × Nat) :=
  let iddict := makeDict [("id", idNode id)]
  encodeDict [("r", iddict), ("t", tokenNode tid), ("y", litNode "r")] msg avail

/-- `bitdht_ask_myip_msg` -/
def bitdhtAskMyipMsg (tid : BdToken) (id : BdNodeId) (msg : List UInt8) (avail : Int) :
    Exec (List UInt8 × Nat) :=
  let iddict := makeDict [("id", idNode id)]
  encodeDict [("a", iddict), ("q", litNode "newconn"), ("t", tokenNode tid), ("y", litNode "q")]
    msg avail

/-- `bitdht_reply_myip_msg` -/
def bitdhtReplyMyipMsg (tid : BdToken) (id : BdNodeId) (peerId : BdId) (msg : List UInt8)
    (started : Bool) (avail : Int) : Exec (List UInt8 × Nat) :=
  let iddict := makeDict
    [("id", idNode id), ("newconn", litNode "hello"), ("pid", makeCompactBdIdString peerId)]
  encodeDict [("r", iddict), ("t", tokenNode tid), ("y", litNode "r"),
    ("n", litNode (if started then "y" else "n"))] msg avail

/-- `bitdht_broadcast_conn_msg` -/
def bitdhtBroadcastConnMsg (tid : BdToken) (id nodeId peerId : BdNodeId) (msg : List UInt8)
    (avail : Int) : Exec (List UInt8 × Nat) :=
  let iddict := makeDict [("id", idNode id), ("nid", idNode nodeId), ("pid", idNode peerId)]
  encodeDict [("a", iddict), ("q", litNode "brconn"), ("t", tokenNode tid), ("y", litNode "q")]
    msg avail

/-- `bitdht_ask_conn_msg` -/
def bitdhtAskConnMsg (tid : BdToken) (id nodeId : BdNodeId) (peerId : BdId) (msg : List UInt8)
    (avail : Int) : Exec (List UInt8 × Nat) :=
  let iddict := makeDict
    [("id", idNode id), ("nid", idNode nodeId), ("pid", makeCompactBdIdString peerId)]
  encodeDict [("a", iddict), ("q", litNode "askconn"), ("t", tokenNode tid), ("y", litNode "q")]
    msg avail

/-- `bitdht_reply_conn_msg` -/
def bitdhtReplyConnMsg (tid : BdToken) (id : BdNodeId) (started : Bool) (msg : List UInt8)
    (avail : Int) : Exec (List UInt8 × Nat) :=
  let iddict := makeDict [("id", idNode id), ("askconn", litNode "hello")]
  encodeDict [("r", iddict), ("t", tokenNode tid), ("y", litNode "r"),
    ("n", litNode (if started then "y" else "n"))] msg avail

/-! ## The trees they encode -/

/-- A dictionary with the given entries. -/
def dictOf (entries : List (String × BeNode)) : BeNode :=
  .dict (entries.map (fun e => (ascii e.1, e.2)))

def strOf (s : List UInt8) : BeNode :=
  .str (some s)

theorem strlen_lit {s : String} (hs : 0 ∉ ascii s) : strlen (lit s) = .ok (ascii s).length :=
  strlen_append (List.forall_mem_ne'.2 hs) []

theorem readBytes_append (s z : List UInt8) : readBytes s.length (s ++ z) = .ok s := by
  simp [readBytes]

theorem beAddKeypair_lit {s : String} (hs : 0 ∉ ascii s)
    (d : List (List UInt8 × BeNode)) (n : BeNode) :
    beAddKeypair (.dict d) (lit s) n = .ok (.dict (d ++ [(ascii s, n)]), 1) := by
  have hread : readBytes (ascii s).length (lit s) = .ok (ascii s) := readBytes_append _ _
  simp [beAddKeypair, strlen_lit hs, hread]

theorem addKeypairs_ok {entries : List (String × BeNode)}
    (hkeys : ∀ e ∈ entries, 0 ∉ ascii e.1) (d : List (List UInt8 × BeNode)) :
    addKeypairs (.dict d) (entries.map (fun e => (e.1, .ok e.2))) =
      .ok (.dict (d ++ entries.map (fun e => (ascii e.1, e.2)))) := by
  induction entries generalizing d with
  | nil =>
      simp [addKeypairs]
  | cons e entries ih =>
      have hrest := ih (fun x hx => hkeys x (by simp [hx])) (d ++ [(ascii e.1, e.2)])
      simp only [List.map_cons, addKeypairs, ok_bind, beAddKeypair_lit (hkeys e (by simp)), hrest]
      simp

theorem makeDict_ok {entries : List (String × BeNode)}
    (hkeys : ∀ e ∈ entries, 0 ∉ ascii e.1) :
    makeDict (entries.map (fun e => (e.1, .ok e.2))) = .ok (dictOf entries) := by
  -- the entries stand in the order in which they were added
  calc
    makeDict (entries.map (fun e => (e.1, .ok e.2)))
        = addKeypairs (.dict []) (entries.map (fun e => (e.1, .ok e.2))) := by
          rw [makeDict, beCreateDict_eq, ok_bind]
    _ = .ok (.dict ([] ++ entries.map (fun e => (ascii e.1, e.2)))) := addKeypairs_ok hkeys []
    _ = .ok (dictOf entries) := rfl

theorem encodeDict_ok {entries : List (String × BeNode)}
    (hkeys : ∀ e ∈ entries, 0 ∉ ascii e.1) (msg : List UInt8) (avail : Int) :
    encodeDict (entries.map (fun e => (e.1, .ok e.2))) msg avail =
      beEncode (dictOf entries) msg avail := by
  rw [encodeDict, makeDict_ok hkeys, ok_bind]

theorem beCreateStrWlen_self (s : List UInt8) : beCreateStrWlen s s.length = .ok (strOf s) := by
  simp [beCreateStrWlen, readBytes, strOf]

theorem idNode_eq (id : BdNodeId) : idNode id = .ok (strOf id.data) := by
  rw [idNode, ← id.size, beCreateStrWlen_self]

theorem tokenNode_eq (tid : BdToken) : tokenNode tid = .ok (strOf tid.data) :=
  beCreateStrWlen_self tid.data

theorem litNode_eq {s : String} (hs : 0 ∉ ascii s) : litNode s = .ok (strOf (ascii s)) := by
  have hread : readBytes (ascii s).length (lit s) = .ok (ascii s) := readBytes_append _ _
  simp [litNode, beCreateStr, strlen_lit hs, hread, strOf]

@[simp] theorem length_encodeCompactPeerId (addr : SockaddrIn) :
    (encodeCompactPeerId addr).length = bitdhtCompactPeerIdLen := rfl

@[simp] theorem length_encodeCompactNodeId (id : BdId) :
    (encodeCompactNodeId id).length = bitdhtCompactNodeIdLen := by
  rw [encodeCompactNodeId, List.length_append, id.id.size, length_encodeCompactPeerId]
  rfl

theorem makeCompactBdIdString_eq (id : BdId) :
    makeCompactBdIdString id = .ok (strOf (encodeCompactNodeId id)) := by
  rw [makeCompactBdIdString, ← length_encodeCompactNodeId id, beCreateStrWlen_self]

theorem length_flatMap_encode (nodes : List BdId) :
    (nodes.flatMap encodeCompactNodeId).length = bitdhtCompactNodeIdLen * nodes.length := by
  induction nodes with
  | nil =>
      rfl
  | cons id nodes ih =>
      calc
        ((id :: nodes).flatMap encodeCompactNodeId).length
            = (encodeCompactNodeId id).length + (nodes.flatMap encodeCompactNodeId).length := by
              rw [List.flatMap_cons, List.length_append]
        _ = bitdhtCompactNodeIdLen + bitdhtCompactNodeIdLen * nodes.length := by
              rw [length_encodeCompactNodeId, ih]
        _ = bitdhtCompactNodeIdLen * (id :: nodes).length := by
              rw [List.length_cons, Nat.mul_succ, Nat.add_comm]

theorem makeCompactIdListString_eq (nodes : List BdId) :
    makeCompactIdListString nodes = .ok (strOf (nodes.flatMap encodeCompactNodeId)) := by
  rw [makeCompactIdListString, ← length_flatMap_encode nodes, beCreateStrWlen_self]

theorem addStrings_eq (l : List BeNode) (values : List (List UInt8)) :
    addStrings (.list l) values = .ok (.list (l ++ values.map strOf)) := by
  induction values generalizing l with
  | nil =>
      simp [addStrings]
  | cons it values ih =>
      rw [addStrings, beCreateStrWlen_self, ok_bind, beAddList, ih]
      simp

theorem makeCompactPeerIds_eq (values : List (List UInt8)) :
    makeCompactPeerIds values = .ok (.list (values.map strOf)) := by
  rw [makeCompactPeerIds, beCreateList_eq, ok_bind, addStrings_eq]
  rfl

/-! ## Messages -/

/-- One constructor for each builder, with its arguments. -/
inductive Msg
  | ping (tid : BdToken) (id : BdNodeId)
  | pong (tid : BdToken) (id : BdNodeId) (vid : BdToken)
  | findNode (tid : BdToken) (id target : BdNodeId)
  | replyNode (tid : BdToken) (id : BdNodeId) (nodes : List BdId)
  | getHash (tid : BdToken) (id infoHash : BdNodeId)
  | replyHash (tid : BdToken) (id : BdNodeId) (token : BdToken) (values : List (List UInt8))
  | replyNear (tid : BdToken) (id : BdNodeId) (token : BdToken) (nodes : List BdId)
  | postHash (tid : BdToken) (id infoHash : BdNodeId) (port : UInt32) (token : BdToken)
  | replyAnnounce (tid : BdToken) (id : BdNodeId)
  | newconn (tid : BdToken) (id : BdNodeId)
  | replyNewconn (tid : BdToken) (id : BdNodeId) (peerId : BdId) (started : Bool)
  | broadcastConn (tid : BdToken) (id nodeId peerId : BdNodeId)
  | askConn (tid : BdToken) (id nodeId : BdNodeId) (peerId : BdId)
  | replyConn (tid : BdToken) (id : BdNodeId) (started : Bool)

namespace Msg

/-- The call of the builder. -/
def build (msg : List UInt8) (avail : Int) : Msg → Exec (List UInt8 × Nat)
  | .ping tid id => bitdhtCreatePingMsg tid id msg avail
  | .pong tid id vid => bitdhtResponsePingMsg tid id vid msg avail
  | .findNode tid id target => bitdhtFindNodeMsg tid id target msg avail
  | .replyNode tid id nodes => bitdhtRespNodeMsg tid id nodes msg avail
  | .getHash tid id infoHash => bitdhtGetPeersMsg tid id infoHash msg avail
  | .replyHash tid id token values => bitdhtPeersReplyHashMsg tid id token values msg avail
  | .replyNear tid id token nodes => bitdhtPeersReplyClosestMsg tid id token nodes msg avail
  | .postHash tid id infoHash port token =>
      bitdhtAnnouncePeersMsg tid id infoHash port token msg avail
  | .replyAnnounce tid id => bitdhtReplyAnnounceMsg tid id msg avail
  | .newconn tid id => bitdhtAskMyipMsg tid id msg avail
  | .replyNewconn tid id peerId started => bitdhtReplyMyipMsg tid id peerId msg started avail
  | .broadcastConn tid id nodeId peerId => bitdhtBroadcastConnMsg tid id nodeId peerId msg avail
  | .askConn tid id nodeId peerId => bitdhtAskConnMsg tid id nodeId peerId msg avail
  | .replyConn tid id started => bitdhtReplyConnMsg tid id started msg avail

def startedText (started : Bool) : List UInt8 :=
  ascii (if started then "y" else "n")

/-- The dictionary under `a` or `r`. -/
def body : Msg → List (String × BeNode)
  | .ping _ id => [("id", strOf id.data)]
  | .pong _ id _ => [("id", strOf id.data)]
  | .findNode _ id target => [("id", strOf id.data), ("target", strOf target.data)]
  | .replyNode _ id nodes =>
      [("id", strOf id.data), ("nodes", strOf (nodes.flatMap encodeCompactNodeId))]
  | .getHash _ id infoHash => [("id", strOf id.data), ("info_hash", strOf infoHash.data)]
  | .replyHash _ id token values =>
      [("id", strOf id.data), ("token", strOf token.data), ("values", .list (values.map strOf))]
  | .replyNear _ id token nodes =>
      [("id", strOf id.data), ("token", strOf token.data),
        ("nodes", strOf (nodes.flatMap encodeCompactNodeId))]
  | .postHash _ id infoHash port token =>
      [("id", strOf id.data), ("info_hash", strOf infoHash.data), ("port", .int port.toNat),
        ("token", strOf token.data)]
  | .replyAnnounce _ id => [("id", strOf id.data)]
  | .newconn _ id => [("id", strOf id.data)]
  | .replyNewconn _ id peerId _ =>
      [("id", strOf id.data), ("newconn", strOf (ascii "hello")),
        ("pid", strOf (encodeCompactNodeId peerId))]
  | .broadcastConn _ id nodeId peerId =>
      [("id", strOf id.data), ("nid", strOf nodeId.data), ("pid", strOf peerId.data)]
  | .askConn _ id nodeId peerId =>
      [("id", strOf id.data), ("nid", strOf nodeId.data),
        ("pid", strOf (encodeCompactNodeId peerId))]
  | .replyConn _ id _ => [("id", strOf id.data), ("askconn", strOf (ascii "hello"))]

/-- The whole message, whose body is the tree `body`. -/
def entries (body : BeNode) : Msg → List (String × BeNode)
  | .ping tid _ =>
      [("a", body), ("q", strOf (ascii "ping")), ("t", strOf tid.data), ("y", strOf (ascii "q"))]
  | .pong tid _ vid =>
      [("r", body), ("t", strOf tid.data), ("y", strOf (ascii "r")), ("v", strOf vid.data)]
  | .findNode tid _ _ =>
      [("a", body), ("t", strOf tid.data), ("y", strOf (ascii "q")),
        ("q", strOf (ascii "find_node"))]
  | .replyNode tid _ _ => [("t", strOf tid.data), ("y", strOf (ascii "r")), ("r", body)]
  | .getHash tid _ _ =>
      [("a", body), ("t", strOf tid.data), ("y", strOf (ascii "q")),
        ("q", strOf (ascii "get_peers"))]
  | .replyHash tid _ _ _ => [("t", strOf tid.data), ("y", strOf (ascii "r")), ("r", body)]
  | .replyNear tid _ _ _ => [("t", strOf tid.data), ("y", strOf (ascii "r")), ("r", body)]
  | .postHash tid _ _ _ _ =>
      [("a", body), ("q", strOf (ascii "announce_peer")), ("t", strOf tid.data),
        ("y", strOf (ascii "q"))]
  | .replyAnnounce tid _ => [("r", body), ("t", strOf tid.data), ("y", strOf (ascii "r"))]
  | .newconn tid _ =>
      [("a", body), ("q", strOf (ascii "newconn")), ("t", strOf tid.data), ("y", strOf (ascii "q"))]
  | .replyNewconn tid _ _ started =>
      [("r", body), ("t", strOf tid.data), ("y", strOf (ascii "r")),
        ("n", strOf (startedText started))]
  | .broadcastConn tid _ _ _ =>
      [("a", body), ("q", strOf (ascii "brconn")), ("t", strOf tid.data), ("y", strOf (ascii "q"))]
  | .askConn tid _ _ _ =>
      [("a", body), ("q", strOf (ascii "askconn")), ("t", strOf tid.data), ("y", strOf (ascii "q"))]
  | .replyConn tid _ started =>
      [("r", body), ("t", strOf tid.data), ("y", strOf (ascii "r")),
        ("n", strOf (startedText started))]

def tree (m : Msg) : BeNode :=
  dictOf (m.entries (dictOf m.body))

/-- Every key of a message is a C string. -/
theorem keys_ne_zero {m : Msg} {n : BeNode} :
    (∀ e ∈ m.body, 0 ∉ ascii e.1) ∧ ∀ e ∈ m.entries n, 0 ∉ ascii e.1 := by
  cases m <;> simp only [body, entries, List.forall_mem_cons] <;> decide

theorem litNode_started (started : Bool) :
    litNode (if started then "y" else "n") = .ok (strOf (startedText started)) := by
  cases started with
  | true =>
      exact litNode_eq (by decide)
  | false =>
      exact litNode_eq (by decide)

/-- Every builder encodes the tree of its message. -/
theorem build_eq (m : Msg) (msg : List UInt8) (avail : Int) :
    m.build msg avail = beEncode m.tree msg avail := by
  have hbody : makeDict (m.body.map (fun e => (e.1, .ok e.2))) = .ok (dictOf m.body) :=
    makeDict_ok (@keys_ne_zero m (.int 0)).1
  rw [tree, ← encodeDict_ok (@keys_ne_zero m (dictOf m.body)).2]
  -- what is left for each builder is that its nodes are those of the tree
  cases m
  all_goals
    simp only [body, List.map_cons, List.map_nil] at hbody
    simp (disch := decide) only [build, bitdhtCreatePingMsg, bitdhtResponsePingMsg,
      bitdhtFindNodeMsg, bitdhtRespNodeMsg, bitdhtGetPeersMsg, bitdhtPeersReplyHashMsg,
      bitdhtPeersReplyClosestMsg, bitdhtAnnouncePeersMsg, bitdhtReplyAnnounceMsg,
      bitdhtAskMyipMsg, bitdhtReplyMyipMsg, bitdhtBroadcastConnMsg, bitdhtAskConnMsg,
      bitdhtReplyConnMsg, idNode_eq, tokenNode_eq, litNode_eq, litNode_started,
      makeCompactBdIdString_eq, makeCompactIdListString_eq, makeCompactPeerIds_eq, pure_eq_ok,
      beCreateInt, hbody, body, entries, List.map_cons, List.map_nil]

end Msg

end BitDht
