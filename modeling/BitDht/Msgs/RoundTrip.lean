import BitDht.Msgs.Build
import BitDht.Msgs.Parse

/-!
# RoundTrip — what the parsing functions find in a built message

A built message decodes to the tree of its builder (`Msg.tree`), so the results here are about that
tree: `beMsgType` gives the type that belongs to the builder, and every extraction function gives
back the argument the builder was called with.
-/

namespace BitDht

open Outcome

/-! ## Extracting what was built -/

theorem beMsgGetToken_strOf {tok : BdToken} (h : tok.len ≤ bitdhtTokenMaxLen) :
    beMsgGetToken (strOf tok.data) = .ok (some tok) := by
  have hfits : ¬ bitdhtTokenMaxLen < 0 + tok.data.length := by
    rw [Nat.zero_add]
    exact not_lt.2 h
  have hcopy : copyToken 0 tok.data = .ok tok.data := by
    rw [copyToken_cases 0 tok.data (Nat.zero_le _), if_neg hfits]
  simp [strOf, beMsgGetToken, hcopy]

theorem beMsgGetNodeId_strOf (id : BdNodeId) : beMsgGetNodeId (strOf id.data) = some id := by
  simp [strOf, beMsgGetNodeId, id.size]

theorem readNodeId_append (id : BdNodeId) (z : List UInt8) :
    readNodeId (id.data ++ z) = .ok id := by
  have hlen : bitdhtKeyLen ≤ (id.data ++ z).length := by
    rw [List.length_append, id.size]
    omega
  rw [readNodeId, dif_pos hlen]
  congr
  rw [← id.size, List.take_left]

theorem decodeCompactPeerId_encode {addr : SockaddrIn} (h : addr.sinFamily = afInet)
    (z : List UInt8) : decodeCompactPeerId (encodeCompactPeerId addr ++ z) bitdhtCompactPeerIdLen =
      .ok (some addr) := by
  have hip : loadU32 (encodeCompactPeerId addr ++ z) = .ok addr.sAddr := by
    rw [encodeCompactPeerId, List.append_assoc, loadU32_storeU32]
  have hport : loadU16 ((encodeCompactPeerId addr ++ z).drop 4) = .ok addr.sinPort := by
    rw [encodeCompactPeerId, List.append_assoc, ← length_storeU32 addr.sAddr, List.drop_left,
      loadU16_storeU16]
  simp [decodeCompactPeerId, hip, hport, ← h]

theorem decodeCompactNodeId_encode {id : BdId} (h : id.addr.sinFamily = afInet) (z : List UInt8) :
    decodeCompactNodeId (encodeCompactNodeId id ++ z) bitdhtCompactNodeIdLen = .ok (some id) := by
  have hid : readNodeId (encodeCompactNodeId id ++ z) = .ok id.id := by
    rw [encodeCompactNodeId, List.append_assoc, readNodeId_append]
  -- the address stands behind the twenty bytes of the id
  have hdrop : (encodeCompactNodeId id ++ z).drop (bitdhtCompactNodeIdLen - bitdhtCompactPeerIdLen) =
      encodeCompactPeerId id.addr ++ z := by
    have hlen : bitdhtCompactNodeIdLen - bitdhtCompactPeerIdLen = id.id.data.length := by
      rw [id.id.size]
      rfl
    calc
      (encodeCompactNodeId id ++ z).drop (bitdhtCompactNodeIdLen - bitdhtCompactPeerIdLen)
          = (id.id.data ++ (encodeCompactPeerId id.addr ++ z)).drop id.id.data.length := by
            rw [encodeCompactNodeId, List.append_assoc, hlen]
      _ = encodeCompactPeerId id.addr ++ z := List.drop_left
  simp [decodeCompactNodeId, hid, hdrop, decodeCompactPeerId_encode h]

theorem beMsgGetBdId_strOf {id : BdId} (h : id.addr.sinFamily = afInet) :
    beMsgGetBdId (strOf (encodeCompactNodeId id)) = .ok (some id) := by
  have hdec := decodeCompactNodeId_encode h []
  rw [List.append_nil] at hdec
  simpa [strOf, beMsgGetBdId, beStrLen] using hdec

theorem decodeCompactIds_encode {ids : List BdId} (h : ∀ id ∈ ids, id.addr.sinFamily = afInet) :
    decodeCompactIds (ids.flatMap encodeCompactNodeId) ids.length = .ok ids := by
  induction ids with
  | nil =>
      rfl
  | cons id ids ih =>
      have hid := decodeCompactNodeId_encode (h id (by simp)) (ids.flatMap encodeCompactNodeId)
      have hrest := ih (fun x hx => h x (by simp [hx]))
      -- the next id stands behind the 26 bytes of this one
      have hdrop : (encodeCompactNodeId id ++ ids.flatMap encodeCompactNodeId).drop
          bitdhtCompactNodeIdLen = ids.flatMap encodeCompactNodeId := by
        rw [← length_encodeCompactNodeId id]
        exact List.drop_left
      simp [decodeCompactIds, hid, hdrop, hrest]

theorem beMsgGetListBdIds_strOf {ids : List BdId} (h : ∀ id ∈ ids, id.addr.sinFamily = afInet) :
    beMsgGetListBdIds (strOf (ids.flatMap encodeCompactNodeId)) = .ok (some ids) := by
  -- the length of the string gives back the number of ids
  have hcount : beStrLen (some (ids.flatMap encodeCompactNodeId)) / bitdhtCompactNodeIdLen =
      ids.length := by
    calc
      beStrLen (some (ids.flatMap encodeCompactNodeId)) / bitdhtCompactNodeIdLen
          = bitdhtCompactNodeIdLen * ids.length / bitdhtCompactNodeIdLen := by
            rw [beStrLen, length_flatMap_encode]
      _ = ids.length := Nat.mul_div_cancel_left _ (by decide)
  rw [strOf, beMsgGetListBdIds, hcount, Option.getD_some, decodeCompactIds_encode h]
  rfl

theorem pushStrings_strOf (acc values : List (List UInt8)) :
    pushStrings acc (values.map strOf) = (true, acc ++ values) := by
  induction values generalizing acc with
  | nil =>
      simp [pushStrings]
  | cons s values ih =>
      simpa [strOf, pushStrings] using ih (acc ++ [s])

theorem beMsgGetListStrings_strOf (values : List (List UInt8)) :
    beMsgGetListStrings (.list (values.map strOf)) = (true, values) :=
  pushStrings_strOf [] values

theorem beMsgGetUInt32_toNat (x : UInt32) : beMsgGetUInt32 (.int x.toNat) = some x := by
  have hlt : x.toNat < 4294967296 := x.toNat_lt
  -- a port is below 2 ^ 32, so it survives the conversion
  have hmod : ((x.toNat : Int) % 4294967296).toNat = x.toNat := by omega
  simp [beMsgGetUInt32, hmod]

/-! ## A message and its arguments -/

/-- The node under `key` in the dictionary under `outer`. -/
def beMsgGetIn (n : BeNode) (outer key : String) : Option BeNode :=
  (beMsgGetDictNode n (ascii outer)).bind (fun d => beMsgGetDictNode d (ascii key))

def IsToken (n : Option BeNode) (tok : BdToken) : Prop :=
  n.map beMsgGetToken = some (.ok (some tok))

def IsNodeId (n : Option BeNode) (id : BdNodeId) : Prop :=
  n.bind beMsgGetNodeId = some id

def IsBdId (n : Option BeNode) (id : BdId) : Prop :=
  n.map beMsgGetBdId = some (.ok (some id))

def IsBdIdList (n : Option BeNode) (ids : List BdId) : Prop :=
  n.map beMsgGetListBdIds = some (.ok (some ids))

def IsStringList (n : Option BeNode) (values : List (List UInt8)) : Prop :=
  n.map beMsgGetListStrings = some (true, values)

def IsUInt32 (n : Option BeNode) (x : UInt32) : Prop :=
  n.bind beMsgGetUInt32 = some x

def IsStarted (n : Option BeNode) (started : Bool) : Prop :=
  beMsgMatchString n (ascii "y") 1 = .ok started

namespace Msg

/-- The type that belongs to a builder. -/
def type : Msg → MsgType
  | .ping _ _ => .ping
  | .pong _ _ _ => .pong
  | .findNode _ _ _ => .findNode
  | .replyNode _ _ _ => .replyNode
  | .getHash _ _ _ => .getHash
  | .replyHash _ _ _ _ => .replyHash
  | .replyNear _ _ _ _ => .replyNear
  | .postHash _ _ _ _ _ => .postHash
  | .replyAnnounce _ _ => .pong
  | .newconn _ _ => .newconn
  | .replyNewconn _ _ _ _ => .replyNewconn
  | .broadcastConn _ _ _ _ => .broadcastConn
  | .askConn _ _ _ _ => .askConn
  | .replyConn _ _ _ => .replyConn

/-- The tokens a message is built from. -/
def tokens : Msg → List BdToken
  | .ping tid _ => [tid]
  | .pong tid _ vid => [tid, vid]
  | .findNode tid _ _ => [tid]
  | .replyNode tid _ _ => [tid]
  | .getHash tid _ _ => [tid]
  | .replyHash tid _ token _ => [tid, token]
  | .replyNear tid _ token _ => [tid, token]
  | .postHash tid _ _ _ token => [tid, token]
  | .replyAnnounce tid _ => [tid]
  | .newconn tid _ => [tid]
  | .replyNewconn tid _ _ _ => [tid]
  | .broadcastConn tid _ _ _ => [tid]
  | .askConn tid _ _ _ => [tid]
  | .replyConn tid _ _ => [tid]

/-- The ids with an address a message is built from. -/
def bdIds : Msg → List BdId
  | .replyNode _ _ nodes => nodes
  | .replyNear _ _ _ nodes => nodes
  | .replyNewconn _ _ peerId _ => [peerId]
  | .askConn _ _ _ peerId => [peerId]
  | _ => []

/-- What the builders are promised: tokens that fit and internet addresses. -/
structure ArgsOk (m : Msg) : Prop where
  tokens : ∀ tok ∈ m.tokens, tok.len ≤ bitdhtTokenMaxLen
  bdIds : ∀ id ∈ m.bdIds, id.addr.sinFamily = afInet

/-- The extraction functions find the arguments of `m` in `n`. -/
def RecoveredFrom (n : BeNode) : Msg → Prop
  | .ping tid id =>
      IsToken (beMsgGetDictNode n (ascii "t")) tid ∧ IsNodeId (beMsgGetIn n "a" "id") id
  | .pong tid id vid =>
      IsToken (beMsgGetDictNode n (ascii "t")) tid ∧ IsNodeId (beMsgGetIn n "r" "id") id ∧
        IsToken (beMsgGetDictNode n (ascii "v")) vid
  | .findNode tid id target =>
      IsToken (beMsgGetDictNode n (ascii "t")) tid ∧ IsNodeId (beMsgGetIn n "a" "id") id ∧
        IsNodeId (beMsgGetIn n "a" "target") target
  | .replyNode tid id nodes =>
      IsToken (beMsgGetDictNode n (ascii "t")) tid ∧ IsNodeId (beMsgGetIn n "r" "id") id ∧
        IsBdIdList (beMsgGetIn n "r" "nodes") nodes
  | .getHash tid id infoHash =>
      IsToken (beMsgGetDictNode n (ascii "t")) tid ∧ IsNodeId (beMsgGetIn n "a" "id") id ∧
        IsNodeId (beMsgGetIn n "a" "info_hash") infoHash
  | .replyHash tid id token values =>
      IsToken (beMsgGetDictNode n (ascii "t")) tid ∧ IsNodeId (beMsgGetIn n "r" "id") id ∧
        IsToken (beMsgGetIn n "r" "token") token ∧ IsStringList (beMsgGetIn n "r" "values") values
  | .replyNear tid id token nodes =>
      IsToken (beMsgGetDictNode n (ascii "t")) tid ∧ IsNodeId (beMsgGetIn n "r" "id") id ∧
        IsToken (beMsgGetIn n "r" "token") token ∧ IsBdIdList (beMsgGetIn n "r" "nodes") nodes
  | .postHash tid id infoHash port token =>
      IsToken (beMsgGetDictNode n (ascii "t")) tid ∧ IsNodeId (beMsgGetIn n "a" "id") id ∧
        IsNodeId (beMsgGetIn n "a" "info_hash") infoHash ∧
        IsUInt32 (beMsgGetIn n "a" "port") port ∧ IsToken (beMsgGetIn n "a" "token") token
  | .replyAnnounce tid id =>
      IsToken (beMsgGetDictNode n (ascii "t")) tid ∧ IsNodeId (beMsgGetIn n "r" "id") id
  | .newconn tid id =>
      IsToken (beMsgGetDictNode n (ascii "t")) tid ∧ IsNodeId (beMsgGetIn n "a" "id") id
  | .replyNewconn tid id peerId started =>
      IsToken (beMsgGetDictNode n (ascii "t")) tid ∧ IsNodeId (beMsgGetIn n "r" "id") id ∧
        IsBdId (beMsgGetIn n "r" "pid") peerId ∧
        IsStarted (beMsgGetDictNode n (ascii "n")) started
  | .broadcastConn tid id nodeId peerId =>
      IsToken (beMsgGetDictNode n (ascii "t")) tid ∧ IsNodeId (beMsgGetIn n "a" "id") id ∧
        IsNodeId (beMsgGetIn n "a" "nid") nodeId ∧ IsNodeId (beMsgGetIn n "a" "pid") peerId
  | .askConn tid id nodeId peerId =>
      IsToken (beMsgGetDictNode n (ascii "t")) tid ∧ IsNodeId (beMsgGetIn n "a" "id") id ∧
        IsNodeId (beMsgGetIn n "a" "nid") nodeId ∧ IsBdId (beMsgGetIn n "a" "pid") peerId
  | .replyConn tid id started =>
      IsToken (beMsgGetDictNode n (ascii "t")) tid ∧ IsNodeId (beMsgGetIn n "r" "id") id ∧
        IsStarted (beMsgGetDictNode n (ascii "n")) started

end Msg

/-! ## Lookups -/

theorem beMsgGetDictNode_here {k s : String} (h : strcmpEq (ascii k) (ascii s) = true)
    (n : BeNode) (entries : List (String × BeNode)) :
    beMsgGetDictNode (dictOf ((s, n) :: entries)) (ascii k) = some n := by
  simp [dictOf, beMsgGetDictNode, h]

theorem beMsgGetDictNode_there {k s : String} (h : strcmpEq (ascii k) (ascii s) = false)
    (n : BeNode) (entries : List (String × BeNode)) :
    beMsgGetDictNode (dictOf ((s, n) :: entries)) (ascii k) =
      beMsgGetDictNode (dictOf entries) (ascii k) := by
  simp [dictOf, beMsgGetDictNode, h]

theorem beMsgGetDictNode_nil (k : List UInt8) : beMsgGetDictNode (dictOf []) k = none := rfl

theorem beMsgType_query {n query : BeNode}
    (hy : beMsgGetDictNode n (ascii "y") = some (strOf (ascii "q")))
    (hq : beMsgGetDictNode n (ascii "q") = some query) :
    beMsgType n = matchQuery (some query) queryNames := by
  have hY : beMsgGetY n = .ok .q := by
    rw [beMsgGetY, hy]
    rfl
  rw [beMsgType, hY, ← hq]
  rfl

theorem beMsgType_reply {n reply : BeNode}
    (hy : beMsgGetDictNode n (ascii "y") = some (strOf (ascii "r")))
    (hr : beMsgGetDictNode n (ascii "r") = some reply) :
    beMsgType n = .ok (replyType reply) := by
  have hY : beMsgGetY n = .ok .r := by
    rw [beMsgGetY, hy]
    rfl
  simp only [beMsgType, hY, ok_bind, hr, pure_eq_ok]

namespace Msg

/-- The name in a query; replies have none. -/
def query : Msg → Option String
  | .ping _ _ => some "ping"
  | .findNode _ _ _ => some "find_node"
  | .getHash _ _ _ => some "get_peers"
  | .postHash _ _ _ _ _ => some "announce_peer"
  | .newconn _ _ => some "newconn"
  | .broadcastConn _ _ _ _ => some "brconn"
  | .askConn _ _ _ _ => some "askconn"
  | _ => none

/-- The key of the body. -/
def bodyKey (m : Msg) : String :=
  if m.query.isSome then "a" else "r"

theorem tree_y (m : Msg) : beMsgGetDictNode m.tree (ascii "y") =
    some (strOf (ascii (if m.query.isSome then "q" else "r"))) := by
  cases m
  all_goals
    simp (disch := decide) only [tree, entries, query, beMsgGetDictNode_here,
      beMsgGetDictNode_there]
    rfl

theorem tree_q {m : Msg} {name : String} (h : m.query = some name) :
    beMsgGetDictNode m.tree (ascii "q") = some (strOf (ascii name)) := by
  -- a message without a query contradicts `h`
  cases m
  all_goals
    cases h
    try simp (disch := decide) only [tree, entries, beMsgGetDictNode_here,
      beMsgGetDictNode_there]

theorem tree_body (m : Msg) :
    beMsgGetDictNode m.tree (ascii m.bodyKey) = some (dictOf m.body) := by
  cases m
  all_goals
    simp only [bodyKey, query, Option.isSome_some, Option.isSome_none, if_true,
      Bool.false_eq_true, if_false]
    simp (disch := decide) only [tree, entries, beMsgGetDictNode_here, beMsgGetDictNode_there]

/-- The transaction id. -/
def tid : Msg → BdToken
  | .ping tid _ => tid
  | .pong tid _ _ => tid
  | .findNode tid _ _ => tid
  | .replyNode tid _ _ => tid
  | .getHash tid _ _ => tid
  | .replyHash tid _ _ _ => tid
  | .replyNear tid _ _ _ => tid
  | .postHash tid _ _ _ _ => tid
  | .replyAnnounce tid _ => tid
  | .newconn tid _ => tid
  | .replyNewconn tid _ _ _ => tid
  | .broadcastConn tid _ _ _ => tid
  | .askConn tid _ _ _ => tid
  | .replyConn tid _ _ => tid

/-- The id of the sender. -/
def id : Msg → BdNodeId
  | .ping _ id => id
  | .pong _ id _ => id
  | .findNode _ id _ => id
  | .replyNode _ id _ => id
  | .getHash _ id _ => id
  | .replyHash _ id _ _ => id
  | .replyNear _ id _ _ => id
  | .postHash _ id _ _ _ => id
  | .replyAnnounce _ id => id
  | .newconn _ id => id
  | .replyNewconn _ id _ _ => id
  | .broadcastConn _ id _ _ => id
  | .askConn _ id _ _ => id
  | .replyConn _ id _ => id

theorem tree_t (m : Msg) : beMsgGetDictNode m.tree (ascii "t") = some (strOf m.tid.data) := by
  cases m
  all_goals
    simp (disch := decide) only [tree, entries, tid, beMsgGetDictNode_here,
      beMsgGetDictNode_there]

theorem body_id (m : Msg) :
    beMsgGetDictNode (dictOf m.body) (ascii "id") = some (strOf m.id.data) := by
  cases m
  all_goals
    exact beMsgGetDictNode_here (by decide) _ _

theorem beMsgType_of_query {m : Msg} {name : String} (h : m.query = some name) :
    beMsgType m.tree = matchQuery (some (strOf (ascii name))) queryNames := by
  have hy := m.tree_y
  rw [h] at hy
  exact beMsgType_query hy (tree_q h)

theorem beMsgType_of_reply {m : Msg} (h : m.query = none) :
    beMsgType m.tree = .ok (replyType (dictOf m.body)) := by
  have hy := m.tree_y
  have hr := m.tree_body
  rw [bodyKey, h] at hr
  rw [h] at hy
  exact beMsgType_reply hy hr

/-- The type of the tree of a message is the type of its builder. -/
theorem beMsgType_tree (m : Msg) : beMsgType m.tree = .ok m.type := by
  cases hq : m.query with
  | some name =>
      rw [beMsgType_of_query hq]
      -- compare the name with those that `beMsgType` tries
      cases m
      all_goals
        cases hq
        try simp only [type]; decide +kernel
  | none =>
      rw [beMsgType_of_reply hq]
      -- look for the keys that tell the replies apart
      cases m
      all_goals
        cases hq
        try simp (disch := decide) [replyType, body, type, beMsgGetDictNode_here,
          beMsgGetDictNode_there, beMsgGetDictNode_nil]

/-! ## Arguments -/

theorem isToken_strOf {tok : BdToken} (h : tok.len ≤ bitdhtTokenMaxLen) :
    IsToken (some (strOf tok.data)) tok := by
  simp [IsToken, beMsgGetToken_strOf h]

theorem isNodeId_strOf (id : BdNodeId) : IsNodeId (some (strOf id.data)) id :=
  beMsgGetNodeId_strOf id

theorem isBdId_strOf {id : BdId} (h : id.addr.sinFamily = afInet) :
    IsBdId (some (strOf (encodeCompactNodeId id))) id := by
  simp [IsBdId, beMsgGetBdId_strOf h]

theorem isBdIdList_strOf {ids : List BdId} (h : ∀ id ∈ ids, id.addr.sinFamily = afInet) :
    IsBdIdList (some (strOf (ids.flatMap encodeCompactNodeId))) ids := by
  simp [IsBdIdList, beMsgGetListBdIds_strOf h]

theorem isStringList_strOf (values : List (List UInt8)) :
    IsStringList (some (.list (values.map strOf))) values := by
  simp [IsStringList, beMsgGetListStrings_strOf]

theorem isUInt32_toNat (x : UInt32) : IsUInt32 (some (.int x.toNat)) x :=
  beMsgGetUInt32_toNat x

theorem isStarted_strOf (started : Bool) :
    IsStarted (some (strOf (startedText started))) started := by
  cases started with
  | true =>
      exact (by decide : beMsgMatchString (some (strOf (ascii "y"))) (ascii "y") 1 = .ok true)
  | false =>
      exact (by decide : beMsgMatchString (some (strOf (ascii "n"))) (ascii "y") 1 = .ok false)

theorem getIn_tree {m : Msg} {key : String} {n : BeNode}
    (h : beMsgGetDictNode (dictOf m.body) (ascii key) = some n) :
    beMsgGetIn m.tree m.bodyKey key = some n := by
  rw [beMsgGetIn, tree_body, Option.bind_some, h]

theorem tid_mem_tokens (m : Msg) : m.tid ∈ m.tokens := by
  cases m <;> simp [tid, tokens]

section fields

variable {n : BeNode} {s₁ s₂ s₃ : String} {n₁ n₂ n₃ : BeNode} {entries : List (String × BeNode)}

theorem second_field (h : strcmpEq (ascii s₂) (ascii s₁) = false)
    (h' : strcmpEq (ascii s₂) (ascii s₂) = true) :
    beMsgGetDictNode (dictOf ((s₁, n₁) :: (s₂, n₂) :: entries)) (ascii s₂) = some n₂ := by
  rw [beMsgGetDictNode_there h, beMsgGetDictNode_here h']

theorem third_field (h₁ : strcmpEq (ascii s₃) (ascii s₁) = false)
    (h₂ : strcmpEq (ascii s₃) (ascii s₂) = false) (h' : strcmpEq (ascii s₃) (ascii s₃) = true) :
    beMsgGetDictNode (dictOf ((s₁, n₁) :: (s₂, n₂) :: (s₃, n₃) :: entries)) (ascii s₃) =
      some n₃ := by
  rw [beMsgGetDictNode_there h₁, second_field h₂ h']

theorem fourth_field {s₄ : String} {n₄ : BeNode} (h₁ : strcmpEq (ascii s₄) (ascii s₁) = false)
    (h₂ : strcmpEq (ascii s₄) (ascii s₂) = false) (h₃ : strcmpEq (ascii s₄) (ascii s₃) = false)
    (h' : strcmpEq (ascii s₄) (ascii s₄) = true) :
    beMsgGetDictNode (dictOf ((s₁, n₁) :: (s₂, n₂) :: (s₃, n₃) :: (s₄, n₄) :: entries))
      (ascii s₄) = some n₄ := by
  rw [beMsgGetDictNode_there h₁, third_field h₂ h₃ h']

end fields

/-- Every argument of a builder is found in the tree it encodes. -/
theorem recoveredFrom_tree {m : Msg} (h : m.ArgsOk) : m.RecoveredFrom m.tree := by
  -- every message has a transaction id, and the id of its sender in its body
  have ht : IsToken (beMsgGetDictNode m.tree (ascii "t")) m.tid := by
    rw [tree_t]
    exact isToken_strOf (h.tokens _ m.tid_mem_tokens)
  have hid : IsNodeId (beMsgGetIn m.tree m.bodyKey "id") m.id := by
    rw [getIn_tree m.body_id]
    exact isNodeId_strOf m.id
  cases m with
  | ping tid id =>
      exact ⟨ht, hid⟩
  | pong tid id vid =>
      have hv : beMsgGetDictNode (pong tid id vid).tree (ascii "v") = some (strOf vid.data) :=
        fourth_field (by decide) (by decide) (by decide) (by decide)
      refine ⟨ht, hid, ?_⟩
      rw [hv]
      exact isToken_strOf (h.tokens vid (by simp [tokens]))
  | findNode tid id target =>
      have htarget : beMsgGetIn (findNode tid id target).tree "a" "target" = _ :=
        getIn_tree (second_field (by decide) (by decide))
      refine ⟨ht, hid, ?_⟩
      rw [htarget]
      exact isNodeId_strOf target
  | replyNode tid id nodes =>
      have hnodes : beMsgGetIn (replyNode tid id nodes).tree "r" "nodes" = _ :=
        getIn_tree (second_field (by decide) (by decide))
      refine ⟨ht, hid, ?_⟩
      rw [hnodes]
      exact isBdIdList_strOf h.bdIds
  | getHash tid id infoHash =>
      have hhash : beMsgGetIn (getHash tid id infoHash).tree "a" "info_hash" = _ :=
        getIn_tree (second_field (by decide) (by decide))
      refine ⟨ht, hid, ?_⟩
      rw [hhash]
      exact isNodeId_strOf infoHash
  | replyHash tid id token values =>
      have htoken : beMsgGetIn (replyHash tid id token values).tree "r" "token" = _ :=
        getIn_tree (second_field (by decide) (by decide))
      have hvalues : beMsgGetIn (replyHash tid id token values).tree "r" "values" = _ :=
        getIn_tree (third_field (by decide) (by decide) (by decide))
      refine ⟨ht, hid, ?_, ?_⟩
      · rw [htoken]
        exact isToken_strOf (h.tokens token (by simp [tokens]))
      · rw [hvalues]
        exact isStringList_strOf values
  | replyNear tid id token nodes =>
      have htoken : beMsgGetIn (replyNear tid id token nodes).tree "r" "token" = _ :=
        getIn_tree (second_field (by decide) (by decide))
      have hnodes : beMsgGetIn (replyNear tid id token nodes).tree "r" "nodes" = _ :=
        getIn_tree (third_field (by decide) (by decide) (by decide))
      refine ⟨ht, hid, ?_, ?_⟩
      · rw [htoken]
        exact isToken_strOf (h.tokens token (by simp [tokens]))
      · rw [hnodes]
        exact isBdIdList_strOf h.bdIds
  | postHash tid id infoHash port token =>
      have hhash : beMsgGetIn (postHash tid id infoHash port token).tree "a" "info_hash" = _ :=
        getIn_tree (second_field (by decide) (by decide))
      have hport : beMsgGetIn (postHash tid id infoHash port token).tree "a" "port" = _ :=
        getIn_tree (third_field (by decide) (by decide) (by decide))
      have htoken : beMsgGetIn (postHash tid id infoHash port token).tree "a" "token" = _ :=
        getIn_tree (fourth_field (by decide) (by decide) (by decide) (by decide))
      refine ⟨ht, hid, ?_, ?_, ?_⟩
      · rw [hhash]
        exact isNodeId_strOf infoHash
      · rw [hport]
        exact isUInt32_toNat port
      · rw [htoken]
        exact isToken_strOf (h.tokens token (by simp [tokens]))
  | replyAnnounce tid id =>
      exact ⟨ht, hid⟩
  | newconn tid id =>
      exact ⟨ht, hid⟩
  | replyNewconn tid id peerId started =>
      have hpid : beMsgGetIn (replyNewconn tid id peerId started).tree "r" "pid" = _ :=
        getIn_tree (third_field (by decide) (by decide) (by decide))
      have hn : beMsgGetDictNode (replyNewconn tid id peerId started).tree (ascii "n") =
          some (strOf (startedText started)) :=
        fourth_field (by decide) (by decide) (by decide) (by decide)
      refine ⟨ht, hid, ?_, ?_⟩
      · rw [hpid]
        exact isBdId_strOf (h.bdIds peerId (by simp [bdIds]))
      · rw [hn]
        exact isStarted_strOf started
  | broadcastConn tid id nodeId peerId =>
      have hnid : beMsgGetIn (broadcastConn tid id nodeId peerId).tree "a" "nid" = _ :=
        getIn_tree (second_field (by decide) (by decide))
      have hpid : beMsgGetIn (broadcastConn tid id nodeId peerId).tree "a" "pid" = _ :=
        getIn_tree (third_field (by decide) (by decide) (by decide))
      refine ⟨ht, hid, ?_, ?_⟩
      · rw [hnid]
        exact isNodeId_strOf nodeId
      · rw [hpid]
        exact isNodeId_strOf peerId
  | askConn tid id nodeId peerId =>
      have hnid : beMsgGetIn (askConn tid id nodeId peerId).tree "a" "nid" = _ :=
        getIn_tree (second_field (by decide) (by decide))
      have hpid : beMsgGetIn (askConn tid id nodeId peerId).tree "a" "pid" = _ :=
        getIn_tree (third_field (by decide) (by decide) (by decide))
      refine ⟨ht, hid, ?_, ?_⟩
      · rw [hnid]
        exact isNodeId_strOf nodeId
      · rw [hpid]
        exact isBdId_strOf (h.bdIds peerId (by simp [bdIds]))
  | replyConn tid id started =>
      have hn : beMsgGetDictNode (replyConn tid id started).tree (ascii "n") =
          some (strOf (startedText started)) :=
        fourth_field (by decide) (by decide) (by decide) (by decide)
      refine ⟨ht, hid, ?_⟩
      rw [hn]
      exact isStarted_strOf started

theorem body_encodable (m : Msg) : ∀ e ∈ m.body, Encodable e.2 := by
  cases m
  case replyHash tid id token values =>
    have hvalues : Encodable (.list (values.map strOf)) := by
      -- a list of values is a list of strings
      refine .list ?_
      intro n hn
      rcases List.mem_map.1 hn with ⟨s, _, rfl⟩
      exact .str s
    simp only [body, List.forall_mem_cons]
    exact ⟨.str _, .str _, hvalues, by simp⟩
  case postHash tid id infoHash port token =>
    have hport : Encodable (.int port.toNat) := by
      -- a port is far inside `long long`
      have hlt : port.toNat < 4294967296 := port.toNat_lt
      refine .int ?_ ?_
      · rw [llongMin]
        omega
      · rw [llongMax]
        omega
    simp only [body, List.forall_mem_cons]
    exact ⟨.str _, .str _, hport, .str _, by simp⟩
  all_goals
    simp only [body, List.forall_mem_cons]
    simp [strOf, Encodable.str]

theorem Encodable_dictOf {entries : List (String × BeNode)}
    (hkeys : ∀ e ∈ entries, 0 ∉ ascii e.1) (hvals : ∀ e ∈ entries, Encodable e.2) :
    Encodable (dictOf entries) := by
  refine .dict ?_ ?_
  · intro e he
    rcases List.mem_map.1 he with ⟨e', he', rfl⟩
    exact List.forall_mem_ne'.2 (hkeys e' he')
  · intro e he
    rcases List.mem_map.1 he with ⟨e', he', rfl⟩
    exact hvals e' he'

theorem tree_encodable (m : Msg) : Encodable m.tree := by
  have hbody : Encodable (dictOf m.body) :=
    Encodable_dictOf (@keys_ne_zero m (.int 0)).1 m.body_encodable
  refine Encodable_dictOf (@keys_ne_zero m _).2 ?_
  cases m
  all_goals
    simp only [entries, List.forall_mem_cons]
    simp [strOf, Encodable.str, hbody]

/-- A message that fits its buffer is decoded to a tree of the right type that holds every argument
of the builder. -/
theorem build_recovered {m : Msg} (h : m.ArgsOk) {msg : List UInt8} {avail : Int}
    (hfit : ((bencode m.tree).length : Int) < avail) (hmsg : avail ≤ msg.length)
    (hint : avail ≤ intMax) :
    ∃ w rest n, m.build msg avail = .ok (w ++ rest, w.length) ∧
      (∀ z, beDecoden (w ++ z) w.length = .ok (some n)) ∧
      beMsgType n = .ok m.type ∧ m.RecoveredFrom n := by
  -- the encoder writes the tree, and the decoder reads it
  rcases m.tree_encodable.roundTrip hfit hmsg hint with ⟨rest, hrun, _, hdec⟩
  refine ⟨bencode m.tree, rest, m.tree, ?_, ?_, m.beMsgType_tree, recoveredFrom_tree h⟩
  · rw [build_eq, hrun]
  · intro z
    rw [beDecoden, hdec z]
    rfl

/-- A reply with one compact id in it. -/
theorem build_recovered_reply :
    ∃ w rest n, (Msg.replyNode ⟨[97, 0]⟩ ⟨List.replicate 20 1, rfl⟩
        [⟨⟨afInet, 16777343, 8080⟩, ⟨List.replicate 20 2, rfl⟩⟩]).build (List.replicate 256 0) 256 =
          .ok (w ++ rest, w.length) ∧
      (∀ z, beDecoden (w ++ z) w.length = .ok (some n)) ∧
      beMsgType n = .ok .replyNode ∧
      (Msg.replyNode ⟨[97, 0]⟩ ⟨List.replicate 20 1, rfl⟩
        [⟨⟨afInet, 16777343, 8080⟩, ⟨List.replicate 20 2, rfl⟩⟩]).RecoveredFrom n :=
  build_recovered ⟨by decide, by decide⟩ (by decide +kernel)
    (by rw [List.length_replicate]; exact Int.le_refl _) (by decide)

end Msg

end BitDht
