import BitDht.Bencode.Decode
import BitDht.Iface

/-!
# Parse — the parsing half of `bdmsgs.cc`

Every function here takes a node that its caller has tested for null, except where the argument is
an `Option`: there the code passes on a lookup it did not test.
-/

namespace BitDht

open Outcome

/-! ## Looking things up -/

/-- `beMsgGetDictNode` -/
def beMsgGetDictNode (node : BeNode) (key : List UInt8) : Option BeNode :=
  match node with
  | .dict d => (d.find? (fun e => strcmpEq key e.1)).map Prod.snd
  | _ => none

/-- `beMsgMatchString` -/
def beMsgMatchString (n : Option BeNode) (str : List UInt8) (len : Nat) : Exec Bool :=
  match n with
  | none => .error .nullNode
  | some (.str s) =>
      if len ≠ beStrLen s then
        pure false
      else
        pure ((s.getD []).take len == str.take len)
  | some _ => pure false

/-- `BE_Y_UNKNOWN`, `BE_Y_R` and `BE_Y_Q` -/
inductive BeY
  | unknown
  | r
  | q
  deriving DecidableEq, Repr

/-- `val->val.s[0]`; every string that is there has a NUL behind it. -/
def firstByte : Option (List UInt8) → Exec UInt8
  | none => .error .nullString
  | some s => pure (s.headD 0)

/-- `beMsgGetY` -/
def beMsgGetY (n : BeNode) : Exec BeY :=
  match beMsgGetDictNode n (ascii "y") with
  | none => .error .nullNode
  | some (.str s) => do
      let c ← firstByte s
      if c = chr 'q' then pure .q
      else if c = chr 'r' then pure .r
      else pure .unknown
  | some _ => pure .unknown

/-- `BITDHT_MSG_TYPE` -/
inductive MsgType
  | unknown
  | ping
  | pong
  | findNode
  | replyNode
  | getHash
  | replyHash
  | replyNear
  | postHash
  | replyPost
  | newconn
  | replyNewconn
  | broadcastConn
  | askConn
  | replyConn
  deriving DecidableEq, Repr

/-- The queries that `beMsgType` tells apart, in the order in which it tries them. -/
def queryNames : List (List UInt8 × MsgType) :=
  -- the source tries the name of POST_HASH twice
  [(ascii "ping", .ping), (ascii "find_node", .findNode), (ascii "get_peers", .getHash),
    (ascii "announce_peer", .postHash), (ascii "announce_peer", .postHash),
    (ascii "newconn", .newconn), (ascii "brconn", .broadcastConn), (ascii "askconn", .askConn)]

/-- The chain of `beMsgMatchString(query, ..)` tests. -/
def matchQuery (query : Option BeNode) : List (List UInt8 × MsgType) → Exec MsgType
  | [] => pure .unknown
  | (name, type) :: names => do
      if ← beMsgMatchString query name name.length then pure type
      else matchQuery query names

/-- The type of a reply, from the keys that are there. -/
def replyType (reply : BeNode) : MsgType :=
  let id := beMsgGetDictNode reply (ascii "id")
  let token := beMsgGetDictNode reply (ascii "token")
  let values := beMsgGetDictNode reply (ascii "values")
  let nodes := beMsgGetDictNode reply (ascii "nodes")
  let newconn := beMsgGetDictNode reply (ascii "newconn")
  let askconn := beMsgGetDictNode reply (ascii "askconn")
  if id.isNone then .unknown
  else if token.isSome && values.isSome then .replyHash
  else if token.isSome && nodes.isSome then .replyNear
  else if nodes.isSome then .replyNode
  else if newconn.isSome then .replyNewconn
  else if askconn.isSome then .replyConn
  else .pong

/-- `beMsgType` -/
def beMsgType (n : BeNode) : Exec MsgType := do
  match ← beMsgGetY n with
  | .unknown => pure .unknown
  | .q => matchQuery (beMsgGetDictNode n (ascii "q")) queryNames
  | .r =>
      match beMsgGetDictNode n (ascii "r") with
      | none => pure .unknown
      | some reply => pure (replyType reply)

/-! ## Extracting values -/

/-- The copy loop of `beMsgGetToken` from index `i` on. -/
def copyToken (i : Nat) : List UInt8 → Exec (List UInt8)
  | [] => pure []
  | b :: bs =>
      if i < bitdhtTokenMaxLen then do
        let rest ← copyToken (i + 1) bs
        pure (b :: rest)
      else
        .error .tokenOverrun

/-- The loop runs over the array exactly when the string does not fit behind index `i`. -/
theorem copyToken_cases (i : Nat) (s : List UInt8) (hi : i ≤ bitdhtTokenMaxLen) :
    copyToken i s = if bitdhtTokenMaxLen < i + s.length then .error .tokenOverrun else .ok s := by
  induction s generalizing i with
  | nil =>
      have hfits : ¬ bitdhtTokenMaxLen < i + 0 := by omega
      rw [List.length_nil, if_neg hfits]
      rfl
  | cons b bs ih =>
      by_cases hlt : i < bitdhtTokenMaxLen
      -- room for this byte: the next index decides
      · have hnext := ih (i + 1) hlt
        have hlen : i + 1 + bs.length = i + (b :: bs).length := by
          rw [List.length_cons]
          omega
        rw [hlen] at hnext
        simp only [copyToken, if_pos hlt, hnext]
        split
        · rfl
        · rfl
      -- the array is full, and this byte is already too many
      · have hlong : bitdhtTokenMaxLen < i + (b :: bs).length := by
          rw [List.length_cons]
          omega
        rw [copyToken, if_neg hlt, if_pos hlong]

/-- `beMsgGetToken`: the token it fills, if it returns 1. -/
def beMsgGetToken : BeNode → Exec (Option BdToken)
  | .str s => do
      let data ← copyToken 0 (s.getD [])
      pure (some { data := data })
  | _ => pure none

/-- `beMsgGetNodeId`: the id it fills, if it returns 1. -/
def beMsgGetNodeId : BeNode → Option BdNodeId
  | .str (some s) => if h : s.length = bitdhtKeyLen then some { data := s, size := h } else none
  | _ => none

/-- The copy of an id out of a longer block. -/
def readNodeId (enc : List UInt8) : Exec BdNodeId :=
  if h : bitdhtKeyLen ≤ enc.length then
    .ok { data := enc.take bitdhtKeyLen, size := by simp [h] }
  else
    .error .overread

/-- `decodeCompactPeerId` -/
def decodeCompactPeerId (enc : List UInt8) (len : Nat) : Exec (Option SockaddrIn) :=
  if len < bitdhtCompactPeerIdLen then
    pure none
  else do
    let ip ← loadU32 enc
    let port ← loadU16 (enc.drop 4)
    pure (some { sinFamily := afInet, sAddr := ip, sinPort := port })

/-- `decodeCompactNodeId` -/
def decodeCompactNodeId (enc : List UInt8) (len : Nat) : Exec (Option BdId) :=
  if len < bitdhtCompactNodeIdLen then
    pure none
  else do
    let id ← readNodeId enc
    let ipenc := enc.drop (bitdhtCompactNodeIdLen - bitdhtCompactPeerIdLen)
    match ← decodeCompactPeerId ipenc bitdhtCompactPeerIdLen with
    | none => pure none
    | some addr => pure (some { addr := addr, id := id })

/-- `beMsgGetBdId` -/
def beMsgGetBdId : BeNode → Exec (Option BdId)
  | .str s => decodeCompactNodeId (s.getD []) (beStrLen s)
  | _ => pure none

/-- The loop of `beMsgGetListBdIds` over `count` ids. -/
def decodeCompactIds (enc : List UInt8) : Nat → Exec (List BdId)
  | 0 => pure []
  | count + 1 => do
      let id ← decodeCompactNodeId enc bitdhtCompactNodeIdLen
      let ids ← decodeCompactIds (enc.drop bitdhtCompactNodeIdLen) count
      pure (id.toList ++ ids)

/-- `beMsgGetListBdIds`: what it appends to `nodes`, if it returns 1. -/
def beMsgGetListBdIds : BeNode → Exec (Option (List BdId))
  | .str s => do
      let ids ← decodeCompactIds (s.getD []) (beStrLen s / bitdhtCompactNodeIdLen)
      pure (some ids)
  | _ => pure none

/-- The loop of `beMsgGetListStrings`: whether it ends at the end of the list, and `values`. -/
def pushStrings (values : List (List UInt8)) : List BeNode → Bool × List (List UInt8)
  | [] => (true, values)
  | .str s :: l => pushStrings (values ++ [s.getD []]) l
  | _ :: _ => (false, values)

/-- `beMsgGetListStrings`: the returned flag and what it appended to `values` until then. -/
def beMsgGetListStrings : BeNode → Bool × List (List UInt8)
  | .list l => pushStrings [] l
  | _ => (false, [])

/-- `beMsgGetUInt32` -/
def beMsgGetUInt32 : BeNode → Option UInt32
  | .int i => some (UInt32.ofNat (i % 4294967296).toNat)
  | _ => none

/-! ## What can be classified -/

/-- `beMsgType` gets through: the node has an entry `y`, this is not a string without data, and a
query has an entry `q`. -/
def Classifiable (n : BeNode) : Prop :=
  match beMsgGetDictNode n (ascii "y") with
  | none => False
  | some (.str none) => False
  | some (.str (some s)) => s.head? = some (chr 'q') → beMsgGetDictNode n (ascii "q") ≠ none
  | some _ => True

theorem beMsgMatchString_some (n : BeNode) (str : List UInt8) (len : Nat) :
    ∃ b, beMsgMatchString (some n) str len = .ok b := by
  cases n with
  | str s =>
      simp only [beMsgMatchString]
      split
      · exact ⟨false, rfl⟩
      · exact ⟨_, rfl⟩
  | int i =>
      exact ⟨false, rfl⟩
  | list l =>
      exact ⟨false, rfl⟩
  | dict d =>
      exact ⟨false, rfl⟩

theorem matchQuery_some (n : BeNode) (names : List (List UInt8 × MsgType)) :
    ∃ type, matchQuery (some n) names = .ok type := by
  induction names with
  | nil =>
      exact ⟨.unknown, rfl⟩
  | cons e names ih =>
      rcases beMsgMatchString_some n e.1 e.1.length with ⟨b, hb⟩
      rcases ih with ⟨type, htype⟩
      cases b with
      | true =>
          exact ⟨e.2, by simp [matchQuery, hb]⟩
      | false =>
          exact ⟨type, by simp [matchQuery, hb, htype]⟩

theorem matchQuery_none : matchQuery none queryNames = .error .nullNode := rfl

/-- `beMsgType` returns a type on exactly the nodes that can be classified. -/
theorem beMsgType_ok_iff {n : BeNode} : (∃ type, beMsgType n = .ok type) ↔ Classifiable n := by
  rcases hy : beMsgGetDictNode n (ascii "y") with _ | y
  · simp [beMsgType, beMsgGetY, Classifiable, hy]
  · cases y with
    | str s =>
        cases s with
        | none =>
            simp [beMsgType, beMsgGetY, Classifiable, hy, firstByte]
        | some s =>
            -- behind an empty string stands its NUL, which is neither letter
            have hhead : s.headD 0 = chr 'q' ↔ s.head? = some (chr 'q') := by
              cases s <;> simp [chr]
            by_cases hq : s.headD 0 = chr 'q'
            · simp only [beMsgType, beMsgGetY, Classifiable, hy, firstByte, pure_eq_ok, ok_bind, hq,
                if_true, ← hhead, forall_const]
              -- only a query goes on to a node that it did not test
              rcases hquery : beMsgGetDictNode n (ascii "q") with _ | query
              · simp [matchQuery_none]
              · simpa using matchQuery_some query queryNames
            · have hclass : Classifiable n := by
                simp only [Classifiable, hy, ← hhead]
                exact fun h => absurd h hq
              refine iff_of_true ?_ hclass
              simp only [beMsgType, beMsgGetY, hy, firstByte, pure_eq_ok, ok_bind, hq, if_false]
              by_cases hr : s.headD 0 = chr 'r'
              · simp only [hr, if_true, ok_bind]
                rcases beMsgGetDictNode n (ascii "r") with _ | reply
                · exact ⟨_, rfl⟩
                · exact ⟨_, rfl⟩
              · simp only [hr, if_false, ok_bind]
                exact ⟨_, rfl⟩
    | int i =>
        exact iff_of_true ⟨.unknown, by simp [beMsgType, beMsgGetY, hy]⟩
          (by simp [Classifiable, hy])
    | list l =>
        exact iff_of_true ⟨.unknown, by simp [beMsgType, beMsgGetY, hy]⟩
          (by simp [Classifiable, hy])
    | dict d =>
        exact iff_of_true ⟨.unknown, by simp [beMsgType, beMsgGetY, hy]⟩
          (by simp [Classifiable, hy])

end BitDht
