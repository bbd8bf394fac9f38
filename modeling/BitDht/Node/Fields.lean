import BitDht.Node.RecvPkt

/-!
# Fields — what `recvPkt` finds in a decoded packet

The blocks of `recvPkt` have three outcomes: an overlong string runs over the array of its token, a
missing key drops the packet, and everything else ends in the switch with the fields
`fieldsOf`, whether or not they could be extracted (`parseFields_ok`).
-/

namespace BitDht

open Outcome Recv

/-! ## Tokens -/

/-- A string that does not fit in a `bdToken`. -/
def Overlong : BeNode → Prop
  | .str (some s) => bitdhtTokenMaxLen < s.length
  | _ => False

instance : DecidablePred Overlong
  | .str (some s) => inferInstanceAs (Decidable (bitdhtTokenMaxLen < s.length))
  | .str none => isFalse id
  | .int _ => isFalse id
  | .list _ => isFalse id
  | .dict _ => isFalse id

/-- The token after `beMsgGetToken` was called on it, when it was empty before. -/
def tokenOf : BeNode → BdToken
  | .str s => { data := s.getD [] }
  | _ => BdToken.empty

theorem beMsgGetToken_str (s : Option (List UInt8)) :
    beMsgGetToken (.str s) = if Overlong (.str s) then .error .tokenOverrun
      else .ok (some (tokenOf (.str s))) := by
  have hcopy := copyToken_cases 0 (s.getD []) (Nat.zero_le _)
  rw [Nat.zero_add] at hcopy
  simp only [beMsgGetToken, hcopy]
  cases s with
  | none =>
      rfl
  | some s =>
      by_cases hlong : bitdhtTokenMaxLen < s.length
      · simp [Overlong, hlong]
      · simp [Overlong, tokenOf, hlong]

theorem fillToken_empty (n : BeNode) : fillToken n BdToken.empty =
    if Overlong n then .error .tokenOverrun else .ok (tokenOf n) := by
  cases n with
  | str s =>
      rw [fillToken, beMsgGetToken_str]
      split
      · rfl
      · rfl
  | int i =>
      rfl
  | list l =>
      rfl
  | dict d =>
      rfl

/-- Filling a token twice from the same node changes nothing. -/
theorem fillToken_again {n : BeNode} (h : ¬ Overlong n) :
    fillToken n (tokenOf n) = .ok (tokenOf n) := by
  cases n with
  | str s =>
      rw [fillToken, beMsgGetToken_str, if_neg h]
      rfl
  | int i =>
      rfl
  | list l =>
      rfl
  | dict d =>
      rfl

/-- The block of the token fills the transaction id again, from the same node. -/
theorem refillTransId_again {n : BeNode} (h : ¬ Overlong n) (beToken : Option BeNode) :
    refillTransId beToken n (tokenOf n) = .ok (tokenOf n) := by
  rcases beToken with _ | tok
  · rfl
  · exact fillToken_again h

theorem len_tokenOf_le {n : BeNode} (h : ¬ Overlong n) : (tokenOf n).len ≤ bitdhtTokenMaxLen := by
  cases n with
  | str s =>
      cases s with
      | none =>
          exact Nat.zero_le _
      | some s =>
          exact not_lt.1 h
  | int i =>
      exact Nat.zero_le _
  | list l =>
      exact Nat.zero_le _
  | dict d =>
      exact Nat.zero_le _

/-! ## Ids with an address -/

theorem loadU32_of_le {s : List UInt8} (h : 4 ≤ s.length) : ∃ x, loadU32 s = .ok x := by
  match s, h with
  | _ :: _ :: _ :: _ :: _, _ => exact ⟨_, rfl⟩

theorem loadU16_of_le {s : List UInt8} (h : 2 ≤ s.length) : ∃ x, loadU16 s = .ok x := by
  match s, h with
  | _ :: _ :: _, _ => exact ⟨_, rfl⟩

theorem decodeCompactNodeId_of_le {s : List UInt8} {len : Nat} (hlen : bitdhtCompactNodeIdLen ≤ len)
    (hs : bitdhtCompactNodeIdLen ≤ s.length) :
    ∃ id, decodeCompactNodeId s len = .ok (some id) := by
  simp only [bitdhtCompactNodeIdLen] at hlen hs
  have hid : bitdhtKeyLen ≤ s.length := by
    simp only [bitdhtKeyLen]
    omega
  -- the address begins at 20 and the port at 24, and the port ends at 26
  rcases loadU32_of_le (by rw [List.length_drop]; omega : 4 ≤ (s.drop 20).length) with ⟨ip, hip⟩
  rcases loadU16_of_le (by rw [List.length_drop]; omega : 2 ≤ (s.drop 24).length) with ⟨port, hport⟩
  refine ⟨⟨⟨afInet, ip, port⟩, ⟨s.take bitdhtKeyLen, by simp [hid]⟩⟩, ?_⟩
  have hpeer : decodeCompactPeerId (s.drop 20) bitdhtCompactPeerIdLen =
      .ok (some ⟨afInet, ip, port⟩) := by
    simp [decodeCompactPeerId, hip, hport]
  have hlong : ¬ len < 26 := by omega
  simp [decodeCompactNodeId, bitdhtCompactNodeIdLen, hlong, readNodeId, hid, bitdhtCompactPeerIdLen]
  simp [bitdhtCompactPeerIdLen] at hpeer
  simp [hpeer]

/-- A compact id is extracted from the strings that are long enough for one. -/
def HoldsBdId : BeNode → Prop
  | .str (some s) => bitdhtCompactNodeIdLen ≤ s.length
  | _ => False

theorem beMsgGetBdId_cases (n : BeNode) :
    (HoldsBdId n ∧ ∃ id, beMsgGetBdId n = .ok (some id)) ∨
      (¬ HoldsBdId n ∧ beMsgGetBdId n = .ok none) := by
  cases n with
  | str s =>
      cases s with
      | none =>
          exact .inr ⟨id, rfl⟩
      | some s =>
          by_cases hlen : bitdhtCompactNodeIdLen ≤ s.length
          · exact .inl ⟨hlen, decodeCompactNodeId_of_le hlen hlen⟩
          · refine .inr ⟨hlen, ?_⟩
            rw [beMsgGetBdId, decodeCompactNodeId, beStrLen, if_pos (not_le.1 hlen)]
            rfl
  | int i =>
      exact .inr ⟨id, rfl⟩
  | list l =>
      exact .inr ⟨id, rfl⟩
  | dict d =>
      exact .inr ⟨id, rfl⟩

/-- The id that `beMsgGetBdId` fills, if the node is there and it fills one. -/
def bdIdOf (n : Option BeNode) : Option BdId :=
  match n.map beMsgGetBdId with
  | some (.ok id) => id
  | _ => none

theorem beMsgGetBdId_eq (n : BeNode) : beMsgGetBdId n = .ok (bdIdOf (some n)) := by
  rcases beMsgGetBdId_cases n with ⟨_, id, hid⟩ | ⟨_, hid⟩
  · simp [bdIdOf, hid]
  · simp [bdIdOf, hid]

theorem bdIdOf_ne_none_iff {n : BeNode} : bdIdOf (some n) ≠ none ↔ HoldsBdId n := by
  rcases beMsgGetBdId_cases n with ⟨hholds, id, hid⟩ | ⟨hno, hid⟩
  · simp [bdIdOf, hid, hholds]
  · simp [bdIdOf, hid, hno]

theorem decodeCompactIds_of_le {s : List UInt8} {count : Nat}
    (h : count * bitdhtCompactNodeIdLen ≤ s.length) : ∃ ids, decodeCompactIds s count = .ok ids := by
  induction count generalizing s with
  | zero =>
      exact ⟨[], rfl⟩
  | succ count ih =>
      rw [Nat.succ_mul] at h
      -- one id is taken, and the rest is long enough for the others
      rcases decodeCompactNodeId_of_le le_rfl (by omega : bitdhtCompactNodeIdLen ≤ s.length)
        with ⟨id, hid⟩
      rcases @ih (s.drop bitdhtCompactNodeIdLen) (by rw [List.length_drop]; omega) with ⟨ids, hids⟩
      exact ⟨id :: ids, by simp [decodeCompactIds, hid, hids]⟩

theorem beMsgGetListBdIds_str (s : Option (List UInt8)) :
    ∃ ids, beMsgGetListBdIds (.str s) = .ok (some ids) := by
  have hlen : (s.getD []).length = beStrLen s := length_getD s
  rcases @decodeCompactIds_of_le (s.getD []) (beStrLen s / bitdhtCompactNodeIdLen)
    (by rw [hlen]; exact Nat.div_mul_le_self _ _) with ⟨ids, hids⟩
  exact ⟨ids, by simp [beMsgGetListBdIds, hids]⟩

theorem fillNodes_ok (n : Option BeNode) : ∃ nodes, fillNodes n = .ok nodes := by
  cases n with
  | none =>
      exact ⟨[], rfl⟩
  | some n =>
      cases n with
      | str s =>
          rcases beMsgGetListBdIds_str s with ⟨ids, hids⟩
          exact ⟨ids, by simp [fillNodes, hids]⟩
      | int i =>
          exact ⟨[], rfl⟩
      | list l =>
          exact ⟨[], rfl⟩
      | dict d =>
          exact ⟨[], rfl⟩

/-- The node list after `beMsgGetListBdIds` was called on it. -/
def nodesOf (n : Option BeNode) : List BdId :=
  match fillNodes n with
  | .ok nodes => nodes
  | .error _ => []

theorem fillNodes_eq (n : Option BeNode) : fillNodes n = .ok (nodesOf n) := by
  rcases fillNodes_ok n with ⟨nodes, hn⟩
  rw [nodesOf, hn]

/-! ## The blocks together -/

/-- The node of the version, which only a PONG has. -/
def versionNode (node : BeNode) (beType : MsgType) : Option BeNode :=
  if beType = .pong then beMsgGetDictNode node (ascii "v") else none

/-- The keys of the body that must be there besides the id, in the order of the blocks. -/
def laterKeys (beType : MsgType) : List String :=
  (targetKey beType).toList ++ (nodesKey beType).toList ++ (valuesKey beType).toList ++
    (tokenKey beType).toList ++ (portKey beType).toList

/-- The node under a key that only some types have. -/
def field (beData : BeNode) (key : Option String) : Option BeNode :=
  key.bind (fun k => beMsgGetDictNode beData (ascii k))

/-- What the switch finds in the local variables. -/
def fieldsOf (node : BeNode) (beType : MsgType) (beTransId beData beId : BeNode) : Fields where
  transId := tokenOf beTransId
  id := beMsgGetNodeId beId
  versionId := (versionNode node beType).map tokenOf
  targetInfoHash := (field beData (targetKey beType)).bind beMsgGetNodeId
  nodes := nodesOf (field beData (nodesKey beType))
  values := fillValues (field beData (valuesKey beType))
  token := BdToken.empty
  port := (field beData (portKey beType)).bind beMsgGetUInt32

theorem lookupFor_of_present {beData : BeNode} {key : Option String}
    (h : ∀ k ∈ key.toList, beMsgGetDictNode beData (ascii k) ≠ none) :
    lookupFor beData key = pure (field beData key) := by
  cases key with
  | none =>
      rfl
  | some k =>
      rcases hn : beMsgGetDictNode beData (ascii k) with _ | n
      · exact absurd hn (h k (by simp))
      · simp only [lookupFor, field, need, Option.bind_some, hn]
        rfl

theorem lookupFor_of_missing {beData : BeNode} {key : Option String}
    (h : ¬ ∀ k ∈ key.toList, beMsgGetDictNode beData (ascii k) ≠ none) :
    lookupFor beData key = OptionT.mk (.ok none) := by
  cases key with
  | none =>
      exact absurd (by simp) h
  | some k =>
      have hn : beMsgGetDictNode beData (ascii k) = none := by simpa using h
      simp only [lookupFor, need, hn]
      rfl

section parse

variable {node : BeNode} {beType : MsgType} {q : Bool} {beTransId beData beId : BeNode}

theorem parseFields_no_transId (h : beMsgGetDictNode node (ascii "t") = none) :
    (parseFields node beType q).run = .ok none := by
  simp [parseFields, need, h]

theorem parseFields_overlong (ht : beMsgGetDictNode node (ascii "t") = some beTransId)
    (h : Overlong beTransId) : (parseFields node beType q).run = .error .tokenOverrun := by
  simp [parseFields, need, call, ht, fillToken_empty, h]

theorem parseFields_no_data (ht : beMsgGetDictNode node (ascii "t") = some beTransId)
    (hfits : ¬ Overlong beTransId)
    (h : beMsgGetDictNode node (ascii (if q then "a" else "r")) = none) :
    (parseFields node beType q).run = .ok none := by
  simp [parseFields, need, call, ht, fillToken_empty, hfits, h]

theorem parseFields_no_id (ht : beMsgGetDictNode node (ascii "t") = some beTransId)
    (hfits : ¬ Overlong beTransId)
    (hdata : beMsgGetDictNode node (ascii (if q then "a" else "r")) = some beData)
    (h : beMsgGetDictNode beData (ascii "id") = none) :
    (parseFields node beType q).run = .ok none := by
  simp [parseFields, need, call, ht, fillToken_empty, hfits, hdata, h]

theorem parseFields_overlong_version (ht : beMsgGetDictNode node (ascii "t") = some beTransId)
    (hfits : ¬ Overlong beTransId)
    (hdata : beMsgGetDictNode node (ascii (if q then "a" else "r")) = some beData)
    (hid : beMsgGetDictNode beData (ascii "id") = some beId) {v : BeNode}
    (hv : versionNode node beType = some v) (h : Overlong v) :
    (parseFields node beType q).run = .error .tokenOverrun := by
  rw [versionNode] at hv
  simp [parseFields, need, call, ht, fillToken_empty, hfits, hdata, hid, hv, fillVersion, h]

theorem fillVersion_eq (h : ∀ v, versionNode node beType = some v → ¬ Overlong v) :
    fillVersion (versionNode node beType) = .ok ((versionNode node beType).map tokenOf) := by
  rcases hv : versionNode node beType with _ | v
  · rfl
  · simp [fillVersion, fillToken_empty, h v hv]

/-- With every key there, the switch gets whatever the fields hold. -/
theorem parseFields_ok (ht : beMsgGetDictNode node (ascii "t") = some beTransId)
    (hfits : ¬ Overlong beTransId)
    (hdata : beMsgGetDictNode node (ascii (if q then "a" else "r")) = some beData)
    (hid : beMsgGetDictNode beData (ascii "id") = some beId)
    (hv : ∀ v, versionNode node beType = some v → ¬ Overlong v)
    (hkeys : ∀ k ∈ laterKeys beType, beMsgGetDictNode beData (ascii k) ≠ none) :
    (parseFields node beType q).run =
      .ok (some (beData, fieldsOf node beType beTransId beData beId)) := by
  simp only [laterKeys, List.mem_append, or_imp, forall_and] at hkeys
  rcases hkeys with ⟨⟨⟨⟨htarget, hnodes⟩, hvalues⟩, htoken⟩, hport⟩
  have hversion := fillVersion_eq hv
  rw [versionNode] at hversion
  simp [parseFields, need, call, ht, fillToken_empty, hfits, hdata, hid, hversion,
    lookupFor_of_present htarget, lookupFor_of_present hnodes, lookupFor_of_present hvalues,
    lookupFor_of_present htoken, lookupFor_of_present hport, fillNodes_eq, refillTransId_again hfits,
    fieldsOf, versionNode]

/-- A missing key drops the packet. -/
theorem parseFields_no_key (ht : beMsgGetDictNode node (ascii "t") = some beTransId)
    (hfits : ¬ Overlong beTransId)
    (hdata : beMsgGetDictNode node (ascii (if q then "a" else "r")) = some beData)
    (hid : beMsgGetDictNode beData (ascii "id") = some beId)
    (hv : ∀ v, versionNode node beType = some v → ¬ Overlong v)
    (hkeys : ¬ ∀ k ∈ laterKeys beType, beMsgGetDictNode beData (ascii k) ≠ none) :
    (parseFields node beType q).run = .ok none := by
  have hversion := fillVersion_eq hv
  rw [versionNode] at hversion
  have hstart : parseFields node beType q = (do
      let beTarget ← lookupFor beData (targetKey beType)
      let beNodes ← lookupFor beData (nodesKey beType)
      let nodes ← call (fillNodes beNodes)
      let beValues ← lookupFor beData (valuesKey beType)
      let beToken ← lookupFor beData (tokenKey beType)
      let transId ← call (refillTransId beToken beTransId (tokenOf beTransId))
      let bePort ← lookupFor beData (portKey beType)
      pure (beData,
        { transId := transId, id := beMsgGetNodeId beId,
          versionId := (versionNode node beType).map tokenOf,
          targetInfoHash := beTarget.bind beMsgGetNodeId, nodes := nodes,
          values := fillValues beValues, token := BdToken.empty,
          port := bePort.bind beMsgGetUInt32 })) := by
    simp [parseFields, need, call, ht, fillToken_empty, hfits, hdata, hid, hversion, versionNode]
  -- the first missing key ends the packet, and all five cannot be there
  by_cases htarget : ∀ k ∈ (targetKey beType).toList, beMsgGetDictNode beData (ascii k) ≠ none
  · by_cases hnodes : ∀ k ∈ (nodesKey beType).toList, beMsgGetDictNode beData (ascii k) ≠ none
    · by_cases hvalues : ∀ k ∈ (valuesKey beType).toList, beMsgGetDictNode beData (ascii k) ≠ none
      · by_cases htoken : ∀ k ∈ (tokenKey beType).toList, beMsgGetDictNode beData (ascii k) ≠ none
        · have hport : ¬ ∀ k ∈ (portKey beType).toList, beMsgGetDictNode beData (ascii k) ≠ none := by
            intro hport
            apply hkeys
            simp only [laterKeys, List.mem_append, or_imp, forall_and]
            exact ⟨⟨⟨⟨htarget, hnodes⟩, hvalues⟩, htoken⟩, hport⟩
          simp [hstart, call, lookupFor_of_present htarget, lookupFor_of_present hnodes,
            fillNodes_eq, lookupFor_of_present hvalues, lookupFor_of_present htoken,
            refillTransId_again hfits, lookupFor_of_missing hport]
        · simp [hstart, call, lookupFor_of_present htarget, lookupFor_of_present hnodes,
            fillNodes_eq, lookupFor_of_present hvalues, lookupFor_of_missing htoken]
      · simp [hstart, call, lookupFor_of_present htarget, lookupFor_of_present hnodes,
          fillNodes_eq, lookupFor_of_missing hvalues]
    · simp [hstart, lookupFor_of_present htarget, lookupFor_of_missing hnodes]
  · simp [hstart, lookupFor_of_missing htarget]

end parse

/-! ## The cases of the switch that extract more -/

section switch

variable {mFns : BdDhtFunctions} (s : BdNode mFns) (msg : List UInt8) (len : Nat)
  (addr : SockaddrIn) (d : BeNode) (f : Fields)

theorem dispatch_replyNewconn : dispatch s msg len addr .replyNewconn d f =
    match beMsgGetDictNode d (ascii "newconn"), bdIdOf (beMsgGetDictNode d (ascii "pid")) with
    | some _, some peerId => recvEcrypted s msg len addr (.replyAskMyip peerId f.transId)
    | _, _ => OptionT.mk (.ok none) := by
  simp only [dispatch, need, call]
  rcases beMsgGetDictNode d (ascii "newconn") with _ | _
  · rfl
  rcases beMsgGetDictNode d (ascii "pid") with _ | pid
  · rfl
  simp only [beMsgGetBdId_eq, pure_eq_ok, mk_some_bind, lift_ok_bind]
  rcases bdIdOf (some pid) with _ | peerId
  · rfl
  · rfl

theorem dispatch_broadcastConn : dispatch s msg len addr .broadcastConn d f =
    match (beMsgGetDictNode d (ascii "nid")).bind beMsgGetNodeId,
      (beMsgGetDictNode d (ascii "pid")).bind beMsgGetNodeId with
    | some nodeId, some peerId =>
        pure (.msgin (.broadcastConn ⟨addr, f.id⟩ f.transId nodeId peerId))
    | _, _ => OptionT.mk (.ok none) := by
  simp only [dispatch, need]
  -- all four steps are lookups, so their order does not show
  rcases beMsgGetDictNode d (ascii "nid") with _ | nid
  · rfl
  rcases beMsgGetDictNode d (ascii "pid") with _ | pid
  · simp only [Option.bind_some]
    rcases beMsgGetNodeId nid with _ | nodeId
    · rfl
    · rfl
  simp only [pure_eq_ok, mk_some_bind, Option.bind_some]
  rcases beMsgGetNodeId nid with _ | nodeId
  · rfl
  rcases beMsgGetNodeId pid with _ | peerId
  · rfl
  · rfl

theorem dispatch_askConn : dispatch s msg len addr .askConn d f =
    match (beMsgGetDictNode d (ascii "nid")).bind beMsgGetNodeId,
      bdIdOf (beMsgGetDictNode d (ascii "pid")) with
    | some nodeId, some peerId =>
        pure (.msgin (.askConn ⟨addr, f.id⟩ f.transId nodeId peerId))
    | _, _ => OptionT.mk (.ok none) := by
  simp only [dispatch, need, call]
  rcases beMsgGetDictNode d (ascii "nid") with _ | nid
  · rfl
  simp only [pure_eq_ok, mk_some_bind, Option.bind_some]
  rcases beMsgGetNodeId nid with _ | nodeId
  · rfl
  rcases beMsgGetDictNode d (ascii "pid") with _ | pid
  · rfl
  simp only [beMsgGetBdId_eq, mk_some_bind, lift_ok_bind]
  rcases bdIdOf (some pid) with _ | peerId
  · rfl
  · rfl

end switch

/-! ## What decides the outcome -/

/-- The dictionary that `recvPkt` takes for the body. -/
def packetBody (n : BeNode) : Option BeNode :=
  beMsgGetDictNode n (ascii (if beMsgGetY n = .ok .q then "a" else "r"))

/-- The node under a key of the body. -/
def bodyField (n : BeNode) (key : String) : Option BeNode :=
  (packetBody n).bind (fun d => beMsgGetDictNode d (ascii key))

/-- No string that `recvPkt` copies into a token is overlong.  The version is copied only where the
keys before it are there. -/
def TokensFit (n : BeNode) (beType : MsgType) : Prop :=
  ∀ t, beMsgGetDictNode n (ascii "t") = some t → ¬ Overlong t ∧
    (bodyField n "id" ≠ none → ∀ v, versionNode n beType = some v → ¬ Overlong v)

/-- Every key that the blocks look up is there. -/
def Complete (n : BeNode) (beType : MsgType) : Prop :=
  beMsgGetDictNode n (ascii "t") ≠ none ∧ bodyField n "id" ≠ none ∧
    ∀ k ∈ laterKeys beType, bodyField n k ≠ none

theorem bodyField_some {n d : BeNode} (h : packetBody n = some d) (key : String) :
    bodyField n key = beMsgGetDictNode d (ascii key) := by
  rw [bodyField, h, Option.bind_some]

/-- The three outcomes of the blocks of `recvPkt`. -/
theorem parseFields_cases {n : BeNode} {y : BeY} (hy : beMsgGetY n = .ok y) (beType : MsgType) :
    (¬ TokensFit n beType ∧ (parseFields n beType (y = .q)).run = .error .tokenOverrun) ∨
    (TokensFit n beType ∧ ¬ Complete n beType ∧
      (parseFields n beType (y = .q)).run = .ok none) ∨
    (TokensFit n beType ∧ Complete n beType ∧ ∃ t d i,
      beMsgGetDictNode n (ascii "t") = some t ∧ packetBody n = some d ∧
      beMsgGetDictNode d (ascii "id") = some i ∧
      (parseFields n beType (y = .q)).run = .ok (some (d, fieldsOf n beType t d i))) := by
  have hbody : beMsgGetDictNode n (ascii (if decide (y = .q) then "a" else "r")) = packetBody n := by
    rw [packetBody, hy]
    simp
  -- no transaction id, nothing is copied
  rcases ht : beMsgGetDictNode n (ascii "t") with _ | t
  · refine .inr (.inl ⟨?_, ?_, parseFields_no_transId ht⟩)
    · intro t' ht'
      rw [ht] at ht'
      cases ht'
    · exact fun hc => hc.1 ht
  -- it is copied before anything else is looked up
  by_cases hlong : Overlong t
  · exact .inl ⟨fun hfit => (hfit t ht).1 hlong, parseFields_overlong ht hlong⟩
  rcases hd : packetBody n with _ | d
  · have hno : ∀ key, bodyField n key = none := fun key => by rw [bodyField, hd]; rfl
    refine .inr (.inl ⟨?_, fun hc => hc.2.1 (hno "id"), parseFields_no_data ht hlong (hbody.trans hd)⟩)
    intro t' ht'
    rw [ht, Option.some.injEq] at ht'
    rw [← ht']
    exact ⟨hlong, fun hid => absurd (hno "id") hid⟩
  have hfield := bodyField_some hd
  rcases hi : beMsgGetDictNode d (ascii "id") with _ | i
  · have hno : bodyField n "id" = none := (hfield "id").trans hi
    refine .inr (.inl ⟨?_, fun hc => hc.2.1 hno, parseFields_no_id ht hlong (hbody.trans hd) hi⟩)
    intro t' ht'
    rw [ht, Option.some.injEq] at ht'
    rw [← ht']
    exact ⟨hlong, fun hid => absurd hno hid⟩
  have hid : bodyField n "id" ≠ none := by
    rw [hfield, hi]
    simp
  -- the version comes behind the id and before the other keys
  by_cases hv : ∀ v, versionNode n beType = some v → ¬ Overlong v
  · have hfit : TokensFit n beType := by
      intro t' ht'
      rw [ht, Option.some.injEq] at ht'
      rw [← ht']
      exact ⟨hlong, fun _ => hv⟩
    by_cases hkeys : ∀ k ∈ laterKeys beType, beMsgGetDictNode d (ascii k) ≠ none
    · refine .inr (.inr ⟨hfit, ⟨by simp [ht], hid, ?_⟩, t, d, i, rfl, rfl, hi,
        parseFields_ok ht hlong (hbody.trans hd) hi hv hkeys⟩)
      intro k hk
      rw [hfield]
      exact hkeys k hk
    · refine .inr (.inl ⟨hfit, ?_, parseFields_no_key ht hlong (hbody.trans hd) hi hv hkeys⟩)
      intro hc
      apply hkeys
      intro k hk
      rw [← hfield]
      exact hc.2.2 k hk
  · simp only [not_forall, not_not] at hv
    rcases hv with ⟨v, hv, hvlong⟩
    exact .inl ⟨fun hfit => (hfit t ht).2 hid v hv hvlong,
      parseFields_overlong_version ht hlong (hbody.trans hd) hi hv hvlong⟩

end BitDht
