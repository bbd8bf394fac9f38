import BitDht.Msgs.RoundTrip
import BitDht.Node.Reading

/-!
# Extraction — arguments that were never in the packet

`recvPkt` tests that every key is there, but for most fields not whether the extraction worked.  The
packets that are handled safely are those whose fields have the types that the extraction functions
ask for (`safelyReceived_iff`).
-/

namespace BitDht

open Outcome Recv

variable {mFns : BdDhtFunctions}

/-! ## Arguments that come from the packet -/

/-- The token `tok` is the string `n`. -/
def TokenAt (n : Option BeNode) (tok : BdToken) : Prop :=
  n = some (strOf tok.data)

/-- The id was assigned, and it is the string `n`. -/
def IdAt (n : Option BeNode) (id : Option BdNodeId) : Prop :=
  ∃ i, id = some i ∧ n = some (strOf i.data)

/-- The id with its address is the front of the string `n`. -/
def BdIdAt (n : Option BeNode) (id : BdId) : Prop :=
  ∃ s, n = some (strOf s) ∧ beMsgGetBdId (strOf s) = .ok (some id)

/-- The list is the string `n`. -/
def NodesAt (n : Option BeNode) (nodes : List BdId) : Prop :=
  ∃ s, n = some (strOf s) ∧ beMsgGetListBdIds (strOf s) = .ok (some nodes)

/-- The list is the list of strings `n`. -/
def ValuesAt (n : Option BeNode) (values : List (List UInt8)) : Prop :=
  n = some (.list (values.map strOf))

/-- The number was assigned, and it is the integer `n`. -/
def PortAt (n : Option BeNode) (port : Option UInt32) : Prop :=
  ∃ i, n = some (.int i) ∧ port = beMsgGetUInt32 (.int i) ∧ port ≠ none

/-- Every argument of a handler call was extracted from the packet with the tree `n`. -/
def Extracted (n : BeNode) : MsgIn → Prop
  | .ping id transId =>
      TokenAt (beMsgGetDictNode n (ascii "t")) transId ∧ IdAt (bodyField n "id") id.id
  | .pong id transId versionId =>
      TokenAt (beMsgGetDictNode n (ascii "t")) transId ∧ IdAt (bodyField n "id") id.id ∧
        beMsgGetDictNode n (ascii "v") = versionId.map (fun v => strOf v.data)
  | .findNode id transId query =>
      TokenAt (beMsgGetDictNode n (ascii "t")) transId ∧ IdAt (bodyField n "id") id.id ∧
        IdAt (bodyField n "target") query
  | .replyFindNode id transId nodes =>
      TokenAt (beMsgGetDictNode n (ascii "t")) transId ∧ IdAt (bodyField n "id") id.id ∧
        NodesAt (bodyField n "nodes") nodes
  | .getHash id transId infoHash =>
      TokenAt (beMsgGetDictNode n (ascii "t")) transId ∧ IdAt (bodyField n "id") id.id ∧
        IdAt (bodyField n "info_hash") infoHash
  | .replyHash id transId token values =>
      TokenAt (beMsgGetDictNode n (ascii "t")) transId ∧ IdAt (bodyField n "id") id.id ∧
        TokenAt (bodyField n "token") token ∧ ValuesAt (bodyField n "values") values
  | .replyNearest id transId token nodes =>
      TokenAt (beMsgGetDictNode n (ascii "t")) transId ∧ IdAt (bodyField n "id") id.id ∧
        TokenAt (bodyField n "token") token ∧ NodesAt (bodyField n "nodes") nodes
  | .postHash id transId infoHash port token =>
      TokenAt (beMsgGetDictNode n (ascii "t")) transId ∧ IdAt (bodyField n "id") id.id ∧
        IdAt (bodyField n "info_hash") infoHash ∧ PortAt (bodyField n "port") port ∧
        TokenAt (bodyField n "token") token
  | .replyPost id transId =>
      TokenAt (beMsgGetDictNode n (ascii "t")) transId ∧ IdAt (bodyField n "id") id.id
  | .askMyip tunnelId transId =>
      TokenAt (beMsgGetDictNode n (ascii "t")) transId ∧ IdAt (bodyField n "id") tunnelId.id
  | .replyAskMyip tunnelId transId =>
      TokenAt (beMsgGetDictNode n (ascii "t")) transId ∧ BdIdAt (bodyField n "pid") tunnelId
  | .broadcastConn id tid nodeId peerId =>
      TokenAt (beMsgGetDictNode n (ascii "t")) tid ∧ IdAt (bodyField n "id") id.id ∧
        IdAt (bodyField n "nid") (some nodeId) ∧ IdAt (bodyField n "pid") (some peerId)
  | .askConn id tid nodeId peerId =>
      TokenAt (beMsgGetDictNode n (ascii "t")) tid ∧ IdAt (bodyField n "id") id.id ∧
        IdAt (bodyField n "nid") (some nodeId) ∧ BdIdAt (bodyField n "pid") peerId

/-- What `recvPkt` may do with a packet that has the tree `n` and the type `beType`. -/
def SafeAct (n : BeNode) (beType : MsgType) : RecvAct → Prop
  | .msgin c => Extracted n c
  | .addBlackList _ => beType = .newconn ∨ beType = .replyNewconn

/-- A packet is dropped and the node stays as it is, or its sender is put on the blacklist for a
NEWCONN or REPLY_NEWCONN, or a handler is called with arguments out of the packet. -/
def BdNode.SafelyReceived (s : BdNode mFns) (addr : SockaddrIn) (p : List UInt8) : Prop :=
  ∃ act, (s.recvAct p p.length addr).run = .ok act ∧
    (act = none → ∀ now junk, s.recvPkt now junk p p.length addr = .ok s) ∧
    ∀ a, act = some a → ∃ n beType, beDecoden p p.length = .ok (some n) ∧
      beMsgType n = .ok beType ∧ SafeAct n beType a

/-! ## Fields of the right type -/

def IsString (n : Option BeNode) : Prop :=
  ∃ s, n = some (strOf s)

/-- A string of `BITDHT_KEY_LEN` bytes. -/
def IsKey (n : Option BeNode) : Prop :=
  ∃ s, n = some (strOf s) ∧ s.length = bitdhtKeyLen

/-- A string that is long enough for an id with its address. -/
def IsCompactId (n : Option BeNode) : Prop :=
  ∃ s, n = some (strOf s) ∧ bitdhtCompactNodeIdLen ≤ s.length

def IsStrings (n : Option BeNode) : Prop :=
  ∃ values : List (List UInt8), n = some (.list (values.map strOf))

def IsInt (n : Option BeNode) : Prop :=
  ∃ i, n = some (.int i)

/-- The transaction id is a string and the id of the sender has the length of one. -/
def SenderTyped (n : BeNode) : Prop :=
  IsString (beMsgGetDictNode n (ascii "t")) ∧ IsKey (bodyField n "id")

/-- The fields of a packet that has all its keys are such that its handler gets what is in them.
The token of a reply or of a POST_HASH is never looked at, so only an empty one is passed on as it
is; and no checksum of a NEWCONN or REPLY_NEWCONN can be computed. -/
def WellTyped (n : BeNode) : MsgType → Prop
  | .ping => SenderTyped n
  | .pong => SenderTyped n ∧
      (beMsgGetDictNode n (ascii "v") = none ∨ IsString (beMsgGetDictNode n (ascii "v")))
  | .findNode => SenderTyped n ∧ IsKey (bodyField n "target")
  | .replyNode => SenderTyped n ∧ IsString (bodyField n "nodes")
  | .getHash => SenderTyped n ∧ IsKey (bodyField n "info_hash")
  | .replyHash => SenderTyped n ∧ bodyField n "token" = some (strOf []) ∧
      IsStrings (bodyField n "values")
  | .replyNear => SenderTyped n ∧ bodyField n "token" = some (strOf []) ∧
      IsString (bodyField n "nodes")
  | .postHash => SenderTyped n ∧ IsKey (bodyField n "info_hash") ∧ IsInt (bodyField n "port") ∧
      bodyField n "token" = some (strOf [])
  | .replyPost => SenderTyped n
  | .newconn => False
  | .replyNewconn => ¬ (bodyField n "newconn" ≠ none ∧ IsCompactId (bodyField n "pid"))
  | .broadcastConn => IsKey (bodyField n "nid") ∧ IsKey (bodyField n "pid") → SenderTyped n
  | .askConn => IsKey (bodyField n "nid") ∧ IsCompactId (bodyField n "pid") → SenderTyped n
  | .replyConn => True
  | .unknown => True

/-! ## What the extraction functions make of a field -/

theorem tokenAt_iff {n : BeNode} : TokenAt (some n) (tokenOf n) ↔ IsString (some n) := by
  constructor
  · exact fun h => ⟨_, h⟩
  · rintro ⟨s, hs⟩
    cases hs
    rfl

theorem versionAt_iff {n : Option BeNode} :
    n = (n.map tokenOf).map (fun v => strOf v.data) ↔ n = none ∨ IsString n := by
  cases n with
  | none =>
      simp
  | some n =>
      -- the version of a PONG is an optional token
      have htoken := @tokenAt_iff n
      rw [TokenAt] at htoken
      simpa using htoken

theorem idAt_iff {n : Option BeNode} : IdAt n (n.bind beMsgGetNodeId) ↔ IsKey n := by
  constructor
  · rintro ⟨i, _, hn⟩
    exact ⟨i.data, hn, i.size⟩
  · rintro ⟨s, rfl, hs⟩
    exact ⟨⟨s, hs⟩, by simp [strOf, beMsgGetNodeId, hs], rfl⟩

theorem nodesAt_iff {n : Option BeNode} : NodesAt n (nodesOf n) ↔ IsString n := by
  constructor
  · rintro ⟨s, hs, _⟩
    exact ⟨s, hs⟩
  · rintro ⟨s, rfl⟩
    rcases beMsgGetListBdIds_str (some s) with ⟨ids, hids⟩
    -- every string is read as a list of ids, of as many as are whole
    have hnodes : nodesOf (some (strOf s)) = ids := by simp [nodesOf, fillNodes, strOf, hids]
    rw [hnodes]
    exact ⟨s, rfl, hids⟩

theorem valuesAt_iff {n : Option BeNode} : ValuesAt n (fillValues n) ↔ IsStrings n := by
  constructor
  · exact fun h => ⟨_, h⟩
  · rintro ⟨values, rfl⟩
    simp [ValuesAt, fillValues, beMsgGetListStrings_strOf]

theorem portAt_iff {n : Option BeNode} : PortAt n (n.bind beMsgGetUInt32) ↔ IsInt n := by
  constructor
  · rintro ⟨i, hi, _⟩
    exact ⟨i, hi⟩
  · rintro ⟨i, rfl⟩
    exact ⟨i, rfl, rfl, by simp [beMsgGetUInt32]⟩

theorem isCompactId_iff {n : Option BeNode} : IsCompactId n ↔ bdIdOf n ≠ none := by
  cases n with
  | none =>
      refine iff_of_false ?_ (fun h => h rfl)
      rintro ⟨s, hs, _⟩
      cases hs
  | some n =>
      rw [bdIdOf_ne_none_iff]
      constructor
      · rintro ⟨s, hs, hlen⟩
        cases hs
        exact hlen
      · intro h
        cases n with
        | str s =>
            cases s with
            | none =>
                exact h.elim
            | some s =>
                exact ⟨s, rfl, h⟩
        | int i =>
            exact h.elim
        | list l =>
            exact h.elim
        | dict d =>
            exact h.elim

theorem idAt_of_bind {n : Option BeNode} {id : BdNodeId} (h : n.bind beMsgGetNodeId = some id) :
    IdAt n (some id) := by
  rcases Option.bind_eq_some_iff.1 h with ⟨x, rfl, hx⟩
  cases x with
  | str s =>
      cases s with
      | none =>
          cases hx
      | some s =>
          by_cases hs : s.length = bitdhtKeyLen
          · rw [beMsgGetNodeId, dif_pos hs] at hx
            cases hx
            exact ⟨_, rfl, rfl⟩
          · rw [beMsgGetNodeId, dif_neg hs] at hx
            cases hx
  | int i =>
      cases hx
  | list l =>
      cases hx
  | dict d =>
      cases hx

theorem isKey_iff {n : Option BeNode} : IsKey n ↔ n.bind beMsgGetNodeId ≠ none := by
  rw [← idAt_iff]
  constructor
  · rintro ⟨i, hi, _⟩
    rw [hi]
    simp
  · intro h
    rcases hi : n.bind beMsgGetNodeId with _ | i
    · exact absurd hi h
    · exact idAt_of_bind hi

/-- An id that `beMsgGetBdId` filled is the front of a string. -/
theorem bdIdAt_of_some {n : Option BeNode} {id : BdId} (h : bdIdOf n = some id) : BdIdAt n id := by
  cases n with
  | none =>
      cases h
  | some n =>
      have hget := beMsgGetBdId_eq n
      rw [h] at hget
      cases n with
      | str s =>
          cases s with
          | none =>
              cases hget
          | some s =>
              exact ⟨s, rfl, hget⟩
      | int i =>
          cases hget
      | list l =>
          cases hget
      | dict d =>
          cases hget

/-! ## The switch -/

/-- A run of the blocks and the switch that ends safely. -/
def SafeRun (n : BeNode) (beType : MsgType) (x : Exec (Option RecvAct)) : Prop :=
  ∃ act, x = .ok act ∧ ∀ a, act = some a → SafeAct n beType a

section switch

variable {n : BeNode} {beType : MsgType}

theorem safeRun_drop : SafeRun n beType (.ok none) :=
  ⟨none, rfl, fun a ha => by cases ha⟩

theorem not_safeRun_error {e : Fault} : ¬ SafeRun n beType (.error e) := by
  rintro ⟨act, hact, _⟩
  cases hact

theorem safeRun_some {a : RecvAct} : SafeRun n beType (.ok (some a)) ↔ SafeAct n beType a := by
  constructor
  · rintro ⟨act, hact, hsafe⟩
    cases hact
    exact hsafe a rfl
  · intro h
    refine ⟨some a, rfl, ?_⟩
    rintro _ ⟨⟩
    exact h

theorem recvEcrypted_error {len : Nat} (hlen : len ≠ 4) (s : BdNode mFns) (msg : List UInt8)
    (addr : SockaddrIn) (m : MsgIn) : ∃ e, (recvEcrypted s msg len addr m).run = .error e := by
  rcases hdec : bitdhtDecrypt msg len with e | r
  · exact ⟨e, by simp [recvEcrypted, call, hdec]⟩
  · exact absurd (bitdhtDecrypt_ok hdec) hlen

theorem recvEcrypted_ne_ok {len : Nat} (hlen : len ≠ 4) {s : BdNode mFns} {msg : List UInt8}
    {addr : SockaddrIn} {m : MsgIn} {r : Option RecvAct} :
    (recvEcrypted s msg len addr m).run ≠ .ok r := by
  rcases recvEcrypted_error hlen s msg addr m with ⟨e, he⟩
  intro h
  rw [he] at h
  cases h

/-- With every key there, what the switch does is safe exactly when the fields are well typed. -/
theorem dispatch_safe_iff {t d i : BeNode} (ht : beMsgGetDictNode n (ascii "t") = some t)
    (hd : packetBody n = some d) (hi : beMsgGetDictNode d (ascii "id") = some i)
    {len : Nat} (hlen : len ≠ 4)
    (s : BdNode mFns) (msg : List UInt8) (addr : SockaddrIn) :
    SafeRun n beType (dispatch s msg len addr beType d (fieldsOf n beType t d i)).run ↔
      WellTyped n beType := by
  have hid : bodyField n "id" = some i := (bodyField_some hd "id").trans hi
  have hget : ∀ key, beMsgGetDictNode d (ascii key) = bodyField n key :=
    fun key => (bodyField_some hd key).symm
  have hfield : ∀ key, field d key = key.bind (bodyField n) := by
    intro key
    cases key with
    | none =>
        rfl
    | some key =>
        exact hget key
  -- every handler gets the transaction id and the sender
  have hsender : TokenAt (beMsgGetDictNode n (ascii "t")) (tokenOf t) ∧
      IdAt (bodyField n "id") (beMsgGetNodeId i) ↔ SenderTyped n := by
    have hidAt := @idAt_iff (some i)
    rw [SenderTyped, ht, hid, tokenAt_iff, ← hidAt, Option.bind_some]
  rw [fieldsOf, hfield, hfield, hfield, hfield]
  cases beType with
  | ping =>
      exact safeRun_some.trans hsender
  | pong =>
      have hversion := @versionAt_iff (beMsgGetDictNode n (ascii "v"))
      apply safeRun_some.trans
      rw [WellTyped, ← hsender, ← hversion, and_assoc]
      rfl
  | findNode =>
      apply safeRun_some.trans
      rw [WellTyped, ← hsender, ← @idAt_iff (bodyField n "target"), and_assoc]
      rfl
  | replyNode =>
      apply safeRun_some.trans
      rw [WellTyped, ← hsender, ← @nodesAt_iff (bodyField n "nodes"), and_assoc]
      rfl
  | getHash =>
      apply safeRun_some.trans
      rw [WellTyped, ← hsender, ← @idAt_iff (bodyField n "info_hash"), and_assoc]
      rfl
  | replyHash =>
      apply safeRun_some.trans
      rw [WellTyped, ← hsender, ← valuesAt_iff, and_assoc]
      rfl
  | replyNear =>
      apply safeRun_some.trans
      rw [WellTyped, ← hsender, ← nodesAt_iff, and_assoc]
      rfl
  | postHash =>
      apply safeRun_some.trans
      rw [WellTyped, ← hsender, ← @idAt_iff (bodyField n "info_hash"), ← portAt_iff, and_assoc]
      rfl
  | replyPost =>
      exact safeRun_some.trans hsender
  | newconn =>
      rcases recvEcrypted_error hlen s msg addr
        (.askMyip ⟨addr, beMsgGetNodeId i⟩ (tokenOf t)) with ⟨e, he⟩
      exact iff_of_false (by rw [dispatch, he]; exact not_safeRun_error) id
  | replyNewconn =>
      rw [dispatch_replyNewconn, hget, hget, WellTyped, isCompactId_iff]
      rcases bodyField n "newconn" with _ | new
      · exact iff_of_true safeRun_drop (fun h => h.1 rfl)
      rcases bdIdOf (bodyField n "pid") with _ | id
      · exact iff_of_true safeRun_drop (fun h => h.2 rfl)
      rcases recvEcrypted_error hlen s msg addr (.replyAskMyip id (tokenOf t)) with ⟨e, he⟩
      refine iff_of_false ?_ (fun h => h (by simp))
      rw [he]
      exact not_safeRun_error
  | broadcastConn =>
      rw [dispatch_broadcastConn, hget, hget, WellTyped, isKey_iff, isKey_iff]
      rcases hnid : (bodyField n "nid").bind beMsgGetNodeId with _ | nodeId
      · exact iff_of_true safeRun_drop (fun h => absurd rfl h.1)
      rcases hpid : (bodyField n "pid").bind beMsgGetNodeId with _ | peerId
      · exact iff_of_true safeRun_drop (fun h => absurd rfl h.2)
      -- both ids are there, so the call is safe exactly when its sender is
      have hnidAt := idAt_of_bind hnid
      have hpidAt := idAt_of_bind hpid
      apply safeRun_some.trans
      constructor
      · exact fun h _ => hsender.1 ⟨h.1, h.2.1⟩
      · intro h
        have hs := hsender.2 (h (by simp))
        exact ⟨hs.1, hs.2, hnidAt, hpidAt⟩
  | askConn =>
      rw [dispatch_askConn, hget, hget, WellTyped, isKey_iff, isCompactId_iff]
      rcases hnid : (bodyField n "nid").bind beMsgGetNodeId with _ | nodeId
      · exact iff_of_true safeRun_drop (fun h => absurd rfl h.1)
      rcases hpid : bdIdOf (bodyField n "pid") with _ | peerId
      · exact iff_of_true safeRun_drop (fun h => absurd rfl h.2)
      have hnidAt := idAt_of_bind hnid
      have hpidAt := bdIdAt_of_some hpid
      apply safeRun_some.trans
      constructor
      · exact fun h _ => hsender.1 ⟨h.1, h.2.1⟩
      · intro h
        have hs := hsender.2 (h (by simp))
        exact ⟨hs.1, hs.2, hnidAt, hpidAt⟩
  | replyConn =>
      exact iff_of_true safeRun_drop trivial
  | unknown =>
      exact iff_of_true safeRun_drop trivial

end switch

/-! ## Packets -/

theorem eq_dict_of_found {n x : BeNode} {key : List UInt8} (h : beMsgGetDictNode n key = some x) :
    ∃ d e, n = .dict d ∧ e ∈ d ∧ strcmpEq key e.1 = true := by
  cases n with
  | dict d =>
      rcases hfind : d.find? (fun e => strcmpEq key e.1) with _ | e
      · rw [beMsgGetDictNode, hfind] at h
        cases h
      · have hkey := @List.find?_some _ (fun e => strcmpEq key e.1) e d hfind
        exact ⟨d, e, rfl, List.mem_of_find?_eq_some hfind, hkey⟩
  | str s =>
      cases h
  | int i =>
      cases h
  | list l =>
      cases h

theorem length_keys_le {d : List (List UInt8 × BeNode)} {keys : List (List UInt8)}
    (hkeys : (keys.map cstr).Nodup) (hfound : ∀ k ∈ keys, beMsgGetDictNode (.dict d) k ≠ none) :
    keys.length ≤ d.length := by
  -- every key is the name of an entry, and no entry has two names
  have hnames : keys.map cstr ⊆ d.map (fun e => cstr e.1) := by
    intro c hc
    rcases List.mem_map.1 hc with ⟨k, hk, rfl⟩
    rcases Option.ne_none_iff_exists'.1 (hfound k hk) with ⟨x, hx⟩
    rcases eq_dict_of_found hx with ⟨_, e, ⟨⟩, he, hkey⟩
    rw [strcmpEq, beq_iff_eq] at hkey
    rw [hkey]
    exact List.mem_map_of_mem he
  have hlen := (List.subperm_of_subset hkeys hnames).length_le
  rwa [List.length_map, List.length_map] at hlen

/-- A packet takes at least two bytes for each key of its dictionary, and two more. -/
theorem length_of_keys {p r : List UInt8} {n : BeNode} {keys : List (List UInt8)} (h : Loose p n r)
    (hkeys : (keys.map cstr).Nodup) (hfound : ∀ k ∈ keys, beMsgGetDictNode n k ≠ none)
    (hne : keys ≠ []) : 2 * keys.length + 2 ≤ p.length := by
  rcases List.exists_mem_of_ne_nil keys hne with ⟨k, hk⟩
  rcases Option.ne_none_iff_exists'.1 (hfound k hk) with ⟨x, hx⟩
  rcases eq_dict_of_found hx with ⟨d, _, rfl, _⟩
  have hentries := length_keys_le hkeys hfound
  cases h with
  | dict hd =>
      -- the entries and the closing `e` behind the `d`
      have hlen := hd.length_le
      rw [List.length_cons]
      omega

/-- A packet with a `y` and a `t` is longer than the four bytes of a checksum. -/
theorem length_ne_four {p r : List UInt8} {n y t : BeNode} (h : Loose p n r)
    (hy : beMsgGetDictNode n (ascii "y") = some y) (ht : beMsgGetDictNode n (ascii "t") = some t) :
    p.length ≠ 4 := by
  have hlen := @length_of_keys p r n [ascii "y", ascii "t"] h (by decide) (by simp [hy, ht])
    (List.cons_ne_nil _ _)
  rw [List.length_cons, List.length_singleton] at hlen
  omega

theorem dictNode_y_of_type {n : BeNode} {beType : MsgType} (h : beMsgType n = .ok beType) :
    ∃ y, beMsgGetDictNode n (ascii "y") = some y := by
  rcases beMsgGetY_of_type h with ⟨y, hy⟩
  rcases hnode : beMsgGetDictNode n (ascii "y") with _ | x
  · rw [beMsgGetY, hnode] at hy
    cases hy
  · exact ⟨x, rfl⟩

namespace BdNode

section received

variable {s : BdNode mFns} {addr : SockaddrIn} {p : List UInt8}

theorem safelyReceived_of_drop (h : (s.recvAct p p.length addr).run = .ok none) :
    s.SafelyReceived addr p := by
  refine ⟨none, h, ?_, fun a ha => by cases ha⟩
  intro _ now junk
  rw [recvPkt, h]
  rfl

theorem not_safelyReceived_of_error {e : Fault} (h : (s.recvAct p p.length addr).run = .error e) :
    ¬ s.SafelyReceived addr p := by
  rintro ⟨act, hact, _⟩
  rw [h] at hact
  cases hact

/-- On a decoded packet of a type, the state of the node plays no part. -/
theorem safelyReceived_iff_safeRun {n : BeNode} {beType : MsgType}
    (hdec : beDecoden p p.length = .ok (some n)) (htype : beMsgType n = .ok beType) :
    s.SafelyReceived addr p ↔ SafeRun n beType (s.recvAct p p.length addr).run := by
  constructor
  · rintro ⟨act, hact, _, hsafe⟩
    refine ⟨act, hact, ?_⟩
    intro a ha
    rcases hsafe a ha with ⟨n', beType', hdec', htype', hact'⟩
    rw [hdec, Except.ok.injEq, Option.some.injEq] at hdec'
    subst hdec'
    rw [htype, Except.ok.injEq] at htype'
    rwa [htype']
  · rintro ⟨act, hact, hsafe⟩
    cases act with
    | none =>
        exact safelyReceived_of_drop hact
    | some a =>
        refine ⟨some a, hact, ?_, ?_⟩
        · intro h
          cases h
        rintro _ ⟨⟩
        exact ⟨n, beType, hdec, htype, hsafe a rfl⟩

end received

/-- What decides whether a packet is handled safely: the sender is on the blacklist, or the decoder
gets through the packet, and a tree that it finds can be classified, has no overlong token and,
when it has a known type and all the keys of it, has fields of the types of its handler. -/
theorem safelyReceived_iff (s : BdNode mFns) (addr : SockaddrIn) (p : List UInt8) :
    s.SafelyReceived addr p ↔ s.isMemberOfBlackList addr = true ∨
      (¬ CutShort p ∧ ¬ LostKey p ∧ ∀ n r, Loose p n r → Classifiable n ∧
        ∀ beType, beMsgType n = .ok beType → beType ≠ .unknown →
          TokensFit n beType ∧ (Complete n beType → WellTyped n beType)) := by
  by_cases hblack : s.isMemberOfBlackList addr = true
  · exact iff_of_true (safelyReceived_of_drop (by simp [recvAct, hblack])) (.inl hblack)
  -- the condition speaks of every tree of the packet, and there is at most one
  have honly : ∀ {n r} {P : BeNode → Prop}, Loose p n r → ((∀ n' r', Loose p n' r' → P n') ↔ P n) := by
    intro n r P hn
    constructor
    · exact fun h => h n r hn
    · intro h n' r' hn'
      rwa [(hn'.rest_unique hn).1]
  rw [or_iff_right hblack]
  cases s.received addr p with
  | blackListed h _ =>
      exact absurd h hblack
  | cutShort hcut hrun =>
      exact iff_of_false (not_safelyReceived_of_error hrun) (fun h => h.1 hcut)
  | lostKey hlost hrun =>
      exact iff_of_false (not_safelyReceived_of_error hrun) (fun h => h.2.1 hlost)
  | notDecoded hcut hlost hno hrun =>
      exact iff_of_true (safelyReceived_of_drop hrun)
        ⟨hcut, hlost, fun n r hn => absurd hn (hno n r)⟩
  | @notClassified n r e hn htype hrun =>
      refine iff_of_false (not_safelyReceived_of_error hrun) ?_
      rintro ⟨_, _, hall⟩
      rcases beMsgType_ok_iff.2 (hall n r hn).1 with ⟨beType, hok⟩
      rw [htype] at hok
      cases hok
  | @unknown n r hcut hlost hn htype hrun =>
      refine iff_of_true (safelyReceived_of_drop hrun) ⟨hcut, hlost, (honly hn).2 ⟨?_, ?_⟩⟩
      · exact beMsgType_ok_iff.1 ⟨.unknown, htype⟩
      · intro beType htype' hknown
        rw [htype, Except.ok.injEq] at htype'
        exact absurd htype'.symm hknown
  | @known n r beType y _ hcut hlost hn hdec htype hknown hy hrun =>
      have hclass : Classifiable n := beMsgType_ok_iff.1 ⟨beType, htype⟩
      -- the decoder and the type are settled, so the fields decide
      rw [safelyReceived_iff_safeRun hdec htype, hrun, honly hn]
      simp only [hcut, hlost, hclass, htype, not_false_eq_true, true_and, Except.ok.injEq,
        forall_eq', hknown, ne_eq, forall_const]
      rcases parseFields_cases hy beType with ⟨hfit, hparse⟩ | ⟨hfit, hcomplete, hparse⟩ |
        ⟨hfit, hcomplete, t, d, i, ht, hd, hi, hparse⟩
      · rw [bind_of_error hparse]
        exact iff_of_false not_safeRun_error (fun h => hfit h.1)
      · rw [bind_of_none hparse]
        exact iff_of_true safeRun_drop ⟨hfit, fun h => absurd h hcomplete⟩
      · rcases dictNode_y_of_type htype with ⟨x, hx⟩
        rw [bind_of_some hparse, dispatch_safe_iff ht hd hi (length_ne_four hn hx ht) s p addr]
        exact ⟨fun h => ⟨hfit, fun _ => h⟩, fun h => h.2 hcomplete⟩

/-- A PING whose id has three bytes reaches `msgin_ping` with an id that nothing was assigned to. -/
theorem not_safelyReceived_short_id :
    ¬ (BdNode.new bdZeroNodeId [] [] (fun _ => 0) : BdNode bdStdDht).SafelyReceived
        ⟨afInet, 16777343, 8080⟩ (ascii "d1:ad2:id3:abce1:q4:ping1:t2:aa1:y1:qe") := by
  rintro ⟨act, hact, _, hsafe⟩
  have hcall : ((BdNode.new bdZeroNodeId [] [] (fun _ => 0) : BdNode bdStdDht).recvAct
      (ascii "d1:ad2:id3:abce1:q4:ping1:t2:aa1:y1:qe")
      (ascii "d1:ad2:id3:abce1:q4:ping1:t2:aa1:y1:qe").length ⟨afInet, 16777343, 8080⟩).run =
      .ok (some (.msgin (.ping ⟨⟨afInet, 16777343, 8080⟩, none⟩ ⟨ascii "aa"⟩))) := by
    decide +kernel
  rw [hcall, Except.ok.injEq] at hact
  -- the call has no id, so none was extracted
  rcases hsafe _ hact.symm with ⟨n, beType, _, _, _, i, hi, _⟩
  cases hi

end BdNode

end BitDht
