import BitDht.Msgs.RoundTrip
import BitDht.Node.Reading

/-!
# Delivery — from a builder to the handler

A message of one of the eight kinds that a node exchanges about peers and hashes reaches the handler
of its kind, and the handler gets what the builder was given, but for one argument: `recvPkt` fills
the transaction id where it should fill the token, so every handler is passed an empty token.
-/

namespace BitDht

open Outcome Recv

variable {mFns : BdDhtFunctions}

/-! ## Packets that are not dropped at once -/

namespace BdNode

/-- `recvPkt` calls the handler of `c`, once and with its arguments, and does nothing else. -/
def CallsOnce (s : BdNode mFns) (p : List UInt8) (addr : SockaddrIn) (c : MsgIn) : Prop :=
  (s.recvAct p p.length addr).run = .ok (some (.msgin c)) ∧
    ∀ now junk, s.recvPkt now junk p p.length addr = s.msgin now junk c

theorem callsOnce_iff {s : BdNode mFns} {p : List UInt8} {addr : SockaddrIn} {c : MsgIn} :
    s.CallsOnce p addr c ↔ (s.recvAct p p.length addr).run = .ok (some (.msgin c)) := by
  constructor
  · exact fun h => h.1
  · intro h
    refine ⟨h, ?_⟩
    intro now junk
    rw [recvPkt, h]
    rfl

end BdNode

/-! ## The call that belongs to a message -/

namespace Msg

/-- The token argument of a message, empty where it has none. -/
def token : Msg → BdToken
  | .replyHash _ _ token _ => token
  | .replyNear _ _ token _ => token
  | .postHash _ _ _ _ token => token
  | _ => BdToken.empty

/-- The handler call for a message from `addr`, with `token` for its token argument. -/
def callWith (addr : SockaddrIn) (token : BdToken) : Msg → Option MsgIn
  | .ping tid id => some (.ping ⟨addr, some id⟩ tid)
  | .pong tid id vid => some (.pong ⟨addr, some id⟩ tid (some vid))
  | .findNode tid id target => some (.findNode ⟨addr, some id⟩ tid (some target))
  | .replyNode tid id nodes => some (.replyFindNode ⟨addr, some id⟩ tid nodes)
  | .getHash tid id infoHash => some (.getHash ⟨addr, some id⟩ tid (some infoHash))
  | .replyHash tid id _ values => some (.replyHash ⟨addr, some id⟩ tid token values)
  | .replyNear tid id _ nodes => some (.replyNearest ⟨addr, some id⟩ tid token nodes)
  | .postHash tid id infoHash port _ =>
      some (.postHash ⟨addr, some id⟩ tid (some infoHash) (some port) token)
  | .replyAnnounce tid id => some (.pong ⟨addr, some id⟩ tid none)
  | _ => none

/-- The handler call that matches a message: the handler of its kind, with its arguments. -/
def call (addr : SockaddrIn) (m : Msg) : Option MsgIn :=
  m.callWith addr m.token

/-- Two calls for one message agree when their tokens do, unless the message has none. -/
theorem callWith_eq_call_iff {addr : SockaddrIn} {m : Msg} (h : m.call addr ≠ none) :
    m.callWith addr BdToken.empty = m.call addr ↔ m.token = BdToken.empty := by
  cases m
  all_goals
    first
    -- the kinds without a handler call contradict `h`
    | exact absurd rfl h
    | simp [call, callWith, token, eq_comm]

theorem beMsgGetY_tree (m : Msg) : beMsgGetY m.tree = .ok (if m.query.isSome then .q else .r) := by
  rw [beMsgGetY, tree_y]
  cases m.query.isSome with
  | true =>
      rfl
  | false =>
      rfl

theorem packetBody_tree (m : Msg) : packetBody m.tree = some (dictOf m.body) := by
  have hbody := m.tree_body
  rw [bodyKey] at hbody
  rw [packetBody, m.beMsgGetY_tree]
  cases hq : m.query.isSome with
  | true =>
      rw [hq] at hbody
      exact hbody
  | false =>
      rw [hq] at hbody
      exact hbody

theorem not_overlong_strOf {tok : BdToken} (h : tok.len ≤ bitdhtTokenMaxLen) :
    ¬ Overlong (strOf tok.data) :=
  not_lt.2 h

theorem nodesOf_strOf {ids : List BdId} (h : ∀ id ∈ ids, id.addr.sinFamily = afInet) :
    nodesOf (some (strOf (ids.flatMap encodeCompactNodeId))) = ids := by
  simp [nodesOf, fillNodes, beMsgGetListBdIds_strOf h]

/-- The version argument. -/
def vid : Msg → Option BdToken
  | .pong _ _ vid => some vid
  | _ => none

theorem versionNode_tree (m : Msg) :
    versionNode m.tree m.type = m.vid.map (fun v => strOf v.data) := by
  cases m
  case pong tid id vid =>
    exact fourth_field (by decide) (by decide) (by decide) (by decide)
  -- this reply is taken for a PONG, and has no version
  case replyAnnounce tid id =>
    simp (disch := decide) only [versionNode, type, if_true, tree, entries, beMsgGetDictNode_there,
      beMsgGetDictNode_nil]
    rfl
  all_goals
    rfl

theorem vid_mem_tokens {m : Msg} {v : BdToken} (h : m.vid = some v) : v ∈ m.tokens := by
  cases m
  case pong tid id vid =>
    cases h
    simp [tokens]
  all_goals
    cases h

/-- Every key that the blocks look up is in the body of a message of the type. -/
theorem laterKeys_tree (m : Msg) :
    ∀ k ∈ laterKeys m.type, beMsgGetDictNode (dictOf m.body) (ascii k) ≠ none := by
  cases m
  all_goals
    simp (disch := decide) [laterKeys, type, targetKey, nodesKey, valuesKey, tokenKey, portKey,
      body, beMsgGetDictNode_here, beMsgGetDictNode_there]

theorem parseFields_tree {m : Msg} (hargs : m.ArgsOk) :
    (parseFields m.tree m.type m.query.isSome).run = .ok (some (dictOf m.body,
      fieldsOf m.tree m.type (strOf m.tid.data) (dictOf m.body) (strOf m.id.data))) := by
  have hbody := m.tree_body
  rw [bodyKey] at hbody
  refine parseFields_ok m.tree_t (not_overlong_strOf (hargs.tokens _ m.tid_mem_tokens)) hbody
    m.body_id ?_ m.laterKeys_tree
  -- the version is a token of the builder
  intro v hv
  rw [versionNode_tree] at hv
  rcases Option.map_eq_some_iff.1 hv with ⟨vid, hvid, rfl⟩
  exact not_overlong_strOf (hargs.tokens vid (vid_mem_tokens hvid))

/-- The switch passes on the arguments of the builder, and an empty token. -/
theorem dispatch_tree {m : Msg} (hargs : m.ArgsOk) {addr : SockaddrIn} {c : MsgIn}
    (hc : m.callWith addr BdToken.empty = some c) (s : BdNode mFns) (p : List UInt8) (len : Nat) :
    dispatch s p len addr m.type (dictOf m.body)
        (fieldsOf m.tree m.type (strOf m.tid.data) (dictOf m.body) (strOf m.id.data)) =
      pure (.msgin c) := by
  have hversion : (versionNode m.tree m.type).map tokenOf = m.vid := by
    rw [versionNode_tree]
    cases m.vid <;> rfl
  have htid : tokenOf (strOf m.tid.data) = m.tid := rfl
  rw [fieldsOf, hversion, htid, beMsgGetNodeId_strOf]
  have hids := hargs.bdIds
  cases m
  case newconn | replyNewconn | broadcastConn | askConn | replyConn =>
    cases hc
  all_goals
    cases hc
    simp only [bdIds] at hids
    simp (disch := decide) [dispatch, type, tid, id, vid, field, targetKey, nodesKey, valuesKey,
      portKey, body, beMsgGetDictNode_here, beMsgGetDictNode_there,
      beMsgGetNodeId_strOf, nodesOf_strOf hids, fillValues, beMsgGetListStrings_strOf,
      beMsgGetUInt32_toNat]

/-- A message of the eight kinds is decoded and its handler called, with an empty token. -/
theorem recvAct_built {s : BdNode mFns} {addr : SockaddrIn}
    (hblack : s.isMemberOfBlackList addr = false) {m : Msg} (hargs : m.ArgsOk) {c : MsgIn}
    (hc : m.callWith addr BdToken.empty = some c) {p : List UInt8}
    (hdec : beDecoden p p.length = .ok (some m.tree)) :
    (s.recvAct p p.length addr).run = .ok (some (.msgin c)) := by
  have hknown : m.type ≠ .unknown := by
    cases m <;> simp [type]
  have hquery : decide ((if m.query.isSome then BeY.q else BeY.r) = .q) = m.query.isSome := by
    cases m.query.isSome <;> rfl
  rw [BdNode.recvAct_known hblack hdec m.beMsgType_tree hknown m.beMsgGetY_tree, hquery,
    bind_of_some (parseFields_tree hargs), dispatch_tree hargs hc]
  rfl

/-- A builder fills a buffer, and whoever gets the message from `addr` calls its handler. -/
def Delivered (m : Msg) (s : BdNode mFns) (addr : SockaddrIn) (msg : List UInt8) (avail : Int) :
    Prop :=
  ∃ buf len c, m.build msg avail = .ok (buf, len) ∧ m.call addr = some c ∧
    s.CallsOnce (buf.take len) addr c

/-- The handler is called with an empty token, so the message counts as delivered exactly when that
is the call that belongs to it. -/
theorem delivered_iff_call {m : Msg} (hargs : m.ArgsOk) {addr : SockaddrIn}
    (hkind : m.call addr ≠ none) {s : BdNode mFns} (hblack : s.isMemberOfBlackList addr = false)
    {msg : List UInt8} {avail : Int} (hfit : ((bencode m.tree).length : Int) < avail)
    (hmsg : avail ≤ msg.length) (hint : avail ≤ intMax) :
    m.Delivered s addr msg avail ↔ m.callWith addr BdToken.empty = m.call addr := by
  rcases m.tree_encodable.roundTrip hfit hmsg hint with ⟨rest, hrun, _, hdec⟩
  rw [← build_eq] at hrun
  have htake : (bencode m.tree ++ rest).take (bencode m.tree).length = bencode m.tree := by simp
  have hp : beDecoden (bencode m.tree) (bencode m.tree).length = .ok (some m.tree) := by
    have hnil := hdec []
    rw [List.append_nil] at hnil
    rw [beDecoden, hnil]
    rfl
  rcases hcall : m.callWith addr BdToken.empty with _ | c
  -- a kind without a handler call contradicts `hkind`
  · cases m
    all_goals
      first
      | exact absurd rfl hkind
      | cases hcall
  · have hact := recvAct_built hblack hargs hcall hp
    constructor
    · rintro ⟨buf, len, c', hbuild, hc', hcalls⟩
      -- what was built is the encoding, and `recvPkt` makes one call for it
      rw [hrun] at hbuild
      cases hbuild
      rw [htake, BdNode.callsOnce_iff, hact] at hcalls
      cases hcalls
      exact hc'.symm
    · intro hc
      refine ⟨_, _, c, hrun, hc.symm, ?_⟩
      rw [htake, BdNode.callsOnce_iff]
      exact hact

/-- The messages that reach their handler with all their arguments are those without a token
argument and those whose token is empty. -/
theorem delivered_iff {m : Msg} (hargs : m.ArgsOk) {addr : SockaddrIn} (hkind : m.call addr ≠ none)
    {s : BdNode mFns} (hblack : s.isMemberOfBlackList addr = false) {msg : List UInt8}
    {avail : Int} (hfit : ((bencode m.tree).length : Int) < avail) (hmsg : avail ≤ msg.length)
    (hint : avail ≤ intMax) :
    m.Delivered s addr msg avail ↔ m.token = BdToken.empty := by
  rw [delivered_iff_call hargs hkind hblack hfit hmsg hint]
  exact callWith_eq_call_iff hkind

/-- A query for a node reaches its handler. -/
theorem delivered_iff_findNode :
    (Msg.findNode ⟨[97]⟩ ⟨List.replicate 20 1, rfl⟩ ⟨List.replicate 20 2, rfl⟩).Delivered
        (BdNode.new bdZeroNodeId [] [] (fun _ => 0) : BdNode bdStdDht) ⟨afInet, 16777343, 8080⟩
        (List.replicate 128 0) 128 ↔
      BdToken.empty = BdToken.empty :=
  delivered_iff ⟨by decide, by decide⟩ (by decide) rfl (by decide +kernel)
    (by rw [List.length_replicate]; exact Int.le_refl _) (by decide)

/-- A POST_HASH with the token `b` reaches its handler with an empty token. -/
theorem not_delivered_postHash :
    ¬ (Msg.postHash ⟨[97]⟩ ⟨List.replicate 20 1, rfl⟩ ⟨List.replicate 20 2, rfl⟩ 80 ⟨[98]⟩).Delivered
        (BdNode.new bdZeroNodeId [] [] (fun _ => 0) : BdNode bdStdDht) ⟨afInet, 16777343, 8080⟩
        (List.replicate 256 0) 256 := by
  rw [delivered_iff_call ⟨by decide, by decide⟩ (by decide) rfl (by decide +kernel)
    (by rw [List.length_replicate]; exact Int.le_refl _) (by decide)]
  decide

end Msg

end BitDht
