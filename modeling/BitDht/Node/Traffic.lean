import BitDht.Node.Tick
import BitDht.Node.Trailer

/-!
# Traffic — the messages of nodes, received by nodes

Delivery is about the messages that need no trailer and name no pair.  Here are all of them: what is made
by a `msgout_` function of one node is dropped by another one, or it gets its sender on the blacklist, or
the handler of its kind is called with what the first node put in (`Msg.recvActOn_built`).
-/

namespace BitDht

open Outcome Recv

variable {mFns : BdDhtFunctions}

namespace Msg

/-- The handler call for a message from `addr`, of any kind. -/
def handlerCall (addr : SockaddrIn) : Msg → Option MsgIn
  | .newconn tid id => some (.askMyip ⟨addr, some id⟩ tid)
  | .replyNewconn tid _ peerId _ => some (.replyAskMyip peerId tid)
  | .broadcastConn tid id nodeId peerId =>
      some (.broadcastConn ⟨addr, some id⟩ tid nodeId peerId)
  | .askConn tid id nodeId peerId => some (.askConn ⟨addr, some id⟩ tid nodeId peerId)
  | m => m.callWith addr BdToken.empty

theorem bdIdOf_strOf {id : BdId} (h : id.addr.sinFamily = afInet) :
    bdIdOf (some (strOf (encodeCompactNodeId id))) = some id := by
  have hget := beMsgGetBdId_eq (strOf (encodeCompactNodeId id))
  rw [beMsgGetBdId_strOf h, Except.ok.injEq] at hget
  exact hget.symm

/-! ## The switch -/

section switch

variable {m : Msg} (s : BdNode mFns) (p : List UInt8) (len : Nat) {addr : SockaddrIn} {c : MsgIn}

/-- The two messages that name a pair. -/
theorem dispatch_pair (hargs : m.ArgsOk)
    (hpair : m.type = .broadcastConn ∨ m.type = .askConn) (hc : m.handlerCall addr = some c) :
    dispatch s p len addr m.type (dictOf m.body)
        (fieldsOf m.tree m.type (strOf m.tid.data) (dictOf m.body) (strOf m.id.data)) =
      pure (.msgin c) := by
  have htid : tokenOf (strOf m.tid.data) = m.tid := rfl
  have hids := hargs.bdIds
  rw [fieldsOf, htid, beMsgGetNodeId_strOf]
  cases m
  case broadcastConn tid own nodeId peerId =>
    cases hc
    simp (disch := decide) only [type, body, dispatch_broadcastConn, beMsgGetDictNode_here,
      beMsgGetDictNode_there, Option.bind_some, beMsgGetNodeId_strOf, id]
    rfl
  case askConn tid own nodeId peerId =>
    cases hc
    have hpid := bdIdOf_strOf (hids peerId (by simp [bdIds]))
    simp (disch := decide) only [type, body, dispatch_askConn, beMsgGetDictNode_here,
      beMsgGetDictNode_there, Option.bind_some, beMsgGetNodeId_strOf, hpid, id]
    rfl
  all_goals
    simp [type] at hpair

/-- The two messages with a trailer are judged by it. -/
theorem dispatchOn_conn (hargs : m.ArgsOk) (hconn : m.type = .newconn ∨ m.type = .replyNewconn)
    (hc : m.handlerCall addr = some c) (word : UInt32) :
    dispatchOn word s p len addr m.type (dictOf m.body)
        (fieldsOf m.tree m.type (strOf m.tid.data) (dictOf m.body) (strOf m.id.data)) =
      recvEcryptedOn word s p len addr c := by
  have htid : tokenOf (strOf m.tid.data) = m.tid := rfl
  have hids := hargs.bdIds
  rw [fieldsOf, htid, beMsgGetNodeId_strOf]
  rcases eq_of_conn hconn with ⟨tid, own, rfl⟩ | ⟨tid, own, peerId, started, rfl⟩
  · cases hc
    rfl
  · cases hc
    have hpid := bdIdOf_strOf (hids peerId (by simp [bdIds]))
    simp (disch := decide) only [type, body, dispatchOn_replyNewconn, beMsgGetDictNode_here,
      beMsgGetDictNode_there, hpid]
    rfl

end switch

/-! ## Packets -/

theorem type_ne_unknown (m : Msg) : m.type ≠ .unknown := by
  cases m <;> simp [type]

/-- A message has a handler, or it is a REPLY_CONN, which no node sends. -/
theorem handlerCall_eq_none {m : Msg} {addr : SockaddrIn} (h : m.handlerCall addr = none) :
    m.type = .replyConn := by
  cases m
  case replyConn =>
    rfl
  all_goals
    cases h

/-- What `recvPkt` makes of a message that another node built, with `z` for its trailer. -/
inductive Understood (m : Msg) (addr : SockaddrIn) : Option RecvAct → Prop
  | dropped : Understood m addr none
  | blackListed : Understood m addr (some (.addBlackList addr))
  | handled {c : MsgIn} (hc : m.handlerCall addr = some c) : Understood m addr (some (.msgin c))

/-- The blocks let a message of a sender that is not on the blacklist pass, so the switch decides. -/
theorem recvActOn_dispatchOn {m : Msg} (h : m.Short) (hargs : m.ArgsOk) (z : List UInt8)
    {s : BdNode mFns} {addr : SockaddrIn} (hblack : s.isMemberOfBlackList addr = false)
    (word : UInt32) : s.recvActOn word (bencode m.tree ++ z) (bencode m.tree ++ z).length addr =
      dispatchOn word s (bencode m.tree ++ z) (bencode m.tree ++ z).length addr m.type (dictOf m.body)
        (fieldsOf m.tree m.type (strOf m.tid.data) (dictOf m.body) (strOf m.id.data)) := by
  have hquery : decide ((if m.query.isSome then BeY.q else BeY.r) = .q) = m.query.isSome := by
    cases m.query.isSome <;> rfl
  rw [BdNode.recvActOn_known hblack (h.beDecoden_tree z) m.beMsgType_tree m.type_ne_unknown
    m.beMsgGetY_tree, hquery, bind_of_some (parseFields_tree hargs)]

/-- A message that needs no trailer and names no pair has its handler called, unless its sender is on the
blacklist. -/
theorem recvActOn_handled {m : Msg} (h : m.Short) (hargs : m.ArgsOk) (z : List UInt8)
    {s : BdNode mFns} {addr : SockaddrIn} (hblack : s.isMemberOfBlackList addr = false) {c : MsgIn}
    (hc : m.callWith addr BdToken.empty = some c) (word : UInt32) :
    (s.recvActOn word (bencode m.tree ++ z) (bencode m.tree ++ z).length addr).run =
      .ok (some (.msgin c)) := by
  have hplain : m.type ≠ .newconn ∧ m.type ≠ .replyNewconn := by
    cases m
    case newconn | replyNewconn => cases hc
    all_goals simp [type]
  rw [recvActOn_dispatchOn h hargs z hblack, dispatchOn_plain hplain.1 hplain.2,
    dispatch_tree hargs hc]
  rfl

/-- A message of a node is dropped, or its sender put on the blacklist, or its handler is called with
the arguments that it was built from. -/
theorem recvActOn_built {m : Msg} (h : m.Short) (hargs : m.ArgsOk) (z : List UInt8)
    (s : BdNode mFns) (addr : SockaddrIn) (word : UInt32) :
    ∃ act, (s.recvActOn word (bencode m.tree ++ z) (bencode m.tree ++ z).length addr).run =
      .ok act ∧ m.Understood addr act := by
  by_cases hblack : s.isMemberOfBlackList addr = true
  · exact ⟨none, by simp [BdNode.recvActOn, hblack], .dropped⟩
  rw [Bool.not_eq_true] at hblack
  by_cases hconn : m.type = .newconn ∨ m.type = .replyNewconn
  · rcases hc : m.handlerCall addr with _ | c
    · rw [handlerCall_eq_none hc] at hconn
      simp at hconn
    · have hlen : 8 ≤ (bencode m.tree ++ z).length := by
        rcases (reachesTrailer h hconn z).parsed with ⟨n, y, t, d, i, _, _, _, _, _, _, hlen, _⟩
        exact hlen
      rw [recvActOn_dispatchOn h hargs z hblack, dispatchOn_conn s _ _ hargs hconn hc word,
        recvEcryptedOn_run word s hlen]
      refine ⟨_, rfl, ?_⟩
      split_ifs
      · exact .blackListed
      · exact .handled hc
      · exact .dropped
  · rw [not_or] at hconn
    by_cases hpair : m.type = .broadcastConn ∨ m.type = .askConn
    · rcases hc : m.handlerCall addr with _ | c
      · rw [handlerCall_eq_none hc] at hpair
        simp at hpair
      · rw [recvActOn_dispatchOn h hargs z hblack, dispatchOn_plain hconn.1 hconn.2,
          dispatch_pair s _ _ hargs hpair hc]
        exact ⟨_, rfl, .handled hc⟩
    · rcases hc : m.callWith addr BdToken.empty with _ | c
      · -- the other kind without such a call is the one that no handler is for
        rw [recvActOn_dispatchOn h hargs z hblack, dispatchOn_plain hconn.1 hconn.2]
        refine ⟨none, ?_, .dropped⟩
        cases m
        case replyConn => rfl
        case newconn => exact absurd rfl hconn.1
        case replyNewconn => exact absurd rfl hconn.2
        case broadcastConn => exact absurd (.inl rfl) hpair
        case askConn => exact absurd (.inr rfl) hpair
        all_goals cases hc
      · refine ⟨_, recvActOn_handled h hargs z hblack hc word, .handled ?_⟩
        cases m
        case newconn | replyNewconn | broadcastConn | askConn | replyConn => cases hc
        all_goals exact hc

end Msg

/-! ## What is read from a message -/

theorem IsToken.unique {n : Option BeNode} {a b : BdToken} (ha : IsToken n a) (hb : IsToken n b) :
    a = b := by
  have heq := ha.symm.trans hb
  simpa using heq

theorem IsNodeId.unique {n : Option BeNode} {a b : BdNodeId} (ha : IsNodeId n a)
    (hb : IsNodeId n b) : a = b :=
  Option.some.inj (ha.symm.trans hb)

theorem IsBdId.unique {n : Option BeNode} {a b : BdId} (ha : IsBdId n a) (hb : IsBdId n b) :
    a = b := by
  have heq := ha.symm.trans hb
  simpa using heq

theorem IsBdIdList.unique {n : Option BeNode} {a b : List BdId} (ha : IsBdIdList n a)
    (hb : IsBdIdList n b) : a = b := by
  have heq := ha.symm.trans hb
  simpa using heq

/-! ## Messages that a node has made -/

/-- The message is the one of a call of a `msgout_` function by a node with the id `own`. -/
def MsgoutCall.MadeBy (mFns : BdDhtFunctions) (own : BdNodeId) (c : MsgoutCall) (m : BdNodeNetMsg) :
    Prop :=
  ∃ s : BdNode mFns, s.mOwnId = own ∧ c.ArgsFit ∧ m = c.packet s

namespace MsgoutCall

/-- The compact ids in the message. -/
def bdIds : MsgoutCall → List BdId
  | .replyFindNode _ _ peers => peers
  | .replyAskMyip tunnelId _ => [tunnelId]
  | .askConn _ _ _ peerId => [peerId]
  | _ => []

theorem msg_argsOk {c : MsgoutCall} (h : c.ArgsFit)
    (hinet : ∀ id ∈ c.bdIds, id.addr.sinFamily = afInet) (s : BdNode mFns) :
    (c.msg s).ArgsOk := by
  refine ⟨(msg_short h s).tokens, ?_⟩
  cases c <;> exact hinet

/-- What a packet of a node begins with. -/
theorem exists_packet_data (c : MsgoutCall) (s : BdNode mFns) :
    ∃ z, (c.packet s).data = bencode (c.msg s).tree ++ z := by
  rw [packet]
  dsimp only
  split_ifs
  · exact ⟨_, rfl⟩
  · exact ⟨[], (List.append_nil _).symm⟩

/-- The handler call that the message leads to, where its sender has the id `own` and the version `vid`. -/
def handler (own : BdNodeId) (vid : BdToken) (addr : SockaddrIn) : MsgoutCall → MsgIn
  | .ping _ transId => .ping ⟨addr, some own⟩ transId
  | .pong _ transId => .pong ⟨addr, some own⟩ transId (some vid)
  | .findNode _ transId query => .findNode ⟨addr, some own⟩ transId (some query)
  | .replyFindNode _ transId peers => .replyFindNode ⟨addr, some own⟩ transId peers
  | .askMyip _ transId => .askMyip ⟨addr, some own⟩ transId
  | .replyAskMyip tunnelId transId => .replyAskMyip tunnelId transId
  | .broadcastConn _ tid nodeId peerId => .broadcastConn ⟨addr, some own⟩ tid nodeId peerId
  | .askConn _ tid nodeId peerId => .askConn ⟨addr, some own⟩ tid nodeId peerId

theorem handlerCall_msg (c : MsgoutCall) (s : BdNode mFns) (addr : SockaddrIn) :
    (c.msg s).handlerCall addr = some (c.handler s.mOwnId s.versionToken addr) := by
  cases c <;> rfl

/-- Its tokens are the transaction id and the version. -/
theorem len_of_mem_tokens {c : MsgoutCall} (h : c.ArgsFit) {vid : BdToken}
    (hvid : vid.len ≤ bitdhtTokenMaxLen) {own : BdNodeId} {addr : SockaddrIn} :
    ∀ tok ∈ (c.handler own vid addr).tokens, tok.len ≤ bitdhtTokenMaxLen := by
  intro tok htok
  cases c with
  | pong id transId =>
      rcases List.mem_pair.1 htok with rfl | rfl
      · exact h
      · exact hvid
  | replyFindNode id transId peers =>
      rw [List.mem_singleton.1 htok]
      exact h.1
  | ping | findNode | askMyip | replyAskMyip | broadcastConn | askConn =>
      rw [List.mem_singleton.1 htok]
      exact h

/-- A packet of one node at another one. -/
theorem MadeBy.recvActOn {own : BdNodeId} {c : MsgoutCall} {m : BdNodeNetMsg}
    (h : c.MadeBy mFns own m) (hinet : ∀ id ∈ c.bdIds, id.addr.sinFamily = afInet)
    (r : BdNode mFns) (addr : SockaddrIn) (word : UInt32) :
    ∃ act, (r.recvActOn word m.data m.data.length addr).run = .ok act ∧
      (act = none ∨ act = some (.addBlackList addr) ∨
        ∃ vid : BdToken, vid.len ≤ bitdhtTokenMaxLen ∧
          act = some (.msgin (c.handler own vid addr))) := by
  rcases h with ⟨s, rfl, hfit, rfl⟩
  rcases c.exists_packet_data s with ⟨z, hz⟩
  rcases Msg.recvActOn_built (msg_short hfit s) (msg_argsOk hfit hinet s) z r addr word with
    ⟨act, hact, hunder⟩
  refine ⟨act, by rw [hz]; exact hact, ?_⟩
  cases hunder with
  | dropped => exact .inl rfl
  | blackListed => exact .inr (.inl rfl)
  | handled hc =>
      rw [handlerCall_msg, Option.some.injEq] at hc
      exact .inr (.inr ⟨s.versionToken, s.len_versionToken_le, by rw [hc]⟩)

/-- The calls whose messages make their senders peers. -/
def fromPeer : MsgoutCall → Bool
  | .ping .. | .pong .. | .findNode .. | .replyFindNode .. => true
  | _ => false

theorem MadeBy.addr {own : BdNodeId} {c : MsgoutCall} {m : BdNodeNetMsg}
    (h : c.MadeBy mFns own m) : m.addr = c.receiver.addr := by
  rcases h with ⟨s, _, _, rfl⟩
  rfl

theorem MadeBy.length_le {own : BdNodeId} {c : MsgoutCall} {m : BdNodeNetMsg}
    (h : c.MadeBy mFns own m) : m.data.length ≤ bitdhtMaxPktsize := by
  rcases h with ⟨s, _, hfit, rfl⟩
  exact length_packet_le hfit s

/-- The trees of two messages that make the same packet. -/
theorem MadeBy.tree_eq {c c' : MsgoutCall} {own own' : BdNodeId} {m : BdNodeNetMsg}
    (hmade : c.MadeBy mFns own m) (hmade' : c'.MadeBy mFns own' m) :
    ∃ s s' : BdNode mFns, c.ArgsFit ∧ c'.ArgsFit ∧ (c.msg s).tree = (c'.msg s').tree := by
  rcases hmade with ⟨s, _, hfit, rfl⟩
  rcases hmade' with ⟨s', _, hfit', heq⟩
  refine ⟨s, s', hfit, hfit', ?_⟩
  rcases c.exists_packet_data s with ⟨z, hz⟩
  rcases c'.exists_packet_data s' with ⟨z', hz'⟩
  have hdec := (msg_short hfit s).beDecoden_tree z
  have hdec' := (msg_short hfit' s').beDecoden_tree z'
  rw [← hz, heq, hz', hdec'] at hdec
  simpa using hdec.symm

end MsgoutCall

end BitDht
