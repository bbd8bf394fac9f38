import BitDht.Node.Delivery
import BitDht.Node.Handlers
import BitDht.Node.Sending

/-!
# Rendezvous — two parties that ask for each other

A node that hears of the same pair from both of its parties sends each of them an ask_conn about the
other one.  `msginBroadcastConn_eq` says which calls of `msgout_ask_conn` a broadcast_conn leads to,
and the two results about them are `introduced_iff`, about the messages of one match, and
`pairMatched_iff`, about what was heard before in a whole run.
-/

namespace BitDht

open Container Outcome Recv

variable {mFns : BdDhtFunctions}

/-! ## What a broadcast_conn leads to -/

/-- A broadcast_conn as it reaches its handler. -/
structure BroadcastConn where
  id : BdId
  tid : BdToken
  nodeId : BdNodeId
  peerId : BdNodeId
  deriving DecidableEq

namespace BroadcastConn

/-- The sender is one of the pair. -/
def FromParty (m : BroadcastConn) : Prop :=
  m.id.id = m.nodeId ∨ m.id.id = m.peerId

instance (m : BroadcastConn) : Decidable m.FromParty :=
  inferInstanceAs (Decidable (_ ∨ _))

/-- The one of the pair that is not the sender. -/
def other (m : BroadcastConn) : BdNodeId :=
  if m.id.id = m.nodeId then m.peerId else m.nodeId

end BroadcastConn

/-- The arguments of `msgout_ask_conn` besides the transaction id. -/
structure AskConn where
  id : BdId
  nodeId : BdNodeId
  peerId : BdId
  deriving DecidableEq

namespace BdNode

/-- The handler's call for `m`. -/
def recvBroadcast (s : BdNode mFns) (m : BroadcastConn) : Exec (BdNode mFns) :=
  s.msginBroadcastConn m.id m.tid m.nodeId m.peerId

/-- The node with what the sender said noted. -/
def hear (s : BdNode mFns) (m : BroadcastConn) : BdNode mFns :=
  if m.FromParty then
    { s with mConnectRequests := s.mConnectRequests.assign m.id.id m.other,
             mPeerAddrs := s.mPeerAddrs.assign m.id.id m.id.addr }
  else
    s

/-- The calls of `msgout_ask_conn` for `m`.  Both messages are for the node `m.peerId` when the
sender comes first in the pair. -/
def asks (s : BdNode mFns) (m : BroadcastConn) : List AskConn :=
  if m.FromParty then
    match (s.hear m).mPeerAddrs.find m.other with
    | none => []
    | some addr =>
        let peer : BdId := { addr := addr, id := m.other }
        [{ id := peer, nodeId := m.other, peerId := m.id },
          { id := m.id, nodeId := m.peerId, peerId := peer }]
  else
    []

/-- The message of the call, with the next transaction id. -/
def askMsg (s : BdNode mFns) (a : AskConn) : List UInt8 :=
  bencode (Msg.askConn s.genNewTransId.1 s.mOwnId a.nodeId a.peerId).tree

/-- The node after the call. -/
def askConn (s : BdNode mFns) (a : AskConn) : BdNode mFns :=
  s.genNewTransId.2.queueMsg (s.askMsg a) a.id.addr

theorem msgoutAskConn_askConn (s : BdNode mFns) (a : AskConn) :
    s.genNewTransId.2.msgoutAskConn a.id s.genNewTransId.1 a.nodeId a.peerId =
      .ok (s.askConn a) :=
  msgoutAskConn_eq s.genNewTransId.2 s.len_genNewTransId_le a.id a.nodeId a.peerId

/-- Without a recorded address of the other party nothing is sent. -/
theorem matchConn_alone {s : BdNode mFns} {id : BdId} {other : BdNodeId}
    (h : (s.mPeerAddrs.assign id.id id.addr).find other = none) (self nid₁ nid₂ : BdNodeId) :
    s.matchConn id self other nid₁ nid₂ =
      .ok { s with mConnectRequests := s.mConnectRequests.assign self other,
                   mPeerAddrs := s.mPeerAddrs.assign id.id id.addr } := by
  simp only [matchConn, h]
  rfl

/-- With one, two messages are. -/
theorem matchConn_pair {s : BdNode mFns} {id : BdId} {other : BdNodeId} {addr : SockaddrIn}
    (h : (s.mPeerAddrs.assign id.id id.addr).find other = some addr) (self nid₁ nid₂ : BdNodeId) :
    s.matchConn id self other nid₁ nid₂ =
      .ok (({ s with mConnectRequests := s.mConnectRequests.assign self other,
                     mPeerAddrs := s.mPeerAddrs.assign id.id id.addr }.askConn
        ⟨⟨addr, other⟩, nid₁, id⟩).askConn ⟨id, nid₂, ⟨addr, other⟩⟩) := by
  simp only [matchConn, h]
  rw [msgoutAskConn_askConn _ ⟨⟨addr, other⟩, nid₁, id⟩, ok_bind]
  exact msgoutAskConn_askConn _ ⟨id, nid₂, ⟨addr, other⟩⟩

/-- The handler notes what it heard and makes its calls. -/
theorem msginBroadcastConn_eq (s : BdNode mFns) (m : BroadcastConn) :
    s.recvBroadcast m = .ok ((s.asks m).foldl askConn (s.hear m)) := by
  rw [recvBroadcast, msginBroadcastConn]
  by_cases hparty : m.FromParty
  · -- both branches note the same and differ in the ids of the two messages
    have hhandler : (if m.id.id = m.nodeId then
          s.matchConn m.id m.nodeId m.peerId m.peerId m.peerId
        else if m.id.id = m.peerId then
          s.matchConn m.id m.peerId m.nodeId m.nodeId m.peerId
        else pure s) = s.matchConn m.id m.id.id m.other m.other m.peerId := by
      by_cases hnode : m.id.id = m.nodeId
      · rw [if_pos hnode, BroadcastConn.other, if_pos hnode, hnode]
      · have hpeer : m.id.id = m.peerId := hparty.resolve_left hnode
        rw [if_neg hnode, if_pos hpeer, BroadcastConn.other, if_neg hnode, hpeer]
    rw [hhandler, asks, if_pos hparty, hear, if_pos hparty]
    cases hfind : (s.mPeerAddrs.assign m.id.id m.id.addr).find m.other with
    | none =>
        rw [matchConn_alone hfind]
        rfl
    | some addr =>
        rw [matchConn_pair hfind]
        rfl
  · rw [if_neg (fun h => hparty (.inl h)), if_neg (fun h => hparty (.inr h)), asks, if_neg hparty,
      hear, if_neg hparty]
    rfl

theorem find_hear_self (s : BdNode mFns) {m : BroadcastConn} (hparty : m.FromParty) :
    (s.hear m).mPeerAddrs.find m.id.id = some m.id.addr := by
  rw [hear, if_pos hparty]
  exact OrdMap.find_assign_self s.mPeerAddrs m.id.id m.id.addr

theorem find_hear_ne (s : BdNode mFns) {m : BroadcastConn} {id : BdNodeId}
    (h : m.FromParty → id ≠ m.id.id) :
    (s.hear m).mPeerAddrs.find id = s.mPeerAddrs.find id := by
  rw [hear]
  split_ifs with hparty
  · exact OrdMap.find_assign_ne s.mPeerAddrs (h hparty) m.id.addr
  · rfl

/-- The calls change the queue for the socket and the counter of transaction ids only. -/
theorem foldl_askConn_mPeerAddrs (s : BdNode mFns) (l : List AskConn) :
    (l.foldl askConn s).mPeerAddrs = s.mPeerAddrs := by
  induction l generalizing s with
  | nil =>
      rfl
  | cons a l ih =>
      exact ih (s.askConn a)

end BdNode

/-! ## An ask_conn on its way -/

/-- The id with the address family that `decodeCompactPeerId` gives it. -/
def BdId.inet (id : BdId) : BdId where
  addr := { id.addr with sinFamily := afInet }
  id := id.id

theorem bdIdEq_inet (id : BdId) : bdIdEq id.inet id = true :=
  bdIdEq_iff.2 ⟨rfl, rfl, rfl⟩

section askConn

variable {tid : BdToken} (htid : tid.len ≤ bitdhtTokenMaxLen) (own nodeId : BdNodeId)
  (peerId : BdId)

include htid in
theorem askConn_argsOk : (Msg.askConn tid own nodeId peerId.inet).ArgsOk :=
  ⟨by simp [Msg.tokens, htid], by simp [Msg.bdIds, BdId.inet]⟩

include htid in
theorem beDecoden_askConn :
    beDecoden (bencode (Msg.askConn tid own nodeId peerId).tree)
        (bencode (Msg.askConn tid own nodeId peerId).tree).length =
      .ok (some (Msg.askConn tid own nodeId peerId.inet).tree) := by
  have hshort : (Msg.askConn tid own nodeId peerId).Short := Msg.askConn_short htid
  have hdec := hshort.beDecoden_tree []
  rwa [List.append_nil] at hdec

/-- The switch passes on the node and the peer. -/
theorem dispatch_askConn_tree (r : BdNode mFns) (p : List UInt8) (len : Nat) (addr : SockaddrIn) :
    dispatch r p len addr .askConn (dictOf (Msg.askConn tid own nodeId peerId.inet).body)
        (fieldsOf (Msg.askConn tid own nodeId peerId.inet).tree .askConn (strOf tid.data)
          (dictOf (Msg.askConn tid own nodeId peerId.inet).body) (strOf own.data)) =
      pure (.msgin (.askConn ⟨addr, some own⟩ tid nodeId peerId.inet)) := by
  have hpid : beMsgGetBdId (strOf (encodeCompactNodeId peerId.inet)) = .ok (some peerId.inet) :=
    beMsgGetBdId_strOf rfl
  have htoken : tokenOf (strOf tid.data) = tid := rfl
  rw [fieldsOf, htoken, beMsgGetNodeId_strOf]
  simp (disch := decide) [dispatch, Msg.body, need, call, beMsgGetDictNode_here,
    beMsgGetDictNode_there, beMsgGetNodeId_strOf, hpid]
  rfl

include htid in
/-- Whoever listens to the sender calls the handler for it. -/
theorem recvAct_askConn {r : BdNode mFns} {addr : SockaddrIn}
    (hblack : r.isMemberOfBlackList addr = false) :
    (r.recvAct (bencode (Msg.askConn tid own nodeId peerId).tree)
        (bencode (Msg.askConn tid own nodeId peerId).tree).length addr).run =
      .ok (some (.msgin (.askConn ⟨addr, some own⟩ tid nodeId peerId.inet))) := by
  have hy : beMsgGetY (Msg.askConn tid own nodeId peerId.inet).tree = .ok .q :=
    Msg.beMsgGetY_tree _
  have hparse : (parseFields (Msg.askConn tid own nodeId peerId.inet).tree
      (Msg.askConn tid own nodeId peerId.inet).type (decide (BeY.q = .q))).run =
        .ok (some (_, _)) := Msg.parseFields_tree (askConn_argsOk htid own nodeId peerId)
  rw [BdNode.recvAct_known hblack (beDecoden_askConn htid own nodeId peerId)
    (Msg.beMsgType_tree _) (by simp [Msg.type]) hy, bind_of_some hparse]
  exact congrArg OptionT.run (dispatch_askConn_tree own nodeId peerId r _ _ addr)

end askConn

/-- The bytes are an ask_conn for the node `nodeId` about the peer `peerId`. -/
def AsksConn (data : List UInt8) (nodeId : BdNodeId) (peerId : BdId) : Prop :=
  ∃ n, beDecoden data data.length = .ok (some n) ∧ beMsgType n = .ok .askConn ∧
    IsNodeId (beMsgGetIn n "a" "nid") nodeId ∧
    ∃ p, IsBdId (beMsgGetIn n "a" "pid") p ∧ bdIdEq p peerId = true

theorem asksConn_bencode {tid : BdToken} (htid : tid.len ≤ bitdhtTokenMaxLen)
    (own nodeId : BdNodeId) (peerId : BdId) :
    AsksConn (bencode (Msg.askConn tid own nodeId peerId).tree) nodeId peerId := by
  rcases Msg.recoveredFrom_tree (askConn_argsOk htid own nodeId peerId) with ⟨_, _, hnid, hpid⟩
  exact ⟨_, beDecoden_askConn htid own nodeId peerId, Msg.beMsgType_tree _, hnid, peerId.inet, hpid,
    bdIdEq_inet peerId⟩

theorem AsksConn.unique {data : List UInt8} {nodeId nodeId' : BdNodeId} {peerId peerId' : BdId}
    (h : AsksConn data nodeId peerId) (h' : AsksConn data nodeId' peerId') : nodeId = nodeId' := by
  rcases h with ⟨n, hn, _, hnid, _⟩
  rcases h' with ⟨n', hn', _, hnid', _⟩
  have hnode : n = n' := by
    rw [hn, Except.ok.injEq, Option.some.injEq] at hn'
    exact hn'
  subst hnode
  rw [IsNodeId] at hnid hnid'
  rw [hnid, Option.some.injEq] at hnid'
  exact hnid'

/-- The message gets `recipient` to punch the peer `peer`. -/
structure Introduces (mFns : BdDhtFunctions) (m : BdNodeNetMsg) (recipient peer : BdId) : Prop where
  addr : m.addr = recipient.addr
  asks : AsksConn m.data recipient.id peer
  punches : ∀ (r : BdNode mFns) (now : Int) (junk : Junk) (addr : SockaddrIn),
    r.mOwnId = recipient.id → r.isMemberOfBlackList addr = false →
      ∃ r', r.recvPkt now junk m.data m.data.length addr = .ok r' ∧
        ∃ p ∈ r'.mPunching, bdIdEq p peer = true

theorem msginAskConn_mPunching {r : BdNode mFns} {nodeId : BdNodeId} (hown : r.mOwnId = nodeId)
    (id : BdId) (tid : BdToken) (peerId : BdId) :
    ∃ p ∈ (r.msginAskConn id tid nodeId peerId).mPunching, bdIdEq p peerId = true := by
  rw [BdNode.msginAskConn, if_pos hown]
  split_ifs with hknown
  · rcases List.any_eq_true.1 hknown with ⟨p, hp, hsame⟩
    refine ⟨p, hp, bdIdEq_iff.2 ?_⟩
    simp only [BdNode.sameSockaddr, Bool.and_eq_true, decide_eq_true_eq, beq_iff_eq] at hsame
    exact ⟨hsame.1, hsame.2.1.2, hsame.2.2⟩
  · exact ⟨peerId, by simp, bdIdEq_iff.2 ⟨rfl, rfl, rfl⟩⟩

/-- An ask_conn for its receiver introduces the peer. -/
theorem introduces_bencode {tid : BdToken} (htid : tid.len ≤ bitdhtTokenMaxLen) (own : BdNodeId)
    (recipient peer : BdId) :
    Introduces mFns ⟨bencode (Msg.askConn tid own recipient.id peer).tree, recipient.addr⟩ recipient peer := by
  refine ⟨rfl, ?_, ?_⟩
  · exact asksConn_bencode htid own recipient.id peer
  · intro r now junk addr hown hblack
    have hact := recvAct_askConn htid own recipient.id peer hblack
    refine ⟨r.msginAskConn ⟨addr, own⟩ tid recipient.id peer.inet, ?_, ?_⟩
    · rw [BdNode.recvPkt, hact]
      rfl
    · exact msginAskConn_mPunching hown ⟨addr, own⟩ tid peer.inet

/-! ## The messages of a match -/

/-- The sender `id` and the other party, both at the address that is recorded for them, were sent
one message each that introduces the other one, and nothing else was sent. -/
def Introduced (s s' : BdNode mFns) (id : BdId) (other : BdNodeId) : Prop :=
  ∃ addr m₁ m₂ l, s'.mPeerAddrs.find id.id = some id.addr ∧ s'.mPeerAddrs.find other = some addr ∧
    s'.mOutgoingMsgs = s.mOutgoingMsgs ++ l ∧ l.Perm [m₁, m₂] ∧
    Introduces mFns m₁ ⟨addr, other⟩ id ∧ Introduces mFns m₂ id ⟨addr, other⟩

section pairs

variable {s : BdNode mFns} {m : BroadcastConn} {addr : SockaddrIn}

/-- The node after a match, and its two messages. -/
theorem recvBroadcast_pair (hparty : m.FromParty)
    (hmatch : (s.hear m).mPeerAddrs.find m.other = some addr) :
    ∃ s' tid₁ tid₂, s.recvBroadcast m = .ok s' ∧ s'.mPeerAddrs = (s.hear m).mPeerAddrs ∧
      tid₁.len ≤ bitdhtTokenMaxLen ∧ tid₂.len ≤ bitdhtTokenMaxLen ∧
      s'.mOutgoingMsgs = s.mOutgoingMsgs ++
        [⟨bencode (Msg.askConn tid₁ s.mOwnId m.other m.id).tree, addr⟩,
          ⟨bencode (Msg.askConn tid₂ s.mOwnId m.peerId ⟨addr, m.other⟩).tree, m.id.addr⟩] := by
  have hasks : s.asks m = [⟨⟨addr, m.other⟩, m.other, m.id⟩, ⟨m.id, m.peerId, ⟨addr, m.other⟩⟩] := by
    rw [BdNode.asks, if_pos hparty, hmatch]
  have hhear : (s.hear m).mOutgoingMsgs = s.mOutgoingMsgs ∧ (s.hear m).mOwnId = s.mOwnId := by
    rw [BdNode.hear, if_pos hparty]
    exact ⟨rfl, rfl⟩
  refine ⟨_, (s.hear m).genNewTransId.1,
    ((s.hear m).askConn ⟨⟨addr, m.other⟩, m.other, m.id⟩).genNewTransId.1,
    s.msginBroadcastConn_eq m, BdNode.foldl_askConn_mPeerAddrs _ _,
    BdNode.len_genNewTransId_le _, BdNode.len_genNewTransId_le _, ?_⟩
  rw [hasks]
  calc
    ((s.hear m).askConn ⟨⟨addr, m.other⟩, m.other, m.id⟩ |>.askConn
        ⟨m.id, m.peerId, ⟨addr, m.other⟩⟩).mOutgoingMsgs
        = ((s.hear m).mOutgoingMsgs ++ [_]) ++ [_] := rfl
    _ = (s.hear m).mOutgoingMsgs ++ [_, _] := List.append_assoc _ _ _
    _ = _ := by
        rw [hhear.1, ← hhear.2]
        rfl

/-- The second message goes to the sender, and is for it only if the sender comes second in the
pair. -/
theorem Introduced.peerId_eq {s' : BdNode mFns} (hparty : m.FromParty)
    (hmatch : (s.hear m).mPeerAddrs.find m.other = some addr) (hrun : s.recvBroadcast m = .ok s')
    (h : Introduced s s' m.id m.other) : m.id.id = m.peerId := by
  rcases recvBroadcast_pair hparty hmatch with ⟨s'', tid₁, tid₂, hrun'', _, htid₁, htid₂, hout⟩
  rcases h with ⟨addr', m₁, m₂, l, _, _, hl, hperm, _, hsecond⟩
  have hsame : s'' = s' := by
    rw [hrun'', Except.ok.injEq] at hrun
    exact hrun
  rw [hsame, hl, List.append_cancel_left_eq] at hout
  -- the message for the sender is one of the two that were queued
  have hmem : m₂ ∈ l := hperm.mem_iff.2 (by simp)
  rw [hout, List.mem_cons, List.mem_singleton] at hmem
  rcases hmem with rfl | rfl
  · have hother : m.id.id = m.other := hsecond.asks.unique (asksConn_bencode htid₁ _ _ _)
    rcases hparty with hnode | hpeer
    · rwa [BroadcastConn.other, if_pos hnode] at hother
    · exact hpeer
  · exact hsecond.asks.unique (asksConn_bencode htid₂ _ _ _)

theorem introduced_of_peerId (hmatch : (s.hear m).mPeerAddrs.find m.other = some addr)
    (hpeer : m.id.id = m.peerId) : ∃ s', s.recvBroadcast m = .ok s' ∧
      Introduced s s' m.id m.other := by
  have hparty : m.FromParty := .inr hpeer
  rcases recvBroadcast_pair hparty hmatch with ⟨s', tid₁, tid₂, hrun, haddrs, htid₁, htid₂, hout⟩
  have hself : Introduces mFns
      ⟨bencode (Msg.askConn tid₂ s.mOwnId m.id.id ⟨addr, m.other⟩).tree, m.id.addr⟩ m.id
      ⟨addr, m.other⟩ := introduces_bencode htid₂ s.mOwnId m.id ⟨addr, m.other⟩
  rw [hpeer] at hself
  refine ⟨s', hrun, addr, _, _, _, ?_, ?_, hout, List.Perm.refl _,
    introduces_bencode htid₁ s.mOwnId ⟨addr, m.other⟩ m.id, hself⟩
  · rw [haddrs]
    exact s.find_hear_self hparty
  · rw [haddrs]
    exact hmatch

end pairs

/-- Where a broadcast_conn from a party of the pair makes a match, the parties are introduced to each
other exactly when the sender is the second of the pair. -/
theorem introduced_iff (s : BdNode mFns) (m : BroadcastConn) (hparty : m.FromParty)
    (hmatch : (s.hear m).mPeerAddrs.find m.other ≠ none) :
    (∃ s', s.msginBroadcastConn m.id m.tid m.nodeId m.peerId = .ok s' ∧
      Introduced s s' m.id m.other) ↔ m.id.id = m.peerId := by
  rcases Option.ne_none_iff_exists'.1 hmatch with ⟨addr, hfind⟩
  constructor
  · rintro ⟨s', hrun, h⟩
    exact h.peerId_eq hparty hfind hrun
  · intro hpeer
    exact introduced_of_peerId hfind hpeer

/-- The second of a pair reports after the first. -/
theorem introduced_iff_second :
    let a : BdNodeId := ⟨List.replicate 20 1, rfl⟩
    let b : BdNodeId := ⟨List.replicate 20 2, rfl⟩
    let s := (BdNode.new bdZeroNodeId [] [] (fun _ => 0) : BdNode bdStdDht).hear
      ⟨⟨⟨afInet, 1, 1⟩, a⟩, ⟨[]⟩, a, b⟩
    (∃ s', s.msginBroadcastConn ⟨⟨afInet, 2, 2⟩, b⟩ ⟨[]⟩ a b = .ok s' ∧
      Introduced s s' ⟨⟨afInet, 2, 2⟩, b⟩ a) ↔ b = b := by
  intro a b s
  exact introduced_iff s ⟨⟨⟨afInet, 2, 2⟩, b⟩, ⟨[]⟩, a, b⟩ (by decide) (by decide)

/-- The second of a pair has reported, and the first does: its message names the second as the node
that is to punch. -/
theorem not_introduced_first :
    let a : BdNodeId := ⟨List.replicate 20 1, rfl⟩
    let b : BdNodeId := ⟨List.replicate 20 2, rfl⟩
    let s := (BdNode.new bdZeroNodeId [] [] (fun _ => 0) : BdNode bdStdDht).hear
      ⟨⟨⟨afInet, 2, 2⟩, b⟩, ⟨[]⟩, a, b⟩
    ¬ ∃ s', s.msginBroadcastConn ⟨⟨afInet, 1, 1⟩, a⟩ ⟨[]⟩ a b = .ok s' ∧
      Introduced s s' ⟨⟨afInet, 1, 1⟩, a⟩ b := by
  intro a b s
  rintro ⟨s', hrun, h⟩
  have hmatch : (s.hear ⟨⟨⟨afInet, 1, 1⟩, a⟩, ⟨[]⟩, a, b⟩).mPeerAddrs.find b =
      some ⟨afInet, 2, 2⟩ := by decide
  have heq : a = b := Introduced.peerId_eq (m := ⟨⟨⟨afInet, 1, 1⟩, a⟩, ⟨[]⟩, a, b⟩) (by decide)
    hmatch hrun h
  exact absurd heq (by decide)

/-! ## Runs of broadcast_conns -/

/-- `a` has named the pair of `a` and `b`. -/
def Named (msgs : List BroadcastConn) (a b : BdNodeId) : Prop :=
  ∃ m ∈ msgs, m.FromParty ∧ m.id.id = a ∧ m.other = b

/-- `a` has named some pair that it is in. -/
def Reported (msgs : List BroadcastConn) (a : BdNodeId) : Prop :=
  ∃ m ∈ msgs, m.FromParty ∧ m.id.id = a

/-- Every ask_conn that is sent while `msgs` come in connects two parties that both named the
pair. -/
def PairMatched (s : BdNode mFns) (msgs : List BroadcastConn) : Prop :=
  ∀ pre m post s', msgs = pre ++ m :: post → pre.foldlM BdNode.recvBroadcast s = .ok s' →
    ∀ a ∈ s'.asks m, Named (pre ++ [m]) a.id.id a.peerId.id ∧ Named (pre ++ [m]) a.peerId.id a.id.id

/-- Whenever a message of a party comes in and the other party has reported before, the other party
has named the pair. -/
def NamedBack (msgs : List BroadcastConn) : Prop :=
  ∀ pre m post, msgs = pre ++ m :: post → m.FromParty → Reported pre m.other →
    Named (pre ++ [m]) m.other m.id.id

section runs

variable {s s' : BdNode mFns} {msgs : List BroadcastConn}

/-- The recorded addresses are those of the parties that have reported. -/
theorem find_run (hs : s.mPeerAddrs = OrdMap.empty)
    (hrun : msgs.foldlM BdNode.recvBroadcast s = .ok s') (id : BdNodeId) :
    s'.mPeerAddrs.find id ≠ none ↔ Reported msgs id := by
  induction msgs using List.reverseRecOn generalizing s' with
  | nil =>
      cases hrun
      rw [hs]
      simp [Reported]
  | append_singleton msgs m ih =>
      rw [List.foldlM_append] at hrun
      rcases bind_eq_ok.1 hrun with ⟨s₁, hs₁, hlast⟩
      rw [List.foldlM_cons, s₁.msginBroadcastConn_eq m, ok_bind] at hlast
      cases hlast
      rw [BdNode.foldl_askConn_mPeerAddrs]
      by_cases hself : m.FromParty ∧ id = m.id.id
      · rw [hself.2, s₁.find_hear_self hself.1]
        simp only [ne_eq, reduceCtorEq, not_false_eq_true, true_iff]
        exact ⟨m, by simp, hself.1, rfl⟩
      · rw [s₁.find_hear_ne (fun hparty heq => hself ⟨hparty, heq⟩), ih hs₁]
        constructor
        · rintro ⟨e, he, hparty, hid⟩
          exact ⟨e, by simp [he], hparty, hid⟩
        · rintro ⟨e, he, hparty, hid⟩
          rcases List.mem_append.1 he with he | he
          · exact ⟨e, he, hparty, hid⟩
          · rw [List.mem_singleton] at he
            subst he
            exact absurd ⟨hparty, hid.symm⟩ hself

theorem run_ok (s : BdNode mFns) (msgs : List BroadcastConn) :
    ∃ s', msgs.foldlM BdNode.recvBroadcast s = .ok s' := by
  induction msgs generalizing s with
  | nil =>
      exact ⟨s, rfl⟩
  | cons m msgs ih =>
      rw [List.foldlM_cons, s.msginBroadcastConn_eq m, ok_bind]
      exact ih _

/-- A message is answered when its sender is a party and the other party has an address, which the
sender itself has by now. -/
theorem mem_asks_iff (hs : s.mPeerAddrs = OrdMap.empty)
    (hrun : msgs.foldlM BdNode.recvBroadcast s = .ok s') {m : BroadcastConn} :
    (∃ a, a ∈ s'.asks m) ↔ m.FromParty ∧ (m.other = m.id.id ∨ Reported msgs m.other) := by
  by_cases hparty : m.FromParty
  · have hfind : (s'.hear m).mPeerAddrs.find m.other ≠ none ↔
        m.other = m.id.id ∨ Reported msgs m.other := by
      by_cases hself : m.other = m.id.id
      · rw [hself, s'.find_hear_self hparty]
        simp
      · rw [s'.find_hear_ne (fun _ => hself), find_run hs hrun]
        simp [hself]
    rw [BdNode.asks, if_pos hparty, ← hfind]
    cases (s'.hear m).mPeerAddrs.find m.other with
    | none =>
        simp
    | some addr =>
        simp [hparty]
  · rw [BdNode.asks, if_neg hparty]
    simp [hparty]

/-- The calls for a message are about its sender and the other party. -/
theorem ids_of_mem_asks {m : BroadcastConn} {a : AskConn} (ha : a ∈ s.asks m) :
    a.id.id = m.other ∧ a.peerId.id = m.id.id ∨ a.id.id = m.id.id ∧ a.peerId.id = m.other := by
  rw [BdNode.asks] at ha
  split_ifs at ha
  · cases hfind : (s.hear m).mPeerAddrs.find m.other with
    | none =>
        rw [hfind] at ha
        cases ha
    | some addr =>
        rw [hfind, List.mem_cons, List.mem_singleton] at ha
        rcases ha with rfl | rfl
        · exact .inl ⟨rfl, rfl⟩
        · exact .inr ⟨rfl, rfl⟩
  · cases ha

end runs

theorem pairMatched_of_namedBack {s : BdNode mFns} (hs : s.mPeerAddrs = OrdMap.empty)
    {msgs : List BroadcastConn} (h : NamedBack msgs) : PairMatched s msgs := by
  intro pre m post s' hmsgs hrun a ha
  rcases (mem_asks_iff hs hrun).1 ⟨a, ha⟩ with ⟨hparty, hother⟩
  have hself : Named (pre ++ [m]) m.id.id m.other := ⟨m, by simp, hparty, rfl, rfl⟩
  have hback : Named (pre ++ [m]) m.other m.id.id := by
    rcases hother with heq | hreported
    · rw [heq] at hself ⊢
      exact hself
    · exact h pre m post hmsgs hparty hreported
  rcases ids_of_mem_asks ha with ⟨hid, hpeer⟩ | ⟨hid, hpeer⟩
  · rw [hid, hpeer]
    exact ⟨hback, hself⟩
  · rw [hid, hpeer]
    exact ⟨hself, hback⟩

theorem namedBack_of_pairMatched {s : BdNode mFns} (hs : s.mPeerAddrs = OrdMap.empty)
    {msgs : List BroadcastConn} (h : PairMatched s msgs) : NamedBack msgs := by
  intro pre m post hmsgs hparty hreported
  rcases run_ok s pre with ⟨s', hrun⟩
  rcases (mem_asks_iff hs hrun).2 ⟨hparty, .inr hreported⟩ with ⟨a, ha⟩
  have hnamed := h pre m post s' hmsgs hrun a ha
  rcases ids_of_mem_asks ha with ⟨hid, hpeer⟩ | ⟨hid, hpeer⟩
  · rw [hid, hpeer] at hnamed
    exact hnamed.1
  · rw [hid, hpeer] at hnamed
    exact hnamed.2

/-- A node connects only parties that both named their pair exactly when every party that had
reported by the time the other one of a pair does had named that pair. -/
theorem pairMatched_iff (ownId : BdNodeId) (dhtVersion : List UInt8) (store : List BdPeer)
    (rand : Nat → UInt32) (msgs : List BroadcastConn) :
    PairMatched (BdNode.new ownId dhtVersion store rand : BdNode mFns) msgs ↔ NamedBack msgs :=
  ⟨namedBack_of_pairMatched rfl, pairMatched_of_namedBack rfl⟩

/-- `b` asks for `c` and then `a` for `b`: `a` and `b` are connected. -/
theorem not_pairMatched_other_pair :
    let a : BdNodeId := ⟨List.replicate 20 1, rfl⟩
    let b : BdNodeId := ⟨List.replicate 20 2, rfl⟩
    let c : BdNodeId := ⟨List.replicate 20 3, rfl⟩
    ¬ PairMatched (BdNode.new bdZeroNodeId [] [] (fun _ => 0) : BdNode bdStdDht)
      [⟨⟨⟨afInet, 2, 2⟩, b⟩, ⟨[]⟩, b, c⟩, ⟨⟨⟨afInet, 1, 1⟩, a⟩, ⟨[]⟩, a, b⟩] := by
  intro a b c h
  have hback := namedBack_of_pairMatched rfl h [⟨⟨⟨afInet, 2, 2⟩, b⟩, ⟨[]⟩, b, c⟩]
    ⟨⟨⟨afInet, 1, 1⟩, a⟩, ⟨[]⟩, a, b⟩ [] rfl (by decide)
    ⟨_, List.mem_singleton_self _, by decide, by decide⟩
  rcases hback with ⟨m, hm, hparty, hid, hother⟩
  rw [List.mem_append, List.mem_singleton, List.mem_singleton] at hm
  rcases hm with rfl | rfl
  · exact absurd hother (by decide)
  · exact absurd hid (by decide)

end BitDht
