import BitDht.Node.Traffic
import BitDht.Tunnel.Disconnect
import BitDht.Tunnel.Handshake
import BitDht.Udp.Tunnel

/-!
# Traffic — the messages of tunnels, and what each kind of node makes of the other's

A tunnel sends NEWCONN and REPLY_NEWCONN without a trailer.  So a `bdNode` never calls a handler for them
(`TunnelCall.recvActOn`), while a tunnel answers the NEWCONN of either kind of node and nothing else
(`BdTunnelNode.recvPkt_built`).
-/

namespace BitDht

open Container Outcome

variable {mFns : BdDhtFunctions}

/-- The calls of the `msgout_` functions that a `bdTunnelNode` makes. -/
inductive TunnelCall
  | newconn (dhtId : BdId) (transId : BdToken)
  | replyNewconn (tunnelId : BdId) (transId : BdToken)

namespace TunnelCall

def run (s : BdTunnelNode) : TunnelCall → Exec BdTunnelNode
  | .newconn dhtId transId => s.msgoutNewconn dhtId transId
  | .replyNewconn tunnelId transId => s.msgoutReplyNewconn tunnelId transId

def transId : TunnelCall → BdToken
  | .newconn _ transId | .replyNewconn _ transId => transId

def receiver : TunnelCall → BdId
  | .newconn id _ | .replyNewconn id _ => id

/-- The message that a call makes, where the node has the id `own`. -/
def msg (own : BdNodeId) : TunnelCall → Msg
  | .newconn _ transId => .newconn transId own
  | .replyNewconn tunnelId transId => .replyNewconn transId own tunnelId true

/-- The message as it is queued. -/
def packet (own : BdNodeId) (c : TunnelCall) : BdNodeNetMsg where
  data := bencode (c.msg own).tree
  addr := c.receiver.addr

variable {c : TunnelCall} (own : BdNodeId)

theorem msg_short (h : c.transId.len ≤ bitdhtTokenMaxLen) : (c.msg own).Short := by
  cases c with
  | newconn dhtId transId => exact Msg.newconn_short h
  | replyNewconn tunnelId transId => exact Msg.replyNewconn_short h

theorem type_msg (c : TunnelCall) (own : BdNodeId) :
    (c.msg own).type = .newconn ∨ (c.msg own).type = .replyNewconn := by
  cases c with
  | newconn => exact .inl rfl
  | replyNewconn => exact .inr rfl

theorem length_packet_le (h : c.transId.len ≤ bitdhtTokenMaxLen) :
    (c.packet own).data.length ≤ bitdhtMaxPktsize := by
  have hlen : (c.packet own).data.length ≤ 506 := (msg_short own h).length_le
  rw [bitdhtMaxPktsize]
  omega

/-- The node afterwards, which has counted a NEWCONN. -/
def queued (s : BdTunnelNode) (c : TunnelCall) : BdTunnelNode :=
  { s with
    mOutgoingMsgs := s.mOutgoingMsgs ++ [c.packet s.mOwnId]
    newconns :=
      match c with
      | .newconn dhtId _ => s.newconns ++ [dhtId]
      | .replyNewconn .. => s.newconns }

theorem run_queued (h : c.transId.len ≤ bitdhtTokenMaxLen) (s : BdTunnelNode) :
    c.run s = .ok (c.queued s) := by
  have hshort := msg_short s.mOwnId h
  cases c with
  | newconn dhtId transId =>
      exact BdTunnelNode.msgout_eq hshort { s with newconns := s.newconns ++ [dhtId] } dhtId.addr
  | replyNewconn tunnelId transId => exact BdTunnelNode.msgout_eq hshort s tunnelId.addr

/-! ## At a `bdNode` -/

/-- A `bdNode` drops the message of a tunnel, or puts its sender on the blacklist. -/
theorem recvActOn (h : c.transId.len ≤ bitdhtTokenMaxLen) (r : BdNode mFns) (addr : SockaddrIn)
    (word : UInt32) :
    ∃ act, (r.recvActOn word (c.packet own).data (c.packet own).data.length addr).run = .ok act ∧
      (act = none ∨ act = some (.addBlackList addr)) := by
  have hshort := msg_short own h
  have hreach := Msg.reachesTrailer hshort (c.type_msg own) []
  rw [List.append_nil] at hreach
  have hbare := Msg.trailerValid_bare hshort (c.type_msg own)
  by_cases hblack : r.isMemberOfBlackList addr = true
  · exact ⟨none, by simp [BdNode.recvActOn, hblack], .inl rfl⟩
  · rw [Bool.not_eq_true] at hblack
    rcases BdNode.recvActOn_of_reaches hblack hreach word with ⟨m, _, hact⟩
    refine ⟨_, hact, ?_⟩
    split_ifs with hused hvalid
    · exact .inr rfl
    · rw [hbare] at hvalid
      cases hvalid
    · exact .inl rfl

/-- No message of a `bdNode` is taken for one of a tunnel, as it has a trailer or another type. -/
theorem not_madeBy (h : c.transId.len ≤ bitdhtTokenMaxLen) {own' : BdNodeId} {c' : MsgoutCall} :
    ¬ c'.MadeBy mFns own' (c.packet own) := by
  rintro ⟨s, _, hfit, heq⟩
  have hshort := msg_short own h
  have hshort' := MsgoutCall.msg_short hfit s
  have hdata : bencode (c.msg own).tree = (c'.packet s).data := congrArg BdNodeNetMsg.data heq
  rcases c'.exists_packet_data s with ⟨z, hz⟩
  have htree : (c.msg own).tree = (c'.msg s).tree := by
    have hdec := hshort.beDecoden_tree []
    rw [List.append_nil, hdata, hz, hshort'.beDecoden_tree z] at hdec
    simpa using hdec.symm
  have htype : (c'.msg s).type = (c.msg own).type := by
    have htype := (c.msg own).beMsgType_tree
    rwa [htree, Msg.beMsgType_tree, Except.ok.injEq] at htype
  rw [MsgoutCall.packet, htree] at hdata
  have hplain : c'.ecrypted = false := by
    by_contra hecrypted
    rw [Bool.not_eq_false] at hecrypted
    have hlen := congrArg List.length hdata
    simp only [hecrypted, if_true, List.length_append, length_storeU32] at hlen
    omega
  cases c' with
  | askMyip | replyAskMyip => cases hplain
  | ping | pong | findNode | replyFindNode | broadcastConn | askConn =>
      rcases c.type_msg own with hconn | hconn
      · exact absurd (htype.trans hconn) (by simp [MsgoutCall.msg, Msg.type])
      · exact absurd (htype.trans hconn) (by simp [MsgoutCall.msg, Msg.type])

end TunnelCall

/-! ## At a tunnel -/

/-- A tunnel answers a NEWCONN and nothing else, with or without a trailer. -/
theorem BdTunnelNode.recvPkt_built {m : Msg} (h : m.Short) (hargs : m.ArgsOk) (z : List UInt8)
    (s : BdTunnelNode) (junk : Junk) (addr : SockaddrIn) :
    s.recvPkt junk (bencode m.tree ++ z) (bencode m.tree ++ z).length addr =
      if m.type = .newconn then (TunnelCall.replyNewconn ⟨addr, m.id⟩ m.tid).run s else .ok s := by
  have hquery : decide ((if m.query.isSome then BeY.q else BeY.r) = .q) = m.query.isSome := by
    cases m.query.isSome <;> rfl
  have hblock : (replyNewconnBlock m.type (dictOf m.body)).run = .ok (some ()) := by
    rw [replyNewconnBlock]
    split_ifs with hreply
    · rcases Msg.eq_of_conn (.inr hreply) with ⟨tid, id, rfl⟩ | ⟨tid, id, peerId, started, rfl⟩
      · cases hreply
      · have hinet := hargs.bdIds peerId (List.mem_singleton.2 rfl)
        simp (disch := decide) [Msg.body, beMsgGetDictNode_here, beMsgGetDictNode_there, Recv.need,
          Recv.call, beMsgGetBdId_strOf hinet]
    · rfl
  have hpkt : (parsePkt (bencode m.tree ++ z) (bencode m.tree ++ z).length addr).run =
      .ok (some (m.type, ⟨addr, some m.id⟩, m.tid)) := by
    have hparse := Msg.parseFields_tree hargs
    have htid : tokenOf (strOf m.tid.data) = m.tid := rfl
    simp only [parsePkt, Recv.call, Recv.need, h.beDecoden_tree, lift_ok_bind, pure_eq_ok,
      mk_some_bind, m.beMsgType_tree, m.beMsgGetY_tree, if_neg m.type_ne_unknown, hquery]
    rw [bind_of_some hparse, bind_of_some hblock, fieldsOf, htid, beMsgGetNodeId_strOf]
    rfl
  rw [recvPkt, hpkt, ok_bind]
  split_ifs with htype
  · rw [htype]
    rfl
  · generalize m.type = beType at htype
    cases beType with
    | newconn => exact absurd rfl htype
    | _ => rfl

/-! ## What a tunnel sends -/

namespace BdTunnelNode

/-- The node has queued the messages of calls of some kind, and nothing else has changed but the order of
the requests, the counters and the packets that wait. -/
structure Sends (Call : TunnelCall → Prop) (s s' : BdTunnelNode) : Prop where
  mOwnId : s'.mOwnId = s.mOwnId
  requests : s'.mTunnelRequests.Perm s.mTunnelRequests
  incoming : s'.mIncomingMsgs ⊆ s.mIncomingMsgs
  queue : ∃ calls : List TunnelCall, s'.mOutgoingMsgs = s.mOutgoingMsgs ++ calls.map (·.packet s.mOwnId) ∧
    ∀ c ∈ calls, c.transId.len ≤ bitdhtTokenMaxLen ∧ Call c

namespace Sends

variable {Call : TunnelCall → Prop} {s s' s'' : BdTunnelNode}

/-- No message is queued. -/
theorem nothing (hown : s'.mOwnId = s.mOwnId) (hrequests : s'.mTunnelRequests.Perm s.mTunnelRequests)
    (hincoming : s'.mIncomingMsgs ⊆ s.mIncomingMsgs) (hqueue : s'.mOutgoingMsgs = s.mOutgoingMsgs) :
    Sends Call s s' :=
  ⟨hown, hrequests, hincoming, [], by rw [hqueue, List.map_nil, List.append_nil],
    fun _ hc => absurd hc List.not_mem_nil⟩

theorem refl (s : BdTunnelNode) : Sends Call s s :=
  .nothing rfl (.refl _) (List.Subset.refl _) rfl

theorem queued {c : TunnelCall} (hlen : c.transId.len ≤ bitdhtTokenMaxLen) (hc : Call c)
    (s : BdTunnelNode) : Sends Call s (c.queued s) :=
  ⟨rfl, .refl _, List.Subset.refl _, [c], rfl, List.forall_mem_singleton.2 ⟨hlen, hc⟩⟩

theorem trans (h : Sends Call s s') (h' : Sends Call s' s'') : Sends Call s s'' := by
  rcases h.queue with ⟨calls, hqueue, hcalls⟩
  rcases h'.queue with ⟨calls', hqueue', hcalls'⟩
  refine ⟨h'.mOwnId.trans h.mOwnId, h'.requests.trans h.requests,
    List.Subset.trans h'.incoming h.incoming, calls ++ calls', ?_, ?_⟩
  · rw [hqueue', hqueue, h.mOwnId, List.map_append, List.append_assoc]
  · exact List.forall_mem_append.2 ⟨hcalls, hcalls'⟩

end Sends

/-- A packet is answered as one of some kind, or not at all. -/
def Understands (Call : TunnelCall → Prop) (m : BdNodeNetMsg) : Prop :=
  ∀ (s : BdTunnelNode) (junk : Junk), ∃ s', s.recvPkt junk m.data m.data.length m.addr = .ok s' ∧
    Sends Call s s'

variable {Call : TunnelCall → Prop}

/-- What is built as a message is answered if it is a NEWCONN. -/
theorem understands_built {m : Msg} (h : m.Short) (hargs : m.ArgsOk) (z : List UInt8)
    {addr : SockaddrIn} (hcall : m.type = .newconn → Call (.replyNewconn ⟨addr, m.id⟩ m.tid)) :
    Understands Call ⟨bencode m.tree ++ z, addr⟩ := by
  intro s junk
  have hlen : m.tid.len ≤ bitdhtTokenMaxLen := h.tokens _ m.tid_mem_tokens
  rw [recvPkt_built h hargs]
  split_ifs with htype
  · exact ⟨_, TunnelCall.run_queued (c := .replyNewconn ⟨addr, m.id⟩ m.tid) hlen s,
      .queued (c := .replyNewconn ⟨addr, m.id⟩ m.tid) hlen (hcall htype) s⟩
  · exact ⟨s, rfl, .refl s⟩

/-- A tunnel answers only the NEWCONN among the messages of a `bdNode`. -/
theorem understands_madeBy {own : BdNodeId} {c : MsgoutCall} {m : BdNodeNetMsg}
    (h : c.MadeBy mFns own m) (hinet : ∀ id ∈ c.bdIds, id.addr.sinFamily = afInet)
    {addr : SockaddrIn} (hcall : ∀ dst transId, c = .askMyip dst transId →
      Call (.replyNewconn ⟨addr, own⟩ transId)) : Understands Call ⟨m.data, addr⟩ := by
  rcases h with ⟨s, rfl, hfit, rfl⟩
  rcases c.exists_packet_data s with ⟨z, hz⟩
  rw [hz]
  refine understands_built (MsgoutCall.msg_short hfit s) (MsgoutCall.msg_argsOk hfit hinet s) z ?_
  intro htype
  cases c with
  | askMyip dst transId => exact hcall dst transId rfl
  | _ => cases htype

/-- The messages of another tunnel. -/
theorem understands_packet {c : TunnelCall} {own : BdNodeId} (h : c.transId.len ≤ bitdhtTokenMaxLen)
    (hargs : (c.msg own).ArgsOk) {addr : SockaddrIn} (hcall : ∀ dst transId, c = .newconn dst transId →
      Call (.replyNewconn ⟨addr, own⟩ transId)) : Understands Call ⟨(c.packet own).data, addr⟩ := by
  have hdata : (c.packet own).data = bencode (c.msg own).tree ++ [] := (List.append_nil _).symm
  rw [hdata]
  refine understands_built (TunnelCall.msg_short own h) hargs [] ?_
  intro htype
  cases c with
  | newconn dst transId => exact hcall dst transId rfl
  | replyNewconn => cases htype

theorem recvPkts_sends {msgs : List BdNodeNetMsg} (h : ∀ m ∈ msgs, Understands Call m)
    (s : BdTunnelNode) (junk : Nat → Junk) (i : Nat) :
    ∃ s', s.recvPkts junk msgs i = .ok s' ∧ Sends Call s s' := by
  induction msgs generalizing s i with
  | nil => exact ⟨_, rfl, .nothing rfl (.refl _) (List.nil_subset _) rfl⟩
  | cons m msgs ih =>
      rcases h m List.mem_cons_self s (junk i) with ⟨s₁, hs₁, hfirst⟩
      rcases ih (fun x hx => h x (List.mem_cons_of_mem m hx)) s₁ (i + 1) with ⟨s', hs', hrest⟩
      refine ⟨s', ?_, hfirst.trans hrest⟩
      rw [recvPkts, hs₁, ok_bind, hs']

theorem sendRequests_sends {s : BdTunnelNode} (rounds : Nat)
    (h : ∀ id ∈ s.mTunnelRequests, ∀ transId : BdToken, transId.len ≤ bitdhtTokenMaxLen →
      Call (.newconn id transId)) :
    ∃ s', s.sendRequests rounds = .ok s' ∧ Sends Call s s' := by
  induction rounds generalizing s with
  | zero => exact ⟨s, rfl, .refl s⟩
  | succ rounds ih =>
      cases hrequests : s.mTunnelRequests with
      | nil =>
          refine ⟨s, ?_, .refl s⟩
          rw [sendRequests, hrequests]
          rfl
      | cons query rest =>
          -- the request goes to the end, and its message has a new transaction id
          let s₁ : BdTunnelNode := { s with mTunnelRequests := rest ++ [query] }
          have hlen : s₁.genNewTransId.1.len ≤ bitdhtTokenMaxLen := List.length_take_le ..
          let c : TunnelCall := .newconn query s₁.genNewTransId.1
          have hcall : Call c := h query (hrequests ▸ List.mem_cons_self) _ hlen
          have hturn : Sends Call s s₁.genNewTransId.2 :=
            .nothing rfl (by rw [hrequests]; exact List.perm_append_singleton query rest)
              (List.Subset.refl _) rfl
          have hround := hturn.trans (.queued (c := c) hlen hcall s₁.genNewTransId.2)
          rcases ih (s := c.queued s₁.genNewTransId.2)
            (fun id hid => h id (hround.requests.subset hid)) with ⟨s', hs', hrest⟩
          refine ⟨s', ?_, hround.trans hrest⟩
          have hrun : s₁.sendRequest query = .ok (c.queued s₁.genNewTransId.2) :=
            TunnelCall.run_queued (c := c) hlen s₁.genNewTransId.2
          rw [sendRequests, hrequests]
          dsimp only
          rw [hrun, ok_bind, hs']

/-- An iteration answers the packets that wait, and sends a NEWCONN for each request. -/
theorem iteration_sends {s : BdTunnelNode} (hmsgs : ∀ m ∈ s.mIncomingMsgs, Understands Call m)
    (hrequests : ∀ id ∈ s.mTunnelRequests, ∀ transId : BdToken,
      transId.len ≤ bitdhtTokenMaxLen → Call (.newconn id transId)) (env : TunnelEnv) :
    ∃ s', s.iteration env = .ok s' ∧ Sends Call s s' := by
  rcases recvPkts_sends hmsgs { s with transIdCounter := env.transIdCounter } env.junk 0 with
    ⟨s₁, hs₁, hrecv⟩
  rcases sendRequests_sends (s := s₁) s₁.mTunnelRequests.length
    (fun id hid => hrequests id (hrecv.requests.subset hid)) with ⟨s', hs', hsend⟩
  have hcounter : Sends Call s { s with transIdCounter := env.transIdCounter } :=
    .nothing rfl (.refl _) (List.Subset.refl _) rfl
  refine ⟨s', ?_, hcounter.trans (hrecv.trans hsend)⟩
  rw [iteration, hs₁, ok_bind, hs']

end BdTunnelNode

end BitDht
