import BitDht.Node.Iteration
import BitDht.Node.Trailer
import BitDht.Tunnel.Node

/-!
# Handshake — NEWCONN and REPLY_NEWCONN between the two kinds of nodes

Both nodes send these messages, but only `bdNode` puts a trailer behind them.  The `recvPkt` of `bdNode`
asks for one, so what a `bdTunnelNode` sends is never valid there; and of a trailer that is there, the
token is read into the wrong place.  `connTreatedAsValid_iff` says which messages are taken for valid.
-/

namespace BitDht

open Outcome

variable {mFns : BdDhtFunctions}

/-- The functions that send a NEWCONN or a REPLY_NEWCONN, each with its node and the id of the other
side. -/
inductive ConnSender (mFns : BdDhtFunctions)
  | askMyip (s : BdNode mFns) (dhtId : BdId)
  | replyAskMyip (s : BdNode mFns) (tunnelId : BdId)
  | newconn (s : BdTunnelNode) (dhtId : BdId)
  | replyNewconn (s : BdTunnelNode) (tunnelId : BdId)

namespace ConnSender

/-- The message that the call queues. -/
def send (transId : BdToken) : ConnSender mFns → Exec (Option BdNodeNetMsg)
  | .askMyip s dhtId => do
      let s ← s.msgoutAskMyip dhtId transId
      pure s.mOutgoingMsgs.getLast?
  | .replyAskMyip s tunnelId => do
      let s ← s.msgoutReplyAskMyip tunnelId transId
      pure s.mOutgoingMsgs.getLast?
  | .newconn s dhtId => do
      let s ← s.msgoutNewconn dhtId transId
      pure s.mOutgoingMsgs.getLast?
  | .replyNewconn s tunnelId => do
      let s ← s.msgoutReplyNewconn tunnelId transId
      pure s.mOutgoingMsgs.getLast?

/-- The sender is a `bdNode`. -/
def IsBdNode : ConnSender mFns → Prop
  | .askMyip _ _ => True
  | .replyAskMyip _ _ => True
  | .newconn _ _ => False
  | .replyNewconn _ _ => False

/-- The handler that the message is for. -/
def IsHandler : ConnSender mFns → MsgIn → Prop
  | .askMyip _ _, .askMyip _ _ => True
  | .replyAskMyip _ _, .replyAskMyip _ _ => True
  | .newconn _ _, .askMyip _ _ => True
  | .replyNewconn _ _, .replyAskMyip _ _ => True
  | _, _ => False

/-- The message as it is built. -/
def msg (transId : BdToken) : ConnSender mFns → Msg
  | .askMyip s _ => .newconn transId s.mOwnId
  | .replyAskMyip s tunnelId => .replyNewconn transId s.mOwnId tunnelId true
  | .newconn s _ => .newconn transId s.mOwnId
  | .replyNewconn s tunnelId => .replyNewconn transId s.mOwnId tunnelId true

end ConnSender

/-- A NEWCONN is answered: its handler sends one message, to `addr`. -/
def BdNode.Answers (r : BdNode mFns) (addr : SockaddrIn) : MsgIn → Prop
  | .askMyip tunnelId transId => ∀ now junk, ∃ r' data,
      r.msgin now junk (.askMyip tunnelId transId) = .ok r' ∧
        r'.mOutgoingMsgs = r.mOutgoingMsgs ++ [⟨data, addr⟩]
  | _ => True

/-- What is sent to the node `r` from `addr` is valid there: `recv`, which is what `recvPkt` of the node
does, calls the handler of it, and that of a NEWCONN answers. -/
def TreatedAsValid (r : BdNode mFns) (recv : List UInt8 → Nat → SockaddrIn → Recv RecvAct)
    (sender : ConnSender mFns) (transId : BdToken) (addr : SockaddrIn) : Prop :=
  ∃ pkt m, sender.send transId = .ok (some pkt) ∧
    (recv pkt.data pkt.data.length addr).run = .ok (some (.msgin m)) ∧ sender.IsHandler m ∧
    r.Answers addr m

namespace ConnSender

variable (sender : ConnSender mFns) {transId : BdToken}

theorem short_msg (h : transId.len ≤ bitdhtTokenMaxLen) : (sender.msg transId).Short := by
  cases sender with
  | askMyip s _ | newconn s _ => exact Msg.newconn_short h
  | replyAskMyip s _ | replyNewconn s _ => exact Msg.replyNewconn_short h

theorem type_msg (transId : BdToken) :
    (sender.msg transId).type = .newconn ∨ (sender.msg transId).type = .replyNewconn := by
  cases sender with
  | askMyip | newconn => exact .inl rfl
  | replyAskMyip | replyNewconn => exact .inr rfl

theorem isHandler_of_isConn {m : MsgIn} {addr : SockaddrIn}
    (h : m.IsConn addr (sender.msg transId).type) : sender.IsHandler m := by
  cases sender with
  | askMyip | newconn | replyAskMyip | replyNewconn =>
      cases m <;> first | exact trivial | exact h.elim

end ConnSender

theorem BdNode.answers_of_isConn (r : BdNode mFns) {m : MsgIn} {addr : SockaddrIn}
    {beType : MsgType} (h : m.IsConn addr beType) : r.Answers addr m := by
  match m, beType, h with
  | .askMyip tunnelId transId, .newconn, h =>
      rcases h with ⟨rfl, htid⟩
      intro now junk
      have hreply : r.msgoutReplyAskMyip (tunnelId.bdId junk) transId = _ :=
        msgoutEcrypted_eq (Msg.replyNewconn_short htid) r (tunnelId.bdId junk).addr
      rw [msgin, msginAskMyip, hreply, ok_bind]
      exact ⟨_, _, rfl, rfl⟩
  | .replyAskMyip _ _, .replyNewconn, _ => trivial

theorem BdTunnelNode.msgout_eq {m : Msg} (h : m.Short) (s : BdTunnelNode) (addr : SockaddrIn) :
    s.msgout (fun msg avail => m.build msg avail) addr =
      .ok { s with mOutgoingMsgs := s.mOutgoingMsgs ++ [⟨bencode m.tree, addr⟩] } := by
  rcases BdNode.build_msgBuffer h with ⟨rest, hrun, _⟩
  rw [msgout, hrun, ok_bind]
  show sendPkt s _ _ addr = _
  rw [sendPkt, readBytes_append, ok_bind]
  rfl

theorem BdNode.last_msgoutEcrypted {m : Msg} (h : m.Short) (s : BdNode mFns) (addr : SockaddrIn) :
    (s.msgoutEcrypted (fun msg avail => m.build msg avail) addr >>= fun s =>
      pure s.mOutgoingMsgs.getLast?) = .ok (some ⟨bencode m.tree ++
        (storeU32 (ecryptSum (bencode m.tree)) ++ storeU32 s.getRandomToken.1), addr⟩) := by
  rw [msgoutEcrypted_eq h, ok_bind, pure_eq_ok, queueMsg, List.getLast?_concat]

theorem BdTunnelNode.last_msgout {m : Msg} (h : m.Short) (s : BdTunnelNode) (addr : SockaddrIn) :
    (s.msgout (fun msg avail => m.build msg avail) addr >>= fun s =>
      pure s.mOutgoingMsgs.getLast?) = .ok (some ⟨bencode m.tree, addr⟩) := by
  rw [msgout_eq h, ok_bind, pure_eq_ok, List.getLast?_concat]

namespace ConnSender

/-- A `bdNode` queues the message with a trailer. -/
theorem send_of_isBdNode {sender : ConnSender mFns} (hnode : sender.IsBdNode) {transId : BdToken}
    (h : transId.len ≤ bitdhtTokenMaxLen) :
    ∃ token addr, sender.send transId = .ok (some ⟨bencode (sender.msg transId).tree ++
      (storeU32 (ecryptSum (bencode (sender.msg transId).tree)) ++ storeU32 token), addr⟩) := by
  have hshort := sender.short_msg h
  cases sender with
  | askMyip s dhtId =>
      exact ⟨_, _, BdNode.last_msgoutEcrypted hshort s dhtId.addr⟩
  | replyAskMyip s tunnelId =>
      exact ⟨_, _, BdNode.last_msgoutEcrypted hshort s tunnelId.addr⟩
  | newconn | replyNewconn =>
      exact hnode.elim

/-- A `bdTunnelNode` queues it as it is. -/
theorem send_of_not_isBdNode {sender : ConnSender mFns} (hno : ¬ sender.IsBdNode)
    {transId : BdToken} (h : transId.len ≤ bitdhtTokenMaxLen) :
    ∃ addr, sender.send transId = .ok (some ⟨bencode (sender.msg transId).tree, addr⟩) := by
  have hshort := sender.short_msg h
  cases sender with
  | askMyip | replyAskMyip =>
      exact absurd trivial hno
  | newconn s dhtId =>
      exact ⟨_, BdTunnelNode.last_msgout hshort
        { s with newconns := s.newconns ++ [dhtId] } dhtId.addr⟩
  | replyNewconn s tunnelId =>
      exact ⟨_, BdTunnelNode.last_msgout hshort s tunnelId.addr⟩

/-- Either message gets as far as the trailer, and only that of a `bdNode` has a valid one. -/
theorem send_ok (sender : ConnSender mFns) {transId : BdToken}
    (h : transId.len ≤ bitdhtTokenMaxLen) :
    ∃ pkt, sender.send transId = .ok (some pkt) ∧
      ReachesTrailer pkt.data (sender.msg transId).type ∧
      (trailerValid pkt.data = true ↔ sender.IsBdNode) := by
  have hshort := sender.short_msg h
  have hreach := Msg.reachesTrailer hshort (sender.type_msg transId)
  by_cases hnode : sender.IsBdNode
  · rcases send_of_isBdNode hnode h with ⟨token, a, hrun⟩
    exact ⟨_, hrun, hreach _, iff_of_true (trailerValid_ecrypt _ token) hnode⟩
  · rcases send_of_not_isBdNode hnode h with ⟨a, hrun⟩
    have hbare := hreach []
    rw [List.append_nil] at hbare
    refine ⟨_, hrun, hbare, iff_of_false ?_ hnode⟩
    rw [Bool.not_eq_true]
    exact Msg.trailerValid_bare hshort (sender.type_msg transId)

end ConnSender

/-! ## At the receiver -/

section receiver

variable {sender : ConnSender mFns} {transId : BdToken}

/-- The model of `recvPkt` stops at the trailer. -/
theorem not_treatedAsValid (h : transId.len ≤ bitdhtTokenMaxLen) (r : BdNode mFns)
    (addr : SockaddrIn) : ¬ TreatedAsValid r r.recvAct sender transId addr := by
  rintro ⟨pkt, m, hsend, hact, _⟩
  rcases sender.send_ok h with ⟨pkt', hrun, hreach, _⟩
  rw [hrun] at hsend
  cases hsend
  by_cases hblack : r.isMemberOfBlackList addr = true
  · simp [BdNode.recvAct, hblack] at hact
  · rw [Bool.not_eq_true] at hblack
    rcases BdNode.recvAct_of_reaches hblack hreach with ⟨e, he⟩
    rw [he] at hact
    cases hact

/-- Where the writes behind the scratch word are lost, the leftover word stands for the token, and the
checksum is that of the packet. -/
theorem treatedAsValid_leftover_iff (h : transId.len ≤ bitdhtTokenMaxLen) (r : BdNode mFns)
    (addr : SockaddrIn) (word : UInt32) : TreatedAsValid r (r.recvActOn word) sender transId addr ↔
      sender.IsBdNode ∧ r.isMemberOfBlackList addr = false ∧ r.isUsedToken word = false := by
  rcases sender.send_ok h with ⟨pkt, hrun, hreach, hvalid⟩
  constructor
  · rintro ⟨pkt', m, hsend, hact, _⟩
    rw [hrun] at hsend
    cases hsend
    by_cases hblack : r.isMemberOfBlackList addr = true
    · simp [BdNode.recvActOn, hblack] at hact
    rw [Bool.not_eq_true] at hblack
    rcases BdNode.recvActOn_of_reaches hblack hreach word with ⟨c, _, hjudged⟩
    rw [hjudged] at hact
    split_ifs at hact with hused htrailer
    · cases hact
    · exact ⟨hvalid.1 htrailer, hblack, by simpa using hused⟩
    · cases hact
  · rintro ⟨hnode, hblack, hused⟩
    rcases BdNode.recvActOn_of_reaches hblack hreach word with ⟨c, hc, hjudged⟩
    refine ⟨pkt, c, hrun, ?_, sender.isHandler_of_isConn hc, r.answers_of_isConn hc⟩
    rw [hjudged, hused, hvalid.2 hnode]
    rfl

end receiver

/-- No message of either kind is taken for valid where a write behind the scratch word is an error.
Where it is lost, exactly those of a `bdNode` are whose receiver listens to the address and has not
drawn the word that the scratch holds. -/
theorem connTreatedAsValid_iff (sender : ConnSender mFns) {transId : BdToken}
    (h : transId.len ≤ bitdhtTokenMaxLen) (r : BdNode mFns) (addr : SockaddrIn) :
    ¬ TreatedAsValid r r.recvAct sender transId addr ∧
      ∀ word, TreatedAsValid r (r.recvActOn word) sender transId addr ↔
        sender.IsBdNode ∧ r.isMemberOfBlackList addr = false ∧ r.isUsedToken word = false :=
  ⟨not_treatedAsValid h r addr, treatedAsValid_leftover_iff h r addr⟩

/-- A NEWCONN of a `bdNode` with the transaction id `aa`. -/
theorem connTreatedAsValid_iff_askMyip :
    let s : BdNode bdStdDht := BdNode.new bdZeroNodeId [] [] (fun _ => 5)
    let sender : ConnSender bdStdDht := .askMyip s ⟨⟨afInet, 33554559, 8081⟩, bdZeroNodeId⟩
    ¬ TreatedAsValid s s.recvAct sender ⟨ascii "aa"⟩ ⟨afInet, 16777343, 8080⟩ ∧
      ∀ word, TreatedAsValid s (s.recvActOn word) sender ⟨ascii "aa"⟩ ⟨afInet, 16777343, 8080⟩ ↔
        sender.IsBdNode ∧ s.isMemberOfBlackList ⟨afInet, 16777343, 8080⟩ = false ∧
          s.isUsedToken word = false := by
  intro s sender
  exact connTreatedAsValid_iff sender (by decide) s ⟨afInet, 16777343, 8080⟩

/-- A NEWCONN of a `bdTunnelNode` is not valid, whatever lies in the scratch. -/
theorem not_treatedAsValid_tunnel_newconn :
    let r : BdNode bdStdDht := BdNode.new bdZeroNodeId [] [] (fun _ => 5)
    let sender : ConnSender bdStdDht :=
      .newconn (BdTunnelNode.new bdZeroNodeId) ⟨⟨afInet, 33554559, 8081⟩, bdZeroNodeId⟩
    ¬ TreatedAsValid r r.recvAct sender ⟨ascii "aa"⟩ ⟨afInet, 16777343, 8080⟩ ∧
      ∀ word, ¬ TreatedAsValid r (r.recvActOn word) sender ⟨ascii "aa"⟩
        ⟨afInet, 16777343, 8080⟩ := by
  intro r sender
  refine ⟨not_treatedAsValid (by decide) r _, ?_⟩
  intro word hvalid
  exact ((treatedAsValid_leftover_iff (by decide) r _ word).1 hvalid).1

end BitDht
