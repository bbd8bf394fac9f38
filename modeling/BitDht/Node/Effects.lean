import BitDht.Node.Tokens

/-!
# Effects — what the calls on a node have in common

Only two calls touch the queue of remote queries, only one puts an address on the blacklist, and
only two draw tokens; and whatever else is sent, it is no reply to a FIND_NODE.  `Draws` and `Quiet`
say so of a step, and both are closed under one step after another.
-/

namespace BitDht

open Container Outcome

variable {mFns : BdDhtFunctions}

/-! ## Messages -/

/-- Whoever gets the message takes it for a reply to a FIND_NODE. -/
def BdNodeNetMsg.isReplyNode (m : BdNodeNetMsg) : Bool :=
  holds (beDecoden m.data m.data.length)
    (fun n => n.any (fun n => holds (beMsgType n) (fun beType => beType == .replyNode)))

theorem isReplyNode_tree {m : Msg} (h : m.Short) (z : List UInt8) (addr : SockaddrIn) :
    (BdNodeNetMsg.mk (bencode m.tree ++ z) addr).isReplyNode = (m.type == .replyNode) := by
  rw [BdNodeNetMsg.isReplyNode, h.beDecoden_tree z, holds, Option.any_some, m.beMsgType_tree, holds]

/-! ## Tokens -/

/-- The last 1000 of the tokens that were drawn. -/
def recent (tokens : List UInt32) : List UInt32 :=
  tokens.drop (tokens.length - 1000)

theorem recent_concat (tokens : List UInt32) (num : UInt32) :
    (if (recent tokens ++ [num]).length > 1000 then (recent tokens ++ [num]).drop 1
      else recent tokens ++ [num]) = recent (tokens ++ [num]) := by
  have hdrop : ∀ k, k ≤ tokens.length → (tokens ++ [num]).drop k = tokens.drop k ++ [num] :=
    fun k hk => List.drop_append_of_le_length hk
  simp only [recent, List.length_append, List.length_drop, List.length_singleton]
  split_ifs with hfull
  · -- one token leaves the window
    have hk : tokens.length - 1000 + 1 = tokens.length + 1 - 1000 := by omega
    calc
      (tokens.drop (tokens.length - 1000) ++ [num]).drop 1
          = ((tokens ++ [num]).drop (tokens.length - 1000)).drop 1 := by rw [hdrop _ (by omega)]
      _ = (tokens ++ [num]).drop (tokens.length - 1000 + 1) := List.drop_drop
      _ = (tokens ++ [num]).drop (tokens.length + 1 - 1000) := by rw [hk]
  · have hk : tokens.length + 1 - 1000 = tokens.length - 1000 := by omega
    rw [hk, hdrop _ (by omega)]

/-! ## Steps -/

/-- The step draws `n` tokens and leaves the blacklist alone. -/
structure Draws (n : Nat) (s s' : BdNode mFns) : Prop where
  mBlackNodes : s'.mBlackNodes = s.mBlackNodes
  rand : s'.rand = fun i => s.rand (i + n)
  tokens : ∀ tokens, s.mRandomTokenArray = recent tokens →
    s'.mRandomTokenArray = recent (tokens ++ (List.range n).map s.rand)

namespace Draws

variable {n n' : Nat} {s s' s'' : BdNode mFns}

theorem of_eq (hblack : s'.mBlackNodes = s.mBlackNodes) (hrand : s'.rand = s.rand)
    (htokens : s'.mRandomTokenArray = s.mRandomTokenArray) : Draws 0 s s' := by
  refine ⟨hblack, hrand, ?_⟩
  intro tokens h
  rw [htokens, h, List.range_zero, List.map_nil, List.append_nil]

theorem trans (h : Draws n s s') (h' : Draws n' s' s'') : Draws (n + n') s s'' := by
  refine ⟨h'.mBlackNodes.trans h.mBlackNodes, ?_, ?_⟩
  · rw [h'.rand, h.rand]
    funext i
    show s.rand (i + n' + n) = s.rand (i + (n + n'))
    rw [Nat.add_assoc, Nat.add_comm n']
  · intro tokens htokens
    have hlater : (List.range n').map s'.rand = ((List.range n').map (n + ·)).map s.rand := by
      rw [List.map_map, h.rand]
      exact List.map_congr_left (fun i _ => by rw [Function.comp_apply, Nat.add_comm])
    calc
      s''.mRandomTokenArray
          = recent (tokens ++ (List.range n).map s.rand ++ (List.range n').map s'.rand) :=
            h'.tokens _ (h.tokens _ htokens)
      _ = recent (tokens ++ (List.range n ++ (List.range n').map (n + ·)).map s.rand) := by
            rw [List.append_assoc, hlater, List.map_append]
      _ = recent (tokens ++ (List.range (n + n')).map s.rand) := by rw [List.range_add]

theorem getRandomToken (s : BdNode mFns) : Draws 1 s s.getRandomToken.2 := by
  refine ⟨rfl, rfl, ?_⟩
  intro tokens htokens
  rw [BdNode.getRandomToken]
  dsimp only
  rw [htokens]
  exact recent_concat tokens (s.rand 0)

end Draws

/-- The step leaves the queries of other nodes alone and sends no reply to one. -/
structure NoReply (s s' : BdNode mFns) : Prop where
  mRemoteQueries : s'.mRemoteQueries = s.mRemoteQueries
  sent : ∃ msgs, s'.mOutgoingMsgs = s.mOutgoingMsgs ++ msgs ∧ ∀ m ∈ msgs, m.isReplyNode = false

theorem NoReply.of_eq {s s' : BdNode mFns} (hqueue : s'.mRemoteQueries = s.mRemoteQueries)
    (hsent : s'.mOutgoingMsgs = s.mOutgoingMsgs) : NoReply s s' :=
  ⟨hqueue, [], by rw [hsent, List.append_nil], by simp⟩

/-- Both at once. -/
structure Quiet (n : Nat) (s s' : BdNode mFns) : Prop extends Draws n s s', NoReply s s'

namespace Quiet

variable {n n' : Nat} {s s' s'' : BdNode mFns}

theorem of_eq (hdraws : Draws n s s') (hqueue : s'.mRemoteQueries = s.mRemoteQueries)
    (hsent : s'.mOutgoingMsgs = s.mOutgoingMsgs) : Quiet n s s' :=
  ⟨hdraws, .of_eq hqueue hsent⟩

/-- A step that touches none of the five members. -/
theorem frame (hblack : s'.mBlackNodes = s.mBlackNodes) (hrand : s'.rand = s.rand)
    (htokens : s'.mRandomTokenArray = s.mRandomTokenArray)
    (hqueue : s'.mRemoteQueries = s.mRemoteQueries)
    (hsent : s'.mOutgoingMsgs = s.mOutgoingMsgs) : Quiet 0 s s' :=
  of_eq (.of_eq hblack hrand htokens) hqueue hsent

theorem refl (s : BdNode mFns) : Quiet 0 s s :=
  frame rfl rfl rfl rfl rfl

theorem trans (h : Quiet n s s') (h' : Quiet n' s' s'') : Quiet (n + n') s s'' := by
  rcases h.sent with ⟨msgs, hmsgs, hno⟩
  rcases h'.sent with ⟨msgs', hmsgs', hno'⟩
  refine ⟨h.toDraws.trans h'.toDraws, h'.mRemoteQueries.trans h.mRemoteQueries, msgs ++ msgs',
    ?_, ?_⟩
  · rw [hmsgs', hmsgs, List.append_assoc]
  · intro m hm
    rcases List.mem_append.1 hm with hm | hm
    · exact hno m hm
    · exact hno' m hm

/-- A loop whose rounds draw no token. -/
theorem foldlM {α : Type} {f : BdNode mFns → α → Exec (BdNode mFns)}
    (hf : ∀ {s₁ a s₂}, f s₁ a = .ok s₂ → Quiet 0 s₁ s₂) {l : List α} {s s' : BdNode mFns}
    (h : l.foldlM f s = .ok s') : Quiet 0 s s' :=
  foldlM_rel refl trans hf h

end Quiet

namespace BdNode

variable {s s' : BdNode mFns}

/-! ## Sending -/

theorem queueMsg_quiet (s : BdNode mFns) {m : Msg} (h : m.Short) (htype : m.type ≠ .replyNode)
    (z : List UInt8) (addr : SockaddrIn) : Quiet 0 s (s.queueMsg (bencode m.tree ++ z) addr) := by
  refine ⟨.of_eq rfl rfl rfl, rfl, [⟨bencode m.tree ++ z, addr⟩], rfl, ?_⟩
  intro x hx
  rw [List.mem_singleton.1 hx, isReplyNode_tree h]
  exact beq_false_of_ne htype

theorem msgout_quiet {m : Msg} (h : m.Short) (htype : m.type ≠ .replyNode) {addr : SockaddrIn}
    (hs : s.msgout (fun msg avail => m.build msg avail) addr = .ok s') : Quiet 0 s s' := by
  rw [msgout_eq h] at hs
  cases hs
  have hq := s.queueMsg_quiet h htype [] addr
  rwa [List.append_nil] at hq

theorem msgoutEcrypted_quiet {m : Msg} (h : m.Short) (htype : m.type ≠ .replyNode)
    {addr : SockaddrIn} (hs : s.msgoutEcrypted (fun msg avail => m.build msg avail) addr = .ok s') :
    Quiet 1 s s' := by
  rw [msgoutEcrypted_eq h] at hs
  cases hs
  have htoken : Quiet 1 s s.getRandomToken.2 := .of_eq (.getRandomToken s) rfl rfl
  exact htoken.trans (queueMsg_quiet _ h htype _ addr)

theorem genNewTransId_quiet (s : BdNode mFns) : Quiet 0 s s.genNewTransId.2 :=
  .frame rfl rfl rfl rfl rfl

theorem ping_quiet {id : BdId} (h : s.ping id = .ok s') : Quiet 0 s s' := by
  have hsent := msgout_quiet (Msg.ping_short s.len_genNewTransId_le) MsgType.noConfusion h
  exact s.genNewTransId_quiet.trans hsent

theorem msgoutFindNode_quiet {id : BdId} {transId : BdToken} {query : BdNodeId}
    (htid : transId.len ≤ bitdhtTokenMaxLen) (h : s.msgoutFindNode id transId query = .ok s') :
    Quiet 0 s s' :=
  msgout_quiet (Msg.findNode_short htid) MsgType.noConfusion h

theorem msgoutPong_quiet {id : BdId} {transId : BdToken} (htid : transId.len ≤ bitdhtTokenMaxLen)
    (h : s.msgoutPong id transId = .ok s') : Quiet 0 s s' :=
  msgout_quiet (Msg.pong_short htid s.len_versionToken_le) MsgType.noConfusion h

theorem msgoutAskConn_quiet {id : BdId} {transId : BdToken} {nodeId : BdNodeId} {peerId : BdId}
    (htid : transId.len ≤ bitdhtTokenMaxLen)
    (h : s.msgoutAskConn id transId nodeId peerId = .ok s') : Quiet 0 s s' :=
  msgout_quiet (Msg.askConn_short htid) MsgType.noConfusion h

theorem msgoutBroadcastConn_quiet {id : BdId} {transId : BdToken} {nodeId peerId : BdNodeId}
    (htid : transId.len ≤ bitdhtTokenMaxLen)
    (h : s.msgoutBroadcastConn id transId nodeId peerId = .ok s') : Quiet 0 s s' :=
  msgout_quiet (Msg.broadcastConn_short htid) MsgType.noConfusion h

theorem msgoutAskMyip_quiet {dhtId : BdId} {transId : BdToken}
    (htid : transId.len ≤ bitdhtTokenMaxLen) (h : s.msgoutAskMyip dhtId transId = .ok s') :
    Quiet 1 s s' :=
  msgoutEcrypted_quiet (Msg.newconn_short htid) MsgType.noConfusion h

theorem msgoutReplyAskMyip_quiet {tunnelId : BdId} {transId : BdToken}
    (htid : transId.len ≤ bitdhtTokenMaxLen)
    (h : s.msgoutReplyAskMyip tunnelId transId = .ok s') : Quiet 1 s s' :=
  msgoutEcrypted_quiet (Msg.replyNewconn_short htid) MsgType.noConfusion h

/-! ## Packets -/

theorem addPeer_quiet (s : BdNode mFns) (now : Int) (id : BdId) (peerflags : UInt32) :
    Quiet 0 s (s.addPeer now id peerflags) :=
  .frame rfl rfl rfl rfl rfl

theorem onRecvCallback_quiet (s : BdNode mFns) (id : BdId) (type : MsgType) :
    Quiet 0 s (s.onRecvCallback id type) :=
  .frame rfl rfl rfl rfl rfl

theorem checkPotentialPeers_quiet (s : BdNode mFns) (now : Int) (nodes : List BdId) :
    Quiet 0 s (nodes.foldl (fun s it => s.checkPotentialPeer now it) s) := by
  induction nodes generalizing s with
  | nil =>
      exact .refl s
  | cons it nodes ih =>
      have hfirst : Quiet 0 s (s.checkPotentialPeer now it) := .frame rfl rfl rfl rfl rfl
      exact hfirst.trans (ih _)

theorem matchConn_quiet {id : BdId} {self other nid₁ nid₂ : BdNodeId}
    (h : s.matchConn id self other nid₁ nid₂ = .ok s') : Quiet 0 s s' := by
  refine matchConn_rel .trans (fun _ _ _ => .frame rfl rfl rfl rfl rfl) ?_ h
  intro s s₁ id nodeId peerId hs₁
  exact s.genNewTransId_quiet.trans (msgoutAskConn_quiet s.len_genNewTransId_le hs₁)

theorem msginBroadcastConn_quiet {id : BdId} {tid : BdToken} {nodeId peerId : BdNodeId}
    (h : s.msginBroadcastConn id tid nodeId peerId = .ok s') : Quiet 0 s s' := by
  rw [msginBroadcastConn] at h
  split_ifs at h
  · exact matchConn_quiet h
  · exact matchConn_quiet h
  · cases h
    exact .refl s

end BdNode

/-- How many tokens a handler draws: a NEWCONN is answered with one. -/
def MsgIn.draws : MsgIn → Nat
  | .askMyip _ _ => 1
  | _ => 0

/-- The two calls that are put in the queue. -/
def MsgIn.IsQuery : MsgIn → Prop
  | .findNode _ _ _ => True
  | .getHash _ _ _ => True
  | _ => False

/-- A handler that queues nothing is quiet. -/
theorem BdNode.msgin_quiet {s s' : BdNode mFns} {now : Int} {junk : Junk} {c : MsgIn}
    (htokens : ∀ tok ∈ c.tokens, tok.len ≤ bitdhtTokenMaxLen) (hquery : ¬ c.IsQuery)
    (h : s.msgin now junk c = .ok s') : Quiet c.draws s s' := by
  cases c with
  | ping id transId =>
      rcases bind_eq_ok.1 h with ⟨s₁, hs₁, hrest⟩
      cases hrest
      have htid := htokens transId (by simp [MsgIn.tokens])
      exact ((s.addPeer_quiet now (id.bdId junk) 0).trans (msgoutPong_quiet htid hs₁)).trans
        (onRecvCallback_quiet _ _ _)
  | pong id transId versionId =>
      cases h
      exact (s.addPeer_quiet now (id.bdId junk) _).trans (onRecvCallback_quiet _ _ _)
  | findNode id transId query =>
      exact absurd trivial hquery
  | replyFindNode id transId nodes =>
      cases h
      exact ((s.checkPotentialPeers_quiet now nodes).trans (addPeer_quiet _ now _ _)).trans
        (onRecvCallback_quiet _ _ _)
  | getHash id transId infoHash =>
      exact absurd trivial hquery
  | replyHash id transId token values =>
      cases h
      exact .refl s
  | replyNearest id transId token nodes =>
      cases h
      exact .refl s
  | postHash id transId infoHash port token =>
      cases h
      exact .refl s
  | replyPost id transId =>
      cases h
      exact .refl s
  | askMyip tunnelId transId =>
      rcases bind_eq_ok.1 h with ⟨s₁, hs₁, hrest⟩
      cases hrest
      have htid := htokens transId (by simp [MsgIn.tokens])
      exact (msgoutReplyAskMyip_quiet htid hs₁).trans (onRecvCallback_quiet _ _ _)
  | replyAskMyip tunnelId transId =>
      cases h
      simp only [msginReplyAskMyip]
      split_ifs
      · exact .frame rfl rfl rfl rfl rfl
      · exact .frame rfl rfl rfl rfl rfl
      · exact .frame rfl rfl rfl rfl rfl
  | broadcastConn id tid nodeId peerId =>
      exact @msginBroadcastConn_quiet _ _ _ _ tid _ _ h
  | askConn id tid nodeId peerId =>
      cases h
      simp only [msginAskConn]
      split_ifs
      · exact .refl s
      · exact .frame rfl rfl rfl rfl rfl
      · exact .refl s

namespace BdNode

variable {s s' : BdNode mFns}

/-! ## Loops -/

theorem pingPotential_quiet {n left : Nat} (h : pingPotential n s = .ok (left, s')) :
    Quiet 0 s s' :=
  pingPotential_rel .refl .trans (fun _ _ => .frame rfl rfl rfl rfl rfl) ping_quiet h

theorem askQueries_quiet {now : Int} {env : IterEnv} {n i sentMsgs : Nat}
    (h : askQueries now env n i sentMsgs s = .ok s') : Quiet 0 s s' := by
  refine askQueries_rel .refl .trans (fun _ _ _ => .frame rfl rfl rfl rfl rfl) ?_ h
  intro s s₁ id target hs₁
  exact s.genNewTransId_quiet.trans (msgoutFindNode_quiet s.len_genNewTransId_le hs₁)

theorem pingOutOfDate_quiet {now : Int} {fuel : Nat} (h : pingOutOfDate now fuel s = .ok s') :
    Quiet 0 s s' :=
  pingOutOfDate_rel .refl .trans (fun _ _ => .frame rfl rfl rfl rfl rfl) ping_quiet h

theorem broadcastTo_quiet {it : BdPeer} (h : s.broadcastTo it = .ok s') : Quiet 1 s s' := by
  rcases bind_eq_ok.1 h with ⟨s₁, hs₁, hrest⟩
  have hask : Quiet 1 s s₁ :=
    s.genNewTransId_quiet.trans (msgoutAskMyip_quiet (len_genNewTransId_le s) hs₁)
  refine hask.trans (Quiet.foldlM ?_ hrest)
  intro s₂ itt s₃ hs₃
  exact s₂.genNewTransId_quiet.trans (msgoutBroadcastConn_quiet (len_genNewTransId_le s₂) hs₃)

theorem punch_quiet {times : Nat} {it : BdId} (h : punch times s it = .ok s') :
    Quiet 0 s s' := by
  refine s.genNewTransId_quiet.trans (Quiet.foldlM ?_ h)
  intro s₁ _ s₂ hs₂
  exact msgout_quiet (Msg.ping_short s.len_genNewTransId_le) MsgType.noConfusion hs₂

end BdNode

/-! ## Calls -/

/-- The calls that work on neither the queue of remote queries nor the messages of the socket, but
to send. -/
def NodeCall.Plain : NodeCall → Prop
  | .recvPkt .. => False
  | .processRemoteQuery => False
  | .outgoingMsg => False
  | .shutdownNode => False
  | _ => True

/-- How many tokens a call draws. -/
def tokensDrawn (s : BdNode mFns) : NodeCall → Nat
  | .recvPkt _ word msg addr =>
      match (s.recvActOn word msg msg.length addr).run with
      | .ok (some (.msgin c)) => c.draws
      | _ => 0
  | .broadcastTo _ => 1
  | _ => 0

theorem callStep_quiet {s s' : BdNode mFns} {now : Int} {c : NodeCall} (hc : c.Plain)
    (h : callStep s (now, c) = .ok s') : Quiet (tokensDrawn s c) s s' := by
  cases c with
  | recvPkt | processRemoteQuery | outgoingMsg | shutdownNode =>
      exact hc.elim
  | pingPotential n =>
      rcases bind_eq_ok.1 h with ⟨⟨left, s₁⟩, hs₁, hrest⟩
      cases hrest
      exact BdNode.pingPotential_quiet hs₁
  | askQueries env n i sentMsgs =>
      exact BdNode.askQueries_quiet h
  | pingOutOfDate fuel =>
      exact BdNode.pingOutOfDate_quiet h
  | broadcastTo it =>
      exact BdNode.broadcastTo_quiet h
  | punch times it =>
      exact BdNode.punch_quiet h
  | addQuery id qflags =>
      cases h
      exact .frame rfl rfl rfl rfl rfl
  | clearQuery rmId =>
      cases h
      exact .frame rfl rfl rfl rfl rfl
  | addConnReq id =>
      cases h
      exact .frame rfl rfl rfl rfl rfl
  | addPotentialPeer id =>
      cases h
      exact .frame rfl rfl rfl rfl rfl
  | reloadStore store =>
      cases h
      exact .frame rfl rfl rfl rfl rfl

/-- What a received packet can do. -/
theorem BdNode.recvPktOn_cases {s s' : BdNode mFns} {now : Int} {junk : Junk} {word : UInt32}
    {p : List UInt8} {addr : SockaddrIn}
    (h : s.recvPktOn word now junk p p.length addr = .ok s') :
    ((s.recvActOn word p p.length addr).run = .ok none ∧ s' = s) ∨
    ((s.recvActOn word p p.length addr).run = .ok (some (.addBlackList addr)) ∧
      s' = s.addBlackList addr) ∨
    ∃ c : MsgIn, (s.recvActOn word p p.length addr).run = .ok (some (.msgin c)) ∧
      (∀ tok ∈ c.tokens, tok.len ≤ bitdhtTokenMaxLen) ∧ s.msgin now junk c = .ok s' := by
  rcases bind_eq_ok.1 h with ⟨act, hact, hs'⟩
  match act with
  | none =>
      cases hs'
      exact .inl ⟨hact, rfl⟩
  | some (.addBlackList a) =>
      rcases recvActOn_addBlackList_iff.1 hact with ⟨rfl, _⟩
      cases hs'
      exact .inr (.inl ⟨hact, rfl⟩)
  | some (.msgin c) =>
      exact .inr (.inr ⟨c, hact, recvActOn_tokens hact, hs'⟩)

end BitDht
