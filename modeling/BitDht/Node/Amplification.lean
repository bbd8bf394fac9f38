import BitDht.Node.Provenance
import Mathlib.Algebra.Group.Action.Defs
import Mathlib.Algebra.Order.BigOperators.Group.List

/-!
# Amplification — no more answers than packets

Who sends a node packets under another address has it answer to that address.  A PONG, a REPLY_NEWCONN and a
place in the queue of remote queries are each what one packet brings, so over any run an address gets no
more answers than packets came from it, and none of them is longer than 514 bytes (`run_answers`).
-/

namespace BitDht

open Container Outcome

variable {mFns : BdDhtFunctions}

/-! ## Answers -/

def MsgType.isAnswer : MsgType → Bool
  | .pong | .replyNode | .replyNewconn => true
  | _ => false

/-- Whoever gets the message takes it for an answer. -/
def BdNodeNetMsg.isAnswer (m : BdNodeNetMsg) : Bool :=
  holds (beDecoden m.data m.data.length)
    (fun n => n.any (fun n => holds (beMsgType n) MsgType.isAnswer))

/-- The calls whose messages are answers. -/
def MsgoutCall.isAnswer : MsgoutCall → Bool
  | .pong .. | .replyFindNode .. | .replyAskMyip .. => true
  | _ => false

theorem isAnswer_packet {c : MsgoutCall} (h : c.ArgsFit) (s : BdNode mFns) :
    (c.packet s).isAnswer = c.isAnswer := by
  rcases c.exists_packet_data s with ⟨z, hz⟩
  rw [BdNodeNetMsg.isAnswer, hz, (MsgoutCall.msg_short h s).beDecoden_tree z, holds, Option.any_some,
    Msg.beMsgType_tree, holds]
  cases c <;> rfl

/-- The bytes that a message of a node can have. -/
def maxMsgLen : Nat := 514

theorem length_packet_le_maxMsgLen {c : MsgoutCall} (h : c.ArgsFit) (s : BdNode mFns) :
    (c.packet s).data.length ≤ maxMsgLen := by
  have hlen := (MsgoutCall.msg_short h s).length_le
  rw [MsgoutCall.packet, maxMsgLen]
  dsimp only
  split
  · rw [List.length_append, List.length_append, length_storeU32, length_storeU32]
    omega
  · omega

/-- The answers to an address. -/
def answersTo (a : SockaddrIn) (msgs : List BdNodeNetMsg) : List BdNodeNetMsg :=
  msgs.filter (fun m => m.isAnswer && decide (m.addr = a))

/-- The queries of the queue that are from an address. -/
def waitingFor (a : SockaddrIn) (queue : List BdRemoteQuery) : Nat :=
  queue.countP (fun q => decide (q.mId.addr = a))

/-! ## What a step adds -/

/-- The step queues messages and queries, of which no more than `n` are answers to the address or wait
for one. -/
def Adds (a : SockaddrIn) (n : Nat) (s s' : BdNode mFns) : Prop :=
  ∃ msgs, s'.mOutgoingMsgs = s.mOutgoingMsgs ++ msgs ∧ (∀ m ∈ msgs, m.data.length ≤ maxMsgLen) ∧
    (answersTo a msgs).length + waitingFor a s'.mRemoteQueries ≤ waitingFor a s.mRemoteQueries + n

namespace Adds

variable {a : SockaddrIn} {n n' : Nat} {s s' s'' : BdNode mFns}

theorem of_eq (hmsgs : s'.mOutgoingMsgs = s.mOutgoingMsgs)
    (hqueue : s'.mRemoteQueries = s.mRemoteQueries) : Adds a 0 s s' := by
  refine ⟨[], by rw [hmsgs, List.append_nil], fun _ hm => absurd hm List.not_mem_nil, ?_⟩
  rw [hqueue, answersTo, List.filter_nil, List.length_nil]
  omega

theorem trans (h : Adds a n s s') (h' : Adds a n' s' s'') : Adds a (n + n') s s'' := by
  rcases h with ⟨msgs, hmsgs, hlen, hcount⟩
  rcases h' with ⟨msgs', hmsgs', hlen', hcount'⟩
  refine ⟨msgs ++ msgs', by rw [hmsgs', hmsgs, List.append_assoc], ?_, ?_⟩
  · intro m hm
    rcases List.mem_append.1 hm with hm | hm
    · exact hlen m hm
    · exact hlen' m hm
  · rw [answersTo, List.filter_append, List.length_append]
    rw [answersTo] at hcount hcount'
    omega

theorem mono (h : Adds a n s s') (hle : n ≤ n') : Adds a n' s s' := by
  rcases h with ⟨msgs, hmsgs, hlen, hcount⟩
  exact ⟨msgs, hmsgs, hlen, by omega⟩

/-- A message that is an answer counts if it goes to the address. -/
theorem send {c : MsgoutCall} (h : c.ArgsFit) (s : BdNode mFns) :
    Adds a (if c.isAnswer = true ∧ c.receiver.addr = a then 1 else 0) s (c.queued s) := by
  rcases c.queued_eq s with ⟨tokens, rand, hqueued⟩
  refine ⟨[c.packet s], by rw [hqueued], ?_, ?_⟩
  · intro m hm
    rw [List.mem_singleton.1 hm]
    exact length_packet_le_maxMsgLen h s
  · have haddr : (c.packet s).addr = c.receiver.addr := rfl
    rw [hqueued, answersTo]
    dsimp only
    split_ifs with hanswer
    · have hone := List.length_filter_le
        (fun m : BdNodeNetMsg => m.isAnswer && decide (m.addr = a)) [c.packet s]
      rw [List.length_singleton] at hone
      omega
    · have hnone : ((c.packet s).isAnswer && decide ((c.packet s).addr = a)) = false := by
        rw [isAnswer_packet h, haddr]
        simpa using hanswer
      rw [List.filter_cons_of_neg (by rw [hnone]; exact Bool.false_ne_true), List.filter_nil,
        List.length_nil]
      omega

/-- So does a query that is put in the queue. -/
theorem queueQuery (s : BdNode mFns) (now : Int) (id : BdId) (query : BdNodeId) (transId : BdToken)
    (queryType : UInt32) :
    Adds a (if id.addr = a then 1 else 0) s (s.queueQuery now id query transId queryType) := by
  refine ⟨[], (List.append_nil _).symm, fun _ hm => absurd hm List.not_mem_nil, ?_⟩
  have hqueue : (s.queueQuery now id query transId queryType).mRemoteQueries =
      s.mRemoteQueries ++ [⟨id, query, transId, queryType, now⟩] := rfl
  rw [hqueue, waitingFor, List.countP_append, List.countP_singleton, answersTo, List.filter_nil,
    List.length_nil, waitingFor]
  simp only [decide_eq_true_eq]
  omega

/-- The changes that bring no answer and no query. -/
def Silent : NodeEffect → Prop
  | .send c => c.ArgsFit ∧ c.isAnswer = false
  | .queueQuery .. | .mRemoteQueries .. => False
  | _ => True

theorem silent {e : NodeEffect} (he : Silent e) (s : BdNode mFns) : Adds a 0 s (e.apply s) := by
  cases e with
  | send c =>
      refine (Adds.send he.1 s).mono ?_
      rw [if_neg (fun h => Bool.false_ne_true (he.2.symm.trans h.1))]
  | queueQuery | mRemoteQueries => exact he.elim
  | nextQuery bdRandomMidId now endId =>
      rw [NodeEffect.apply, BdNode.turn]
      split
      · exact of_eq rfl rfl
      · exact of_eq rfl rfl
  | newTransId | mPotentialPeers | addPeer | checkPotentialPeer | onRecvCallback | outOfDatePeer
  | connect | addMyIp | addPunching => exact of_eq rfl rfl

theorem effects {Cause : NodeEffect → Prop} (h : Effects Cause s s')
    (hcause : ∀ e, Cause e → Silent e) : Adds a 0 s s' := by
  have happly : ∀ {s₁ : BdNode mFns} {e}, Adds a 0 s s₁ → Cause e → Adds a 0 s (e.apply s₁) :=
    fun hs he => hs.trans (silent (hcause _ he) _)
  exact h.inv happly (of_eq rfl rfl)

end Adds

/-! ## Packets -/

theorem BdNode.recvActOn_askMyip {s : BdNode mFns} {addr : SockaddrIn} {p : List UInt8}
    {word : UInt32} {tunnelId : SrcId} {transId : BdToken}
    (h : (s.recvActOn word p p.length addr).run = .ok (some (.msgin (.askMyip tunnelId transId)))) :
    tunnelId.addr = addr := by
  by_cases hreach : s.isMemberOfBlackList addr = false ∧ ∃ beType, ReachesTrailer p beType
  · rcases hreach with ⟨hblack, beType, hreach⟩
    rcases recvActOn_of_reaches hblack hreach word with ⟨c, hconn, hrun⟩
    rw [h] at hrun
    split_ifs at hrun
    · cases hrun
    · cases hrun
      cases beType with
      | newconn => exact hconn.1
      | _ => exact hconn.elim
    · cases hrun
  · -- without a trailer there is no such call
    rw [recvActOn_of_not_reaches (fun hblack beType h => hreach ⟨hblack, beType, h⟩)] at h
    rcases recvAct_some h with ⟨_, n, r, beType, t, d, i, hn, _, htype, _, _, ht, _, hact⟩
    rcases dictNode_y_of_type htype with ⟨y, hy⟩
    have hlen := length_ne_four hn hy ht
    cases beType with
    | newconn => exact absurd hact (recvEcrypted_ne_ok hlen)
    | replyNewconn =>
        rw [dispatch_replyNewconn] at hact
        split at hact
        · exact absurd hact (recvEcrypted_ne_ok hlen)
        · cases hact
    | broadcastConn =>
        rw [dispatch_broadcastConn] at hact
        split at hact
        · cases hact
        · cases hact
    | askConn =>
        rw [dispatch_askConn] at hact
        split at hact
        · cases hact
        · cases hact
    | _ => cases hact

/-- The sender that a handler answers or whose query it puts in the queue. -/
def MsgIn.asker : MsgIn → Option SrcId
  | .ping id _ => some id
  | .findNode id _ _ => some id
  | .getHash id _ _ => some id
  | .askMyip tunnelId _ => some tunnelId
  | _ => none

theorem BdNode.recvActOn_asker {s : BdNode mFns} {addr : SockaddrIn} {p : List UInt8}
    {word : UInt32} {c : MsgIn}
    (h : (s.recvActOn word p p.length addr).run = .ok (some (.msgin c))) {id : SrcId}
    (hid : c.asker = some id) : id.addr = addr := by
  rcases recvActOn_fromPacket h with ⟨n, _, hfrom⟩
  cases c with
  | ping | findNode | getHash => rw [hfrom.1 id hid]
  | askMyip tunnelId transId =>
      cases hid
      exact recvActOn_askMyip h
  | _ => cases hid

variable {a : SockaddrIn}

/-- A handler brings one answer or one query, to whoever asked. -/
theorem BdNode.msgin_adds {s s' : BdNode mFns} {now : Int} {junk : Junk} {c : MsgIn}
    (htokens : ∀ tok ∈ c.tokens, tok.len ≤ bitdhtTokenMaxLen) {addr : SockaddrIn}
    (haddr : ∀ id, c.asker = some id → id.addr = addr) (hrun : s.msgin now junk c = .ok s') :
    Adds a (if addr = a then 1 else 0) s s' := by
  have hsilent : (∀ e, c.Causes s now junk e → Adds.Silent e) →
      Adds a (if addr = a then 1 else 0) s s' := by
    intro hcause
    rcases s.msgin_effects htokens with ⟨s₁, hs₁, heffects⟩
    rw [hs₁, Except.ok.injEq] at hrun
    exact hrun ▸ (Adds.effects heffects hcause).mono (Nat.zero_le _)
  cases c with
  | ping id transId =>
      have hlen := htokens transId (by simp [MsgIn.tokens])
      have hpong := MsgoutCall.run_queued (c := .pong (id.bdId junk) transId) hlen
        (s.addPeer now (id.bdId junk) 0)
      have hs' := (congrArg (· >>= _) hpong).symm.trans hrun
      cases hs'
      have hsent : Adds a _ (s.addPeer now (id.bdId junk) 0) _ :=
        .send (c := .pong (id.bdId junk) transId) hlen (s.addPeer now (id.bdId junk) 0)
      refine (((Adds.of_eq rfl rfl).trans hsent).trans (Adds.of_eq rfl rfl)).mono ?_
      rw [← haddr id rfl, Nat.zero_add, Nat.add_zero]
      exact Nat.le_of_eq (if_congr (and_iff_right rfl) rfl rfl)
  | askMyip tunnelId transId =>
      have hlen := htokens transId (by simp [MsgIn.tokens])
      have hreply := MsgoutCall.run_queued (c := .replyAskMyip (tunnelId.bdId junk) transId) hlen s
      have hs' := (congrArg (· >>= _) hreply).symm.trans hrun
      cases hs'
      have hsent : Adds a _ s _ := .send (c := .replyAskMyip (tunnelId.bdId junk) transId) hlen s
      refine (hsent.trans (Adds.of_eq rfl rfl)).mono ?_
      rw [← haddr tunnelId rfl, Nat.add_zero]
      exact Nat.le_of_eq (if_congr (and_iff_right rfl) rfl rfl)
  | findNode id transId query =>
      cases hrun
      have hqueued := Adds.queueQuery (a := a) s now (id.bdId junk)
        (query.getD junk.targetInfoHash) transId bdQueryNeighbours
      refine (hqueued.trans (Adds.of_eq rfl rfl)).mono ?_
      rw [← haddr id rfl]
      exact Nat.le_refl _
  | getHash id transId infoHash =>
      cases hrun
      refine (Adds.queueQuery (a := a) s now (id.bdId junk)
        (infoHash.getD junk.targetInfoHash) transId bdQueryHash).mono ?_
      rw [← haddr id rfl]
      exact Nat.le_refl _
  | broadcastConn id tid nodeId peerId =>
      apply hsilent
      intro e he
      cases he with
      | askConn ha hlen => exact ⟨hlen, rfl⟩
      | newTransId | callback | connect => trivial
      | peer hid => cases hid
  | pong | replyFindNode | replyHash | replyNearest | postHash | replyPost | replyAskMyip | askConn =>
      apply hsilent
      intro e he
      cases he <;> trivial

/-- One packet brings no more than one answer, and that to its sender. -/
theorem BdNode.recvPktOn_adds {s s' : BdNode mFns} {now : Int} {junk : Junk} {word : UInt32}
    {p : List UInt8} {addr : SockaddrIn} (hrun : s.recvPktOn word now junk p p.length addr = .ok s') :
    Adds a (if addr = a then 1 else 0) s s' := by
  rcases recvPktOn_cases hrun with ⟨_, rfl⟩ | ⟨_, rfl⟩ | ⟨c, hact, htokens, hs'⟩
  · exact (Adds.of_eq rfl rfl).mono (Nat.zero_le _)
  · refine Adds.mono ?_ (Nat.zero_le _)
    rw [addBlackList]
    split_ifs
    · exact .of_eq rfl rfl
    · exact .of_eq rfl rfl
  · exact msgin_adds htokens (fun id hid => recvActOn_asker hact hid) hs'

/-! ## The queue -/

/-- An answer to a query takes its place in the queue. -/
theorem BdNode.processQueue_adds {s s' : BdNode mFns} {now : Int} {queue : List BdRemoteQuery}
    (hlen : ∀ q ∈ queue, q.mTransId.len ≤ bitdhtTokenMaxLen)
    (hrun : s.processQueue now queue = .ok s') :
    ∃ msgs, s'.mOutgoingMsgs = s.mOutgoingMsgs ++ msgs ∧
      (∀ m ∈ msgs, m.data.length ≤ maxMsgLen) ∧
      (answersTo a msgs).length + waitingFor a s'.mRemoteQueries ≤ waitingFor a queue := by
  have hempty : ∀ {queue' : List BdRemoteQuery}, waitingFor a queue' ≤ waitingFor a queue →
      ∃ msgs, s.mOutgoingMsgs = s.mOutgoingMsgs ++ msgs ∧
        (∀ m ∈ msgs, m.data.length ≤ maxMsgLen) ∧
        (answersTo a msgs).length + waitingFor a queue' ≤ waitingFor a queue := by
    intro queue' hle
    refine ⟨[], (List.append_nil _).symm, fun _ hm => absurd hm List.not_mem_nil, ?_⟩
    rw [answersTo, List.filter_nil, List.length_nil, Nat.zero_add]
    exact hle
  induction queue with
  | nil =>
      cases hrun
      exact hempty (Nat.le_refl _)
  | cons query queue ih =>
      have hrest : ∀ q ∈ queue, q.mTransId.len ≤ bitdhtTokenMaxLen :=
        fun q hq => hlen q (List.mem_cons_of_mem query hq)
      have hshorter : waitingFor a queue ≤ waitingFor a (query :: queue) :=
        List.Sublist.countP_le (List.sublist_cons_self query queue)
      have hpass : s.processQueue now queue = .ok s' → ∃ msgs,
          s'.mOutgoingMsgs = s.mOutgoingMsgs ++ msgs ∧ (∀ m ∈ msgs, m.data.length ≤ maxMsgLen) ∧
          (answersTo a msgs).length + waitingFor a s'.mRemoteQueries ≤
            waitingFor a (query :: queue) := by
        intro hrun
        rcases ih hrest hrun (fun hle => by
          refine ⟨[], (List.append_nil _).symm, fun _ hm => absurd hm List.not_mem_nil, ?_⟩
          rw [answersTo, List.filter_nil, List.length_nil, Nat.zero_add]
          exact hle) with ⟨msgs, hmsgs, hsize, hcount⟩
        exact ⟨msgs, hmsgs, hsize, hcount.trans hshorter⟩
      rw [processQueue] at hrun
      split_ifs at hrun with hage htype hhash
      · have hnodes := length_findNearestNodes_le s.mNodeSpace query.mQuery bitdhtQueryNeighbourPeers
        rw [← List.length_map (f := Prod.snd)] at hnodes
        let c : MsgoutCall := .replyFindNode query.mId query.mTransId (s.nearestTo query.mQuery)
        have hfit : c.ArgsFit := ⟨hlen query List.mem_cons_self, Int.ofNat_le.2 hnodes⟩
        have hs' := (congrArg (· >>= _) (MsgoutCall.run_queued hfit s)).symm.trans hrun
        cases hs'
        -- the answer goes to where the query is from
        rcases Adds.send (a := a) hfit s with ⟨msgs, hmsgs, hsize, hcount⟩
        have hqueue : (c.queued s).mRemoteQueries = s.mRemoteQueries := by
          rcases c.queued_eq s with ⟨_, _, hqueued⟩
          rw [hqueued]
        rw [hqueue] at hcount
        refine ⟨msgs, hmsgs, hsize, ?_⟩
        have hwait : waitingFor a (query :: queue) =
            waitingFor a queue + if query.mId.addr = a then 1 else 0 := by
          rw [waitingFor, List.countP_cons]
          simp only [decide_eq_true_eq]
          rfl
        have hone : (if c.isAnswer = true ∧ c.receiver.addr = a then 1 else 0) =
            if query.mId.addr = a then 1 else 0 := if_congr (and_iff_right rfl) rfl rfl
        rw [hone] at hcount
        show (answersTo a msgs).length + waitingFor a queue ≤ _
        rw [hwait]
        omega
      · cases hrun
        exact hempty hshorter
      · exact hpass hrun
      · exact hpass hrun

/-! ## Runs -/

/-- A node, and all that it has put in its queue for the socket. -/
structure SendLog (mFns : BdDhtFunctions) where
  node : BdNode mFns
  queued : List BdNodeNetMsg

def SendLog.start (ownId : BdNodeId) (dhtVersion : List UInt8) (store : List BdPeer)
    (rand : Nat → UInt32) : SendLog mFns where
  node := BdNode.new ownId dhtVersion store rand
  queued := []

/-- What a call puts in the queue.  Two calls only take from it. -/
def newMsgs (s s' : BdNode mFns) : NodeCall → List BdNodeNetMsg
  | .outgoingMsg | .shutdownNode => []
  | _ => s'.mOutgoingMsgs.drop s.mOutgoingMsgs.length

def logStep (r : SendLog mFns) (op : Int × NodeCall) : Exec (SendLog mFns) := do
  let node ← callStep r.node op
  pure { node := node, queued := r.queued ++ newMsgs r.node node op.2 }

/-- The packet of a call came from the address. -/
def NodeCall.isFrom (a : SockaddrIn) : NodeCall → Bool
  | .recvPkt _ _ _ addr => decide (addr = a)
  | _ => false

def packetsFrom (a : SockaddrIn) (ops : List (Int × NodeCall)) : Nat :=
  ops.countP (fun op => op.2.isFrom a)

/-- A call that only adds to the queue. -/
theorem newMsgs_of_append {s s' : BdNode mFns} {msgs : List BdNodeNetMsg} {c : NodeCall}
    (hmsgs : s'.mOutgoingMsgs = s.mOutgoingMsgs ++ msgs) (hc : c ≠ .outgoingMsg)
    (hc' : c ≠ .shutdownNode) : newMsgs s s' c = msgs := by
  have hdrop : s'.mOutgoingMsgs.drop s.mOutgoingMsgs.length = msgs := by
    rw [hmsgs, List.drop_left]
  cases c with
  | outgoingMsg => exact absurd rfl hc
  | shutdownNode => exact absurd rfl hc'
  | _ => exact hdrop

/-- A call brings an answer or a query only if it is of a packet from the address. -/
theorem callStep_adds {s s' : BdNode mFns}
    (hlen : ∀ q ∈ s.mRemoteQueries, q.mTransId.len ≤ bitdhtTokenMaxLen) {now : Int} {c : NodeCall}
    (hrun : callStep s (now, c) = .ok s') :
    (∀ m ∈ newMsgs s s' c, m.data.length ≤ maxMsgLen) ∧
      (answersTo a (newMsgs s s' c)).length + waitingFor a s'.mRemoteQueries ≤
        waitingFor a s.mRemoteQueries + (if c.isFrom a then 1 else 0) := by
  have hadds : ∀ {n}, Adds a n s s' → n ≤ (if c.isFrom a then 1 else 0) → c ≠ .outgoingMsg →
      c ≠ .shutdownNode → (∀ m ∈ newMsgs s s' c, m.data.length ≤ maxMsgLen) ∧
        (answersTo a (newMsgs s s' c)).length + waitingFor a s'.mRemoteQueries ≤
          waitingFor a s.mRemoteQueries + (if c.isFrom a then 1 else 0) := by
    rintro n ⟨msgs, hmsgs, hsize, hcount⟩ hle hc hc'
    rw [newMsgs_of_append hmsgs hc hc']
    exact ⟨hsize, by omega⟩
  have hquiet : c.Sends → (∀ e, c.Causes s now e → Adds.Silent e) → Adds a 0 s s' := by
    intro hsends hcause
    rcases callStep_effects hlen hsends now with ⟨s₁, hs₁, heffects⟩
    rw [hs₁, Except.ok.injEq] at hrun
    exact hrun ▸ Adds.effects heffects hcause
  cases c with
  | recvPkt junk word msg addr =>
      refine hadds (BdNode.recvPktOn_adds hrun) ?_ NodeCall.noConfusion NodeCall.noConfusion
      exact Nat.le_of_eq (if_congr decide_eq_true_iff.symm rfl rfl)
  | processRemoteQuery =>
      rcases BdNode.processQueue_adds (a := a) hlen hrun with ⟨msgs, hmsgs, hsize, hcount⟩
      exact hadds ⟨msgs, hmsgs, hsize, hcount⟩ (Nat.zero_le _) NodeCall.noConfusion
        NodeCall.noConfusion
  | pingPotential n =>
      refine hadds (hquiet trivial ?_) (Nat.zero_le _) NodeCall.noConfusion NodeCall.noConfusion
      intro e he
      cases he with
      | pingPotential _ _ htid => exact ⟨htid, rfl⟩
      | newTransId | pop => trivial
  | askQueries env n i sentMsgs =>
      refine hadds (hquiet trivial ?_) (Nat.zero_le _) NodeCall.noConfusion NodeCall.noConfusion
      intro e he
      cases he with
      | findNode _ _ _ _ _ htid => exact ⟨htid, rfl⟩
      | newTransId | turn => trivial
  | pingOutOfDate fuel =>
      refine hadds (hquiet trivial ?_) (Nat.zero_le _) NodeCall.noConfusion NodeCall.noConfusion
      intro e he
      cases he with
      | pingOutOfDate _ _ htid => exact ⟨htid, rfl⟩
      | newTransId | outOfDate => trivial
  | broadcastTo it =>
      refine hadds (hquiet trivial ?_) (Nat.zero_le _) NodeCall.noConfusion NodeCall.noConfusion
      intro e he
      cases he with
      | askMyip _ htid => exact ⟨htid, rfl⟩
      | broadcastConn _ _ htid => exact ⟨htid, rfl⟩
      | newTransId => trivial
  | punch times it =>
      refine hadds (hquiet trivial ?_) (Nat.zero_le _) NodeCall.noConfusion NodeCall.noConfusion
      intro e he
      cases he with
      | punch _ _ htid => exact ⟨htid, rfl⟩
      | newTransId => trivial
  | addQuery | clearQuery | addConnReq | addPotentialPeer | reloadStore =>
      cases hrun
      exact hadds (.of_eq rfl rfl) (Nat.zero_le _) NodeCall.noConfusion NodeCall.noConfusion
  | outgoingMsg =>
      cases hrun
      exact ⟨fun _ hm => absurd hm List.not_mem_nil, Nat.le_of_eq (Nat.zero_add _)⟩
  | shutdownNode =>
      cases hrun
      exact ⟨fun _ hm => absurd hm List.not_mem_nil, Nat.zero_le _⟩

/-- What holds of the log of a run: each answer to an address is one packet from there, and each query
from there that waits is another. -/
structure SendLog.Bounded (ops : List (Int × NodeCall)) (r : SendLog mFns) : Prop where
  known : Knows (fun _ => True) (fun _ => True) r.node
  size : ∀ m ∈ r.queued, m.data.length ≤ maxMsgLen
  count : ∀ a, (answersTo a r.queued).length + waitingFor a r.node.mRemoteQueries ≤
    packetsFrom a ops

/-- The queries of the queue have transaction ids that fit, whatever the node knows. -/
theorem Knows.any_callStep {s s' : BdNode mFns} (h : Knows (fun _ => True) (fun _ => True) s)
    {now : Int} {c : NodeCall} (hrun : BitDht.callStep s (now, c) = .ok s') :
    Knows (fun _ => True) (fun _ => True) s' := by
  by_cases hpacket : ∃ junk word p addr, c = .recvPkt junk word p addr
  · rcases hpacket with ⟨junk, word, p, addr, rfl⟩
    exact h.recvPkt (fun _ _ _ => trivial) (fun _ _ => trivial) hrun
  · exact h.of_callStep (fun junk word p addr heq => hpacket ⟨junk, word, p, addr, heq⟩) hrun

theorem SendLog.Bounded.logStep {ops : List (Int × NodeCall)} {r r' : SendLog mFns}
    (h : r.Bounded ops) {op : Int × NodeCall} (hrun : BitDht.logStep r op = .ok r') :
    r'.Bounded (ops ++ [op]) := by
  rcases op with ⟨now, c⟩
  rcases bind_eq_ok.1 hrun with ⟨s', hstep, hr'⟩
  cases hr'
  have hadds := fun a => callStep_adds (a := a) (fun q hq => (h.known.remote q hq).2) hstep
  refine ⟨h.known.any_callStep hstep, ?_, ?_⟩
  · intro m hm
    rcases List.mem_append.1 hm with hm | hm
    · exact h.size m hm
    · exact (hadds ⟨0, 0, 0⟩).1 m hm
  · intro a
    have hbefore := h.count a
    have hnew := (hadds a).2
    rw [answersTo] at hbefore hnew
    rw [answersTo, List.filter_append, List.length_append, packetsFrom, List.countP_append,
      List.countP_singleton]
    rw [packetsFrom] at hbefore
    dsimp only
    omega

/-- Whatever comes in, and in whichever order, an address gets no more answers than packets came from it,
and no more bytes of answers than 514 for each of these packets. -/
theorem run_answers {ops : List (Int × NodeCall)} {ownId : BdNodeId} {dhtVersion : List UInt8}
    {store : List BdPeer} {rand : Nat → UInt32} {r : SendLog mFns}
    (hrun : ops.foldlM logStep (SendLog.start ownId dhtVersion store rand) = .ok r)
    (a : SockaddrIn) :
    (answersTo a r.queued).length ≤ packetsFrom a ops ∧
      ((answersTo a r.queued).map (fun m => m.data.length)).sum ≤
        packetsFrom a ops * maxMsgLen := by
  have hstart : (SendLog.start ownId dhtVersion store rand : SendLog mFns).Bounded [] :=
    ⟨.new .., fun _ hm => absurd hm List.not_mem_nil, fun _ => Nat.le_refl _⟩
  have hend : r.Bounded ops := foldlM_log (fun h hstep => h.logStep hstep) hstart hrun
  have hcount : (answersTo a r.queued).length ≤ packetsFrom a ops :=
    (Nat.le_add_right _ _).trans (hend.count a)
  have hsize : ((answersTo a r.queued).map (fun m => m.data.length)).sum ≤
      (answersTo a r.queued).length * maxMsgLen := by
    rw [← List.length_map (fun m : BdNodeNetMsg => m.data.length), ← smul_eq_mul]
    apply List.sum_le_card_nsmul
    intro len hlen
    rcases List.mem_map.1 hlen with ⟨m, hm, rfl⟩
    exact hend.size m (List.mem_of_mem_filter hm)
  exact ⟨hcount, hsize.trans (Nat.mul_le_mul_right _ hcount)⟩

/-- A PING, and the PONG to whoever it seems to be from. -/
theorem run_answers_ping : ∃ r : SendLog bdStdDht,
    (answersTo ⟨afInet, 16777343, 8080⟩ r.queued).length = 1 ∧
      ((answersTo ⟨afInet, 16777343, 8080⟩ r.queued).map (fun m => m.data.length)).sum ≤ 514 := by
  let ops : List (Int × NodeCall) := [(7, .recvPkt ⟨bdZeroNodeId, bdZeroNodeId, 0⟩ 0
    (ascii "d1:ad2:id20:aaaaaaaaaaaaaaaaaaaae1:q4:ping1:t2:aa1:y1:qe") ⟨afInet, 16777343, 8080⟩)]
  have hcheck : holds (ops.foldlM logStep
      (SendLog.start bdZeroNodeId [] [] (fun _ => 0) : SendLog bdStdDht))
      (fun r => (answersTo ⟨afInet, 16777343, 8080⟩ r.queued).length == 1) = true := by
    decide +kernel
  rcases holds_iff.1 hcheck with ⟨r, hrun, hone⟩
  have hfrom : packetsFrom ⟨afInet, 16777343, 8080⟩ ops = 1 := by decide +kernel
  have hsize := (run_answers hrun ⟨afInet, 16777343, 8080⟩).2
  rw [hfrom, Nat.one_mul, maxMsgLen] at hsize
  exact ⟨r, beq_iff_eq.1 hone, hsize⟩

end BitDht
