import BitDht.Container.Service
import BitDht.Node.Delivery
import BitDht.Node.Effects
import BitDht.Peer.Nearest

/-!
# Replies — which FIND_NODE is answered, when, and with what

A FIND_NODE is put in a queue, and `processRemoteQuery` answers one query of it at a time, unless it
has become too old.  So the replies that a node sends belong to FIND_NODE packets that came before, in
the order in which they came, as long as the fields of those packets can be read
(`repliesInOrder`).  A packet whose target cannot be read is answered as well.
-/

namespace BitDht

open Container Outcome

variable {mFns : BdDhtFunctions}

/-! ## Requests and replies -/

/-- A FIND_NODE as it comes in: from where, its transaction id, its target, and when. -/
structure FindNodeReq where
  addr : SockaddrIn
  transId : BdToken
  target : BdNodeId
  time : Int
  deriving DecidableEq

/-- The FIND_NODE in a packet, if its transaction id is a string and its target one of the length of
an id. -/
def findNodeOf (now : Int) (p : List UInt8) (addr : SockaddrIn) : Option FindNodeReq :=
  match beDecoden p p.length with
  | .ok (some n) =>
      match beMsgType n, beMsgGetDictNode n (ascii "t"),
        (bodyField n "target").bind beMsgGetNodeId with
      | .ok .findNode, some (.str (some transId)), some target =>
          some { addr := addr, transId := { data := transId }, target := target, time := now }
      | _, _, _ => none
  | _ => none

/-- A reply as it is sent, when, and the peers that the node knew then. -/
structure SentReply (mFns : BdDhtFunctions) where
  msg : BdNodeNetMsg
  time : Int
  space : BdSpace mFns

/-- The reply is one to the request: it goes to the same address, has the same transaction id, is not
late, and lists the peers nearest to the target. -/
structure Answers (reply : SentReply mFns) (req : FindNodeReq) : Prop where
  addr : reply.msg.addr = req.addr
  age : reply.time - req.time < BdNode.bitdhtMaxRemoteQueryAge
  data : ∃ id nodes, reply.msg.data = bencode (Msg.replyNode req.transId id nodes).tree ∧
    reply.space.Nearest req.target BdNode.bitdhtQueryNeighbourPeers.toNat nodes

/-! ## Runs -/

/-- A node, the FIND_NODE packets that have come in so far, and its replies to such packets. -/
structure ReplyRun (mFns : BdDhtFunctions) where
  node : BdNode mFns
  requests : List FindNodeReq
  replies : List (SentReply mFns)

/-- A new node. -/
def ReplyRun.start (ownId : BdNodeId) (dhtVersion : List UInt8) (store : List BdPeer)
    (rand : Nat → UInt32) : ReplyRun mFns where
  node := BdNode.new ownId dhtVersion store rand
  requests := []
  replies := []

/-- The FIND_NODE that a call brings. -/
def requestOf : Int × NodeCall → Option FindNodeReq
  | (now, .recvPkt _ _ p addr) => findNodeOf now p addr
  | _ => none

/-- The replies among the messages that a step at the time `now` has put in the queue. -/
def repliesOf (now : Int) (s s' : BdNode mFns) : List (SentReply mFns) :=
  ((s'.mOutgoingMsgs.drop s.mOutgoingMsgs.length).filter BdNodeNetMsg.isReplyNode).map
    (fun msg => { msg := msg, time := now, space := s.mNodeSpace })

/-- A call, and what it adds to both lists. -/
def replyStep (r : ReplyRun mFns) (op : Int × NodeCall) : Exec (ReplyRun mFns) := do
  let node ← callStep r.node op
  pure { node := node, requests := r.requests ++ (requestOf op).toList,
         replies := r.replies ++ repliesOf op.1 r.node node }

/-- The replies so far are replies to different FIND_NODE packets so far, in the order of these. -/
def RepliesInOrder (r : ReplyRun mFns) : Prop :=
  List.SublistForall₂ Answers r.replies r.requests

/-- A FIND_NODE that is not dropped has a transaction id and a target that can be read. -/
def FindNodeReadable (r : ReplyRun mFns) : Int × NodeCall → Prop
  | (_, .recvPkt _ _ p addr) => r.node.isMemberOfBlackList addr = false →
      ∀ n, beDecoden p p.length = .ok (some n) → beMsgType n = .ok .findNode →
        TokensFit n .findNode → Complete n .findNode →
          IsString (beMsgGetDictNode n (ascii "t")) ∧ IsKey (bodyField n "target")
  | _ => True

/-! ## The queue -/

def BdRemoteQuery.isNeighbours (q : BdRemoteQuery) : Bool :=
  q.mQueryType == bdQueryNeighbours

/-- The query in the queue stands for the request. -/
structure Waits (q : BdRemoteQuery) (req : FindNodeReq) : Prop where
  addr : q.mId.addr = req.addr
  transId : q.mTransId = req.transId
  len : q.mTransId.len ≤ bitdhtTokenMaxLen
  target : q.mQuery = req.target
  time : q.mQueryTS = req.time

/-- Replies and queries belong to requests, in their order. -/
def ReplyRun.Ordered (r : ReplyRun mFns) : Prop :=
  InOrder Answers Waits r.replies (r.node.mRemoteQueries.filter BdRemoteQuery.isNeighbours)
    r.requests

theorem repliesOf_of_eq {now : Int} {s s' : BdNode mFns}
    (h : s'.mOutgoingMsgs = s.mOutgoingMsgs) : repliesOf now s s' = [] := by
  rw [repliesOf, h, List.drop_length]
  rfl

theorem repliesOf_of_noReply {now : Int} {s s' : BdNode mFns} (h : NoReply s s') :
    repliesOf now s s' = [] := by
  rcases h.sent with ⟨msgs, hmsgs, hno⟩
  have hfilter : msgs.filter BdNodeNetMsg.isReplyNode = [] :=
    List.filter_eq_nil_iff.2 (fun m hm => by rw [hno m hm]; exact Bool.false_ne_true)
  rw [repliesOf, hmsgs, List.drop_left, hfilter]
  rfl

/-- A reply that is put in the queue is the only one. -/
theorem repliesOf_concat {now : Int} {s s' : BdNode mFns} {m : Msg} (h : m.Short)
    (htype : m.type = .replyNode) {addr : SockaddrIn}
    (hs' : s'.mOutgoingMsgs = s.mOutgoingMsgs ++ [⟨bencode m.tree, addr⟩]) :
    repliesOf now s s' = [⟨⟨bencode m.tree, addr⟩, now, s.mNodeSpace⟩] := by
  have hreply := isReplyNode_tree h [] addr
  rw [List.append_nil, htype, beq_self_eq_true] at hreply
  rw [repliesOf, hs', List.drop_left, List.filter_cons_of_pos hreply]
  rfl

/-- A query for neighbours that has not become too old is answered when its turn comes. -/
theorem BdNode.processQueue_answer (s : BdNode mFns) {now : Int} {query : BdRemoteQuery}
    (htype : query.mQueryType = bdQueryNeighbours)
    (hage : query.mQueryTS > now - bitdhtMaxRemoteQueryAge)
    (hlen : query.mTransId.len ≤ bitdhtTokenMaxLen) (queue : List BdRemoteQuery) :
    ∃ nodes s', s.processQueue now (query :: queue) = .ok s' ∧ s'.mRemoteQueries = queue ∧
      s.mNodeSpace.Nearest query.mQuery bitdhtQueryNeighbourPeers.toNat nodes ∧
      repliesOf now s s' = [⟨⟨bencode (Msg.replyNode query.mTransId s.mOwnId nodes).tree,
        query.mId.addr⟩, now, s.mNodeSpace⟩] := by
  have hnodes := length_findNearestNodes_le s.mNodeSpace query.mQuery bitdhtQueryNeighbourPeers
  rw [← List.length_map (f := Prod.snd)] at hnodes
  have hshort : (Msg.replyNode query.mTransId s.mOwnId ((s.mNodeSpace.findNearestNodes query.mQuery
      bitdhtQueryNeighbourPeers Multimap.empty).entries.map Prod.snd)).Short :=
    Msg.replyNode_short hlen hnodes
  refine ⟨(s.mNodeSpace.findNearestNodes query.mQuery bitdhtQueryNeighbourPeers
    Multimap.empty).entries.map Prod.snd, { s.queueMsg _ query.mId.addr with
      mRemoteQueries := queue }, ?_, rfl, ?_, repliesOf_concat hshort rfl rfl⟩
  · simp only [processQueue, if_pos hage, if_pos htype]
    rw [s.msgoutReplyFindNode_eq hlen query.mId hnodes, ok_bind]
    rfl
  · exact s.mNodeSpace.nearest_findNearestNodes query.mQuery bitdhtQueryNeighbourPeers.toNat

theorem BdNode.processQueue_inOrder {s s' : BdNode mFns} {now : Int} {queue : List BdRemoteQuery}
    {replies : List (SentReply mFns)} {requests : List FindNodeReq}
    (hinv : InOrder Answers Waits replies (queue.filter BdRemoteQuery.isNeighbours) requests)
    (h : s.processQueue now queue = .ok s') :
    InOrder Answers Waits (replies ++ repliesOf now s s')
      (s'.mRemoteQueries.filter BdRemoteQuery.isNeighbours) requests := by
  -- the messages stay as they are where nothing is answered
  have hsilent : ∀ queue', repliesOf now s { s with mRemoteQueries := queue' } = [] :=
    fun _ => repliesOf_of_eq rfl
  induction queue with
  | nil =>
      cases h
      rwa [hsilent, List.append_nil]
  | cons query queue ih =>
      by_cases htype : query.isNeighbours = true
      · rw [List.filter_cons_of_pos htype] at hinv
        have hquery : query.mQueryType = bdQueryNeighbours := eq_of_beq htype
        by_cases hage : query.mQueryTS > now - bitdhtMaxRemoteQueryAge
        · rcases hinv.exists_head with ⟨_, hwaits⟩
          rcases s.processQueue_answer hquery hage hwaits.len queue with
            ⟨nodes, s₁, hs₁, hqueue, hnearest, hreply⟩
          rw [hs₁] at h
          cases h
          rw [hreply, hqueue]
          apply hinv.answer
          intro req hreq
          refine ⟨hreq.addr, ?_, s.mOwnId, nodes, by rw [← hreq.transId], hreq.target ▸ hnearest⟩
          show now - req.time < bitdhtMaxRemoteQueryAge
          rw [← hreq.time]
          omega
        · simp only [processQueue, if_neg hage] at h
          exact ih hinv.drop h
      · rw [List.filter_cons_of_neg htype] at hinv
        have hquery : query.mQueryType ≠ bdQueryNeighbours := fun h => htype (beq_iff_eq.2 h)
        simp only [processQueue, if_neg hquery] at h
        split_ifs at h
        · cases h
          rwa [hsilent, List.append_nil]
        · exact ih hinv h
        · exact ih hinv h

/-! ## Packets -/

theorem dispatch_findNode {s : BdNode mFns} {msg : List UInt8} {len : Nat} (hlen : len ≠ 4)
    {addr : SockaddrIn} {beType : MsgType} {d : BeNode} {f : Fields} {src : SrcId}
    {transId : BdToken} {query : Option BdNodeId}
    (h : (dispatch s msg len addr beType d f).run =
      .ok (some (.msgin (.findNode src transId query)))) :
    beType = .findNode ∧ src.addr = addr ∧ transId = f.transId ∧ query = f.targetInfoHash := by
  cases beType with
  | findNode =>
      cases h
      exact ⟨rfl, rfl, rfl, rfl⟩
  | newconn =>
      exact absurd h (recvEcrypted_ne_ok hlen)
  | replyNewconn =>
      rw [dispatch_replyNewconn] at h
      split at h
      · exact absurd h (recvEcrypted_ne_ok hlen)
      · cases h
  | broadcastConn =>
      rw [dispatch_broadcastConn] at h
      split at h
      · cases h
      · cases h
  | askConn =>
      rw [dispatch_askConn] at h
      split at h
      · cases h
      · cases h
  | _ => cases h

/-- What is known of a packet that `msgin_find_node` is called for. -/
theorem BdNode.recvActOn_findNode {s : BdNode mFns} {word : UInt32} {p : List UInt8}
    {addr : SockaddrIn} {src : SrcId} {transId : BdToken} {query : Option BdNodeId}
    (h : (s.recvActOn word p p.length addr).run =
      .ok (some (.msgin (.findNode src transId query)))) :
    s.isMemberOfBlackList addr = false ∧ ∃ n t, beDecoden p p.length = .ok (some n) ∧
      beMsgType n = .ok .findNode ∧ TokensFit n .findNode ∧ Complete n .findNode ∧
      beMsgGetDictNode n (ascii "t") = some t ∧ src.addr = addr ∧ transId = tokenOf t ∧
      query = (bodyField n "target").bind beMsgGetNodeId := by
  -- a packet with a trailer leads to another call
  have hno : s.isMemberOfBlackList addr = false → ∀ beType, ¬ ReachesTrailer p beType := by
    intro hblack beType hreach
    rcases recvActOn_of_reaches hblack hreach word with ⟨c, hc, hrun⟩
    rw [h] at hrun
    split_ifs at hrun
    · cases hrun
    · cases hrun
      cases beType <;> exact hc
    · cases hrun
  rw [recvActOn_of_not_reaches hno] at h
  rcases recvAct_some h with
    ⟨hblack, n, r, beType, t, d, i, hn, hdec, htype, hfit, hcomplete, ht, hd, hact⟩
  rcases dictNode_y_of_type htype with ⟨y, hy⟩
  rcases dispatch_findNode (length_ne_four hn hy ht) hact with ⟨rfl, hsrc, htid, hquery⟩
  refine ⟨hblack, n, t, hdec, htype, hfit, hcomplete, ht, hsrc, htid, ?_⟩
  rw [hquery, bodyField_some hd]
  rfl

/-- Where its fields can be read, the query that is put in the queue stands for the packet. -/
theorem findNodeOf_of_recvActOn {s : BdNode mFns} {now : Int} {junk : Junk} {word : UInt32}
    {p : List UInt8} {addr : SockaddrIn} {src : SrcId} {transId : BdToken}
    {query : Option BdNodeId}
    (h : (s.recvActOn word p p.length addr).run =
      .ok (some (.msgin (.findNode src transId query))))
    (hread : s.isMemberOfBlackList addr = false → ∀ n, beDecoden p p.length = .ok (some n) →
      beMsgType n = .ok .findNode → TokensFit n .findNode → Complete n .findNode →
        IsString (beMsgGetDictNode n (ascii "t")) ∧ IsKey (bodyField n "target")) :
    ∃ req, findNodeOf now p addr = some req ∧
      Waits ⟨src.bdId junk, query.getD junk.targetInfoHash, transId, bdQueryNeighbours, now⟩ req := by
  rcases BdNode.recvActOn_findNode h with
    ⟨hblack, n, t, hdec, htype, hfit, hcomplete, ht, hsrc, htid, hquery⟩
  rcases hread hblack n hdec htype hfit hcomplete with ⟨⟨tid, htidString⟩, htarget⟩
  rcases idAt_iff.2 htarget with ⟨target, htargetId, _⟩
  have hlen := len_tokenOf_le (hfit t ht).1
  rw [ht, Option.some.injEq] at htidString
  subst htidString
  refine ⟨⟨addr, ⟨tid⟩, target, now⟩, ?_, hsrc, htid, ?_, ?_, rfl⟩
  · rw [findNodeOf, hdec]
    simp only [htype, ht, htargetId, strOf]
  · rw [htid]
    exact hlen
  · rw [hquery, htargetId]
    rfl

/-! ## One call -/

/-- A packet keeps the order, whether or not it is a FIND_NODE that is put in the queue. -/
theorem recvPkt_ordered {r : ReplyRun mFns} {node : BdNode mFns} {now : Int} {junk : Junk}
    {word : UInt32} {p : List UInt8} {addr : SockaddrIn} (hinv : r.Ordered)
    (hread : FindNodeReadable r (now, .recvPkt junk word p addr))
    (h : r.node.recvPktOn word now junk p p.length addr = .ok node) :
    InOrder Answers Waits (r.replies ++ repliesOf now r.node node)
      (node.mRemoteQueries.filter BdRemoteQuery.isNeighbours)
      (r.requests ++ (findNodeOf now p addr).toList) := by
  have hsame : ∀ {node : BdNode mFns}, NoReply r.node node →
      InOrder Answers Waits (r.replies ++ repliesOf now r.node node)
        (node.mRemoteQueries.filter BdRemoteQuery.isNeighbours)
        (r.requests ++ (findNodeOf now p addr).toList) := by
    intro node hno
    rw [repliesOf_of_noReply hno, List.append_nil, hno.mRemoteQueries]
    exact hinv.arrive _
  rcases BdNode.recvPktOn_cases h with ⟨_, rfl⟩ | ⟨_, rfl⟩ | ⟨c, hact, htokens, hs'⟩
  · exact hsame (.of_eq rfl rfl)
  · apply hsame
    rw [BdNode.addBlackList]
    split_ifs
    · exact .of_eq rfl rfl
    · exact .of_eq rfl rfl
  cases c with
  | findNode src transId query =>
      rcases @findNodeOf_of_recvActOn _ r.node now junk _ _ _ _ _ _ hact hread with
        ⟨req, hreq, hwaits⟩
      cases hs'
      have hsilent : repliesOf now r.node (r.node.msginFindNode now (src.bdId junk) transId
          (query.getD junk.targetInfoHash)) = [] := repliesOf_of_eq rfl
      have hqueue : (r.node.msginFindNode now (src.bdId junk) transId
          (query.getD junk.targetInfoHash)).mRemoteQueries.filter BdRemoteQuery.isNeighbours =
            r.node.mRemoteQueries.filter BdRemoteQuery.isNeighbours ++ [_] :=
        List.filter_append ..
      rw [hsilent, List.append_nil, hqueue, hreq]
      exact hinv.enqueue hwaits
  | getHash src transId infoHash =>
      cases hs'
      have hsilent : repliesOf now r.node (r.node.msginGetHash now (src.bdId junk) transId
          (infoHash.getD junk.targetInfoHash)) = [] := repliesOf_of_eq rfl
      -- a hash query is passed over by the filter
      have hqueue : (r.node.msginGetHash now (src.bdId junk) transId
          (infoHash.getD junk.targetInfoHash)).mRemoteQueries.filter BdRemoteQuery.isNeighbours =
            r.node.mRemoteQueries.filter BdRemoteQuery.isNeighbours ++ [] :=
        List.filter_append ..
      rw [hsilent, List.append_nil, hqueue, List.append_nil]
      exact hinv.arrive _
  | _ =>
      exact hsame (BdNode.msgin_quiet htokens not_false hs').toNoReply

theorem replyStep_ordered {r r' : ReplyRun mFns} {op : Int × NodeCall} (hinv : r.Ordered)
    (hread : FindNodeReadable r op) (h : replyStep r op = .ok r') : r'.Ordered := by
  rcases bind_eq_ok.1 h with ⟨node, hnode, hr'⟩
  cases hr'
  rcases op with ⟨now, c⟩
  cases c with
  | recvPkt junk word p addr =>
      exact recvPkt_ordered hinv hread hnode
  | processRemoteQuery =>
      exact (BdNode.processQueue_inOrder hinv hnode).arrive []
  | outgoingMsg =>
      cases hnode
      have hsilent : repliesOf now r.node r.node.outgoingMsg = [] := by
        rw [repliesOf, BdNode.outgoingMsg, List.drop_drop, List.drop_of_length_le (by omega)]
        rfl
      show InOrder Answers Waits (r.replies ++ repliesOf now r.node r.node.outgoingMsg) _ _
      rw [hsilent, List.append_nil]
      exact hinv.arrive []
  | shutdownNode =>
      cases hnode
      have hsilent : repliesOf now r.node r.node.shutdownNode = [] := by
        rw [repliesOf, BdNode.shutdownNode, List.drop_nil]
        rfl
      show InOrder Answers Waits (r.replies ++ repliesOf now r.node r.node.shutdownNode) _ _
      rw [hsilent, List.append_nil]
      exact hinv.clear.arrive []
  | _ =>
      have hno : NoReply r.node node := by
        refine (callStep_quiet ?_ hnode).toNoReply
        exact trivial
      show InOrder Answers Waits (r.replies ++ repliesOf now r.node node)
        (node.mRemoteQueries.filter BdRemoteQuery.isNeighbours) _
      rw [repliesOf_of_noReply hno, List.append_nil, hno.mRemoteQueries]
      exact hinv.arrive []

/-! ## Runs -/

/-- In every run whose FIND_NODE packets can be read, the replies that were sent belong, at any time, to
different packets that came before them, in the order of these: each goes to the sender of its packet,
carries its transaction id, comes in time and lists the peers nearest to its target. -/
theorem repliesInOrder (ownId : BdNodeId) (dhtVersion : List UInt8) (store : List BdPeer)
    (rand : Nat → UInt32) {ops : List (Int × NodeCall)}
    (h : Guarded replyStep FindNodeReadable
      (ReplyRun.start ownId dhtVersion store rand : ReplyRun mFns) ops) :
    Always replyStep RepliesInOrder
      (ReplyRun.start ownId dhtVersion store rand : ReplyRun mFns) ops := by
  intro pre post r hops hrun
  subst hops
  have hstart : (ReplyRun.start ownId dhtVersion store rand : ReplyRun mFns).Ordered := .nil
  exact (h.append_left.inv (fun hinv hread hstep => replyStep_ordered hinv hread hstep) hstart
    hrun).sublistForall₂

/-- A FIND_NODE as it is built can be read. -/
theorem findNodeReadable_tree {tid : BdToken} (htid : tid.len ≤ bitdhtTokenMaxLen)
    (id target : BdNodeId) {p : List UInt8} (hp : p = bencode (Msg.findNode tid id target).tree)
    (r : ReplyRun mFns) (now : Int) (junk : Junk) (word : UInt32) (addr : SockaddrIn) :
    FindNodeReadable r (now, .recvPkt junk word p addr) := by
  intro _ n hdec _ _ _
  have htree := (Msg.findNode_short htid : (Msg.findNode tid id target).Short).beDecoden_tree []
  rw [List.append_nil, ← hp, hdec, Except.ok.injEq, Option.some.injEq] at htree
  rw [htree, bodyField_some (Msg.packetBody_tree _)]
  refine ⟨⟨tid.data, Msg.tree_t _⟩, target.data, ?_, target.size⟩
  rw [Msg.body, beMsgGetDictNode_there (by decide), beMsgGetDictNode_here (by decide)]

/-- A FIND_NODE with a target, and then a turn of the queue. -/
theorem repliesInOrder_findNode :
    Always replyStep RepliesInOrder
      (ReplyRun.start bdZeroNodeId [] [] (fun _ => 0) : ReplyRun bdStdDht)
      [(0, .recvPkt ⟨bdZeroNodeId, bdZeroNodeId, 0⟩ 0 (ascii
          "d1:ad2:id20:aaaaaaaaaaaaaaaaaaaa6:target20:bbbbbbbbbbbbbbbbbbbbe1:t2:aa1:y1:q1:q9:find_nodee")
          ⟨afInet, 16777343, 8080⟩), (1, .processRemoteQuery)] := by
  apply repliesInOrder
  intro pre op post r hops _
  cases pre with
  | nil =>
      cases hops
      exact @findNodeReadable_tree _ ⟨ascii "aa"⟩ (by decide) ⟨List.replicate 20 97, rfl⟩
        ⟨List.replicate 20 98, rfl⟩ _ (by decide +kernel) r _ _ _ _
  | cons first pre =>
      -- the turn of the queue is no packet
      rw [List.cons_append, List.cons.injEq] at hops
      have hop : op ∈ [((1 : Int), NodeCall.processRemoteQuery)] := by
        rw [hops.2]
        simp
      rw [List.mem_singleton.1 hop]
      trivial

/-- A FIND_NODE whose query is put in the queue. -/
theorem replyStep_findNode {r : ReplyRun mFns} {word : UInt32} {p : List UInt8} {addr : SockaddrIn}
    {src : SrcId} {transId : BdToken} {query : Option BdNodeId}
    (h : (r.node.recvActOn word p p.length addr).run =
      .ok (some (.msgin (.findNode src transId query)))) (now : Int) (junk : Junk) :
    replyStep r (now, .recvPkt junk word p addr) =
      .ok ⟨r.node.msginFindNode now (src.bdId junk) transId (query.getD junk.targetInfoHash),
        r.requests ++ (findNodeOf now p addr).toList, r.replies⟩ := by
  have hstep : callStep r.node (now, .recvPkt junk word p addr) =
      .ok (r.node.msginFindNode now (src.bdId junk) transId
        (query.getD junk.targetInfoHash)) := by
    rw [callStep, BdNode.recvPktOn, h, ok_bind]
    rfl
  have hsilent : repliesOf now r.node (r.node.msginFindNode now (src.bdId junk) transId
      (query.getD junk.targetInfoHash)) = [] := repliesOf_of_eq rfl
  rw [replyStep, hstep, ok_bind, hsilent, List.append_nil]
  rfl

/-- A turn of the queue whose first query is to be answered. -/
theorem replyStep_answer {r : ReplyRun mFns} {now : Int} {query : BdRemoteQuery}
    {queue : List BdRemoteQuery} (hqueue : r.node.mRemoteQueries = query :: queue)
    (htype : query.mQueryType = bdQueryNeighbours)
    (hage : query.mQueryTS > now - BdNode.bitdhtMaxRemoteQueryAge)
    (hlen : query.mTransId.len ≤ bitdhtTokenMaxLen) : ∃ node reply,
    replyStep r (now, .processRemoteQuery) = .ok ⟨node, r.requests, r.replies ++ [reply]⟩ := by
  rcases r.node.processQueue_answer htype hage hlen queue with ⟨nodes, node, hnode, _, _, hreply⟩
  have hstep : callStep r.node (now, .processRemoteQuery) = .ok node := by
    rw [callStep, BdNode.processRemoteQuery, hqueue, hnode]
  have hrequest : requestOf (now, NodeCall.processRemoteQuery) = none := rfl
  refine ⟨node, ⟨⟨bencode (Msg.replyNode query.mTransId r.node.mOwnId nodes).tree,
    query.mId.addr⟩, now, r.node.mNodeSpace⟩, ?_⟩
  rw [replyStep, hstep, ok_bind, hreply, hrequest, Option.toList_none, List.append_nil]
  rfl

/-- A FIND_NODE that comes when no other query waits is answered by the next turn of the queue,
whether or not its fields can be read. -/
theorem findNode_answered {r : ReplyRun mFns} {word : UInt32} {p : List UInt8} {addr : SockaddrIn}
    {src : SrcId} {transId : BdToken} {query : Option BdNodeId}
    (h : (r.node.recvActOn word p p.length addr).run =
      .ok (some (.msgin (.findNode src transId query)))) (hqueue : r.node.mRemoteQueries = [])
    (now : Int) (junk : Junk) : ∃ node reply,
    [(now, .recvPkt junk word p addr), (now + 1, .processRemoteQuery)].foldlM replyStep r =
      .ok ⟨node, r.requests ++ (findNodeOf now p addr).toList, r.replies ++ [reply]⟩ := by
  rcases BdNode.recvActOn_findNode h with ⟨_, n, t, _, _, hfit, _, ht, _, htid, _⟩
  have hlen : transId.len ≤ bitdhtTokenMaxLen := by
    rw [htid]
    exact len_tokenOf_le (hfit t ht).1
  have hage : now > now + 1 - BdNode.bitdhtMaxRemoteQueryAge := by
    rw [BdNode.bitdhtMaxRemoteQueryAge]
    omega
  -- the query is the only one in the queue
  have hwaiting : (r.node.msginFindNode now (src.bdId junk) transId
      (query.getD junk.targetInfoHash)).mRemoteQueries =
        [⟨src.bdId junk, query.getD junk.targetInfoHash, transId, bdQueryNeighbours, now⟩] := by
    show r.node.mRemoteQueries ++ [_] = _
    rw [hqueue, List.nil_append]
  rcases @replyStep_answer _ ⟨r.node.msginFindNode now (src.bdId junk) transId
      (query.getD junk.targetInfoHash), r.requests ++ (findNodeOf now p addr).toList, r.replies⟩
    (now + 1) _ _ hwaiting rfl hage hlen with ⟨node, reply, hturn⟩
  refine ⟨node, reply, ?_⟩
  rw [List.foldlM_cons, replyStep_findNode h, ok_bind, List.foldlM_cons, hturn, ok_bind]
  rfl

/-- Pongs of nine nodes, so that the node knows more peers than it answers with. -/
def ninePongs : List (Int × NodeCall) :=
  (List.range 9).map (fun k => (0, .recvPkt ⟨bdZeroNodeId, bdZeroNodeId, 0⟩ 0
    (bencode (Msg.pong ⟨[97]⟩ (byteId (k + 1)) ⟨[]⟩).tree) ⟨afInet, 7, 7⟩))

/-- A FIND_NODE whose target has three bytes. -/
def shortTarget : List UInt8 :=
  ascii "d1:ad2:id20:aaaaaaaaaaaaaaaaaaaa6:target3:abce1:t2:aa1:y1:q1:q9:find_nodee"

/-- It is answered, with the eight of ten peers that are nearest to what lies in the variable that the
target was not read into. -/
theorem not_repliesInOrder_short_target :
    ¬ Always replyStep RepliesInOrder
      (ReplyRun.start bdZeroNodeId [] [] (fun _ => 0) : ReplyRun bdStdDht)
      (ninePongs ++ [(1, .recvPkt ⟨bdZeroNodeId, byteId 9, 0⟩ 0 shortTarget
        ⟨afInet, 16777343, 8080⟩), (2, .processRemoteQuery)]) := by
  intro h
  -- the packet is put in the queue, and it is no request
  have hpongs : Outcome.holds
      (ninePongs.foldlM replyStep (ReplyRun.start bdZeroNodeId [] [] (fun _ => 0) : ReplyRun bdStdDht))
      (fun r => decide ((r.node.recvActOn 0 shortTarget shortTarget.length
          ⟨afInet, 16777343, 8080⟩).run = .ok (some (.msgin (.findNode
            ⟨⟨afInet, 16777343, 8080⟩, some ⟨List.replicate 20 97, rfl⟩⟩ ⟨ascii "aa"⟩ none)))) &&
        (r.node.mRemoteQueries.isEmpty && r.requests.isEmpty)) = true := by
    decide +kernel
  have hnone : findNodeOf 1 shortTarget ⟨afInet, 16777343, 8080⟩ = none := by
    decide +kernel
  rcases Outcome.holds_iff.1 hpongs with ⟨r, hr, htest⟩
  rw [Bool.and_eq_true, Bool.and_eq_true, decide_eq_true_eq, List.isEmpty_iff, List.isEmpty_iff] at htest
  rcases htest with ⟨hact, hqueue, hrequests⟩
  rcases findNode_answered hact hqueue 1 ⟨bdZeroNodeId, byteId 9, 0⟩ with ⟨node, reply, hrun⟩
  rw [hnone, hrequests] at hrun
  have hwhole : (ninePongs ++ [(1, NodeCall.recvPkt ⟨bdZeroNodeId, byteId 9, 0⟩ 0 shortTarget
      ⟨afInet, 16777343, 8080⟩), (2, .processRemoteQuery)]).foldlM replyStep
        (ReplyRun.start bdZeroNodeId [] [] (fun _ => 0)) = .ok ⟨node, [], r.replies ++ [reply]⟩ := by
    rw [List.foldlM_append, hr, ok_bind]
    exact hrun
  have hend : List.SublistForall₂ Answers (r.replies ++ [reply]) [] :=
    h _ [] _ (List.append_nil _).symm hwhole
  have hsome : r.replies ++ [reply] ≠ [] := by simp
  generalize r.replies ++ [reply] = replies at hend hsome
  cases hend
  exact hsome rfl

end BitDht
