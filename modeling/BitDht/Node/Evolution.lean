import BitDht.Node.Calls
import BitDht.Peer.QueryMaps

/-!
# Evolution — what a node does to its queries

No packet and no iteration adds a query or takes one away.  Whatever a node does between two calls of
`addQuery` and `clearQuery`, each of its queries goes through some calls of its own (`Evolved`).
-/

namespace BitDht

open Container Outcome

variable {mFns : BdDhtFunctions}

/-! ## Lists of queries -/

/-- The queries of `l'` are those of `l` in some order, each after some calls. -/
structure Evolved (mFns : BdDhtFunctions) (l l' : List BdQuery) : Prop where
  ids : (l'.map BdQuery.mId).Perm (l.map BdQuery.mId)
  reached : ∀ q' ∈ l', ∃ q ∈ l, ∃ ops : List (Int × QueryOp), ops.foldl (queryStep mFns) q = q'

namespace Evolved

variable {l l' l'' : List BdQuery}

theorem refl (l : List BdQuery) : Evolved mFns l l :=
  ⟨List.Perm.refl _, fun q hq => ⟨q, hq, [], rfl⟩⟩

theorem trans (h : Evolved mFns l l') (h' : Evolved mFns l' l'') : Evolved mFns l l'' := by
  refine ⟨h'.ids.trans h.ids, ?_⟩
  intro q'' hq''
  rcases h'.reached q'' hq'' with ⟨q', hq', ops', rfl⟩
  rcases h.reached q' hq' with ⟨q, hq, ops, rfl⟩
  exact ⟨q, hq, ops ++ ops', List.foldl_append⟩

/-- One call on every query. -/
theorem map (l : List BdQuery) (op : Int × QueryOp) :
    Evolved mFns l (l.map (fun q => queryStep mFns q op)) := by
  constructor
  · rw [List.map_map]
    have hid : BdQuery.mId ∘ (fun q => queryStep mFns q op) = BdQuery.mId :=
      funext (fun q => (queryStep_sameSearch q op).mId)
    rw [hid]
  · intro q' hq'
    rcases List.mem_map.1 hq' with ⟨q, hq, rfl⟩
    exact ⟨q, hq, [op], rfl⟩

/-- One call on the first query, which is put behind the others. -/
theorem rotate (q : BdQuery) (l : List BdQuery) (op : Int × QueryOp) :
    Evolved mFns (q :: l) (l ++ [queryStep mFns q op]) := by
  constructor
  · rw [List.map_append, List.map_singleton, List.map_cons, (queryStep_sameSearch q op).mId]
    exact List.perm_append_singleton _ _
  · intro q' hq'
    rcases List.mem_append.1 hq' with hq' | hq'
    · exact ⟨q', List.mem_cons_of_mem q hq', [], rfl⟩
    · rw [List.mem_singleton] at hq'
      exact ⟨q, List.mem_cons_self .., [op], hq'.symm⟩

/-- What every call preserves and all queries have, they keep. -/
theorem forall_mem {P : BdQuery → Prop} (hP : ∀ q op, P q → P (queryStep mFns q op))
    (h : Evolved mFns l l') (hl : ∀ q ∈ l, P q) : ∀ q ∈ l', P q := by
  intro q' hq'
  rcases h.reached q' hq' with ⟨q, hq, ops, rfl⟩
  have hrun : ∀ (ops : List (Int × QueryOp)) (q : BdQuery), P q →
      P (ops.foldl (queryStep mFns) q) := by
    intro ops
    induction ops with
    | nil =>
        exact fun q hq => hq
    | cons op ops ih =>
        exact fun q hq => ih _ (hP q op hq)
  exact hrun ops q (hl q hq)

end Evolved

/-! ## Nodes -/

/-- A relation between an earlier list of queries and a later one that holds over one call on every
query. -/
structure QueryRel (mFns : BdDhtFunctions) (R : List BdQuery → List BdQuery → Prop) : Prop where
  refl : ∀ l, R l l
  trans : ∀ {l l' l''}, R l l' → R l' l'' → R l l''
  map : ∀ l op, R l (l.map (fun q => queryStep mFns q op))

theorem evolved_queryRel : QueryRel mFns (Evolved mFns) where
  refl := .refl
  trans := .trans
  map := .map

/-- The node keeps its id, and its queries are related. -/
structure NodeKeeps (R : List BdQuery → List BdQuery → Prop) (s s' : BdNode mFns) : Prop where
  mOwnId : s'.mOwnId = s.mOwnId
  queries : R s.mLocalQueries s'.mLocalQueries

/-- The node keeps its id and its queries. -/
structure NodeEvolved (s s' : BdNode mFns) : Prop where
  mOwnId : s'.mOwnId = s.mOwnId
  queries : Evolved mFns s.mLocalQueries s'.mLocalQueries

theorem NodeEvolved.refl (s : BdNode mFns) : NodeEvolved s s :=
  ⟨rfl, .refl _⟩

namespace NodeKeeps

variable {R : List BdQuery → List BdQuery → Prop} {s s' s'' : BdNode mFns}

theorem of_eq (hR : QueryRel mFns R) (hid : s'.mOwnId = s.mOwnId)
    (hqueries : s'.mLocalQueries = s.mLocalQueries) : NodeKeeps R s s' := by
  refine ⟨hid, ?_⟩
  rw [hqueries]
  exact hR.refl _

theorem refl (hR : QueryRel mFns R) (s : BdNode mFns) : NodeKeeps R s s :=
  of_eq hR rfl rfl

theorem trans (hR : QueryRel mFns R) (h : NodeKeeps R s s') (h' : NodeKeeps R s' s'') :
    NodeKeeps R s s'' :=
  ⟨h'.mOwnId.trans h.mOwnId, hR.trans h.queries h'.queries⟩

/-- A loop whose rounds keep the queries. -/
theorem foldlM (hR : QueryRel mFns R) {α : Type} {f : BdNode mFns → α → Exec (BdNode mFns)}
    (hf : ∀ {s₁ a s₂}, f s₁ a = .ok s₂ → NodeKeeps R s₁ s₂) {l : List α} {s s' : BdNode mFns}
    (h : l.foldlM f s = .ok s') : NodeKeeps R s s' :=
  foldlM_rel (refl hR) (trans hR) hf h

end NodeKeeps

namespace BdNode

section keeps

variable {R : List BdQuery → List BdQuery → Prop} (hR : QueryRel mFns R) {s s' : BdNode mFns}

include hR

/-! ## Sending -/

theorem sendPkt_keeps {msg : List UInt8} {len : Nat} {addr : SockaddrIn}
    (h : s.sendPkt msg len addr = .ok s') : NodeKeeps R s s' := by
  rcases bind_eq_ok.1 h with ⟨data, _, hrest⟩
  cases hrest
  exact .of_eq hR rfl rfl

theorem msgout_keeps {build : List UInt8 → Int → Exec (List UInt8 × Nat)} {addr : SockaddrIn}
    (h : s.msgout build addr = .ok s') : NodeKeeps R s s' := by
  rcases bind_eq_ok.1 h with ⟨r, _, hrest⟩
  exact sendPkt_keeps hR hrest

theorem msgoutEcrypted_keeps {build : List UInt8 → Int → Exec (List UInt8 × Nat)}
    {addr : SockaddrIn} (h : s.msgoutEcrypted build addr = .ok s') : NodeKeeps R s s' := by
  rcases bind_eq_ok.1 h with ⟨r, _, hrest⟩
  rcases bind_eq_ok.1 hrest with ⟨r', _, hsend⟩
  have htoken : NodeKeeps R s s.getRandomToken.2 := .of_eq hR rfl rfl
  exact htoken.trans hR (sendPkt_keeps hR hsend)

theorem genNewTransId_keeps (s : BdNode mFns) : NodeKeeps R s s.genNewTransId.2 :=
  .of_eq hR rfl rfl

theorem ping_keeps {id : BdId} (h : s.ping id = .ok s') : NodeKeeps R s s' :=
  (genNewTransId_keeps hR s).trans hR (msgout_keeps hR h)

/-! ## Packets -/

theorem addPeer_keeps (s : BdNode mFns) (now : Int) (id : BdId) (peerflags : UInt32) :
    NodeKeeps R s (s.addPeer now id peerflags) :=
  ⟨rfl, hR.map s.mLocalQueries (now, .addPeer id peerflags)⟩

theorem checkPotentialPeer_keeps (s : BdNode mFns) (now : Int) (id : BdId) :
    NodeKeeps R s (s.checkPotentialPeer now id) := by
  refine ⟨rfl, ?_⟩
  have hmap : R s.mLocalQueries _ := hR.map s.mLocalQueries (now, .addPotentialPeer id 0)
  rw [checkPotentialPeer]
  simp only [List.map_map]
  exact hmap

theorem checkPotentialPeers_keeps (s : BdNode mFns) (now : Int) (nodes : List BdId) :
    NodeKeeps R s (nodes.foldl (fun s it => s.checkPotentialPeer now it) s) := by
  induction nodes generalizing s with
  | nil =>
      exact .refl hR s
  | cons it nodes ih =>
      exact (checkPotentialPeer_keeps hR s now it).trans hR (ih _)

theorem matchConn_keeps {id : BdId} {self other nid₁ nid₂ : BdNodeId}
    (h : s.matchConn id self other nid₁ nid₂ = .ok s') : NodeKeeps R s s' :=
  matchConn_rel (.trans hR) (fun _ _ _ => .of_eq hR rfl rfl)
    (fun {s _ _ _ _} h => (genNewTransId_keeps hR s).trans hR (msgout_keeps hR h)) h

theorem msginBroadcastConn_keeps {id : BdId} {tid : BdToken} {nodeId peerId : BdNodeId}
    (h : s.msginBroadcastConn id tid nodeId peerId = .ok s') : NodeKeeps R s s' := by
  rw [msginBroadcastConn] at h
  split_ifs at h
  · exact matchConn_keeps hR h
  · exact matchConn_keeps hR h
  · cases h
    exact .refl hR s

/-- A handler keeps the queries. -/
theorem msgin_keeps {now : Int} {junk : Junk} {m : MsgIn} (h : s.msgin now junk m = .ok s') :
    NodeKeeps R s s' := by
  cases m with
  | ping id transId =>
      rcases bind_eq_ok.1 h with ⟨s₁, hs₁, hrest⟩
      cases hrest
      have hpong := (addPeer_keeps hR s now (id.bdId junk) 0).trans hR (msgout_keeps hR hs₁)
      exact hpong.trans hR (.of_eq hR rfl rfl)
  | pong id transId versionId =>
      cases h
      exact (addPeer_keeps hR s now (id.bdId junk) _).trans hR (.of_eq hR rfl rfl)
  | findNode id transId query =>
      cases h
      have hqueue : NodeKeeps R s (s.queueQuery now (id.bdId junk)
        (query.getD junk.targetInfoHash) transId bdQueryNeighbours) := .of_eq hR rfl rfl
      exact (hqueue.trans hR (addPeer_keeps hR _ now (id.bdId junk) 0)).trans hR
        (.of_eq hR rfl rfl)
  | replyFindNode id transId nodes =>
      cases h
      have hnodes := checkPotentialPeers_keeps hR s now nodes
      exact (hnodes.trans hR (addPeer_keeps hR _ now (id.bdId junk) _)).trans hR
        (.of_eq hR rfl rfl)
  | getHash id transId infoHash =>
      cases h
      exact .of_eq hR rfl rfl
  | replyHash id transId token values =>
      cases h
      exact .refl hR s
  | replyNearest id transId token nodes =>
      cases h
      exact .refl hR s
  | postHash id transId infoHash port token =>
      cases h
      exact .refl hR s
  | replyPost id transId =>
      cases h
      exact .refl hR s
  | askMyip tunnelId transId =>
      rcases bind_eq_ok.1 h with ⟨s₁, hs₁, hrest⟩
      cases hrest
      exact (msgoutEcrypted_keeps hR hs₁).trans hR (.of_eq hR rfl rfl)
  | replyAskMyip tunnelId transId =>
      cases h
      simp only [msginReplyAskMyip]
      split_ifs
      · exact .of_eq hR rfl rfl
      · exact .of_eq hR rfl rfl
      · exact .of_eq hR rfl rfl
  | broadcastConn id tid nodeId peerId =>
      exact @msginBroadcastConn_keeps _ _ hR _ _ _ tid _ _ h
  | askConn id tid nodeId peerId =>
      cases h
      simp only [msginAskConn]
      split_ifs
      · exact .refl hR s
      · exact .of_eq hR rfl rfl
      · exact .refl hR s

/-- What is done with a packet keeps the queries. -/
theorem perform_keeps {now : Int} {junk : Junk} {act : Option RecvAct}
    (h : s.perform now junk act = .ok s') : NodeKeeps R s s' := by
  rcases act with _ | m | a
  · cases h
    exact .refl hR s
  · exact msgin_keeps hR h
  · cases h
    simp only [addBlackList]
    split_ifs
    · exact .refl hR s
    · exact .of_eq hR rfl rfl

theorem recvPkt_keeps {now : Int} {junk : Junk} {msg : List UInt8} {len : Nat}
    {addr : SockaddrIn} (h : s.recvPkt now junk msg len addr = .ok s') : NodeKeeps R s s' := by
  rcases bind_eq_ok.1 h with ⟨act, _, hrest⟩
  exact perform_keeps hR hrest

theorem recvPktOn_keeps {word : UInt32} {now : Int} {junk : Junk} {msg : List UInt8} {len : Nat}
    {addr : SockaddrIn} (h : s.recvPktOn word now junk msg len addr = .ok s') : NodeKeeps R s s' := by
  rcases bind_eq_ok.1 h with ⟨act, _, hrest⟩
  exact perform_keeps hR hrest

/-! ## Iterations -/

theorem pingPotential_keeps {n left : Nat} (h : pingPotential n s = .ok (left, s')) :
    NodeKeeps R s s' :=
  pingPotential_rel (.refl hR) (.trans hR) (fun _ _ => .of_eq hR rfl rfl) (ping_keeps hR) h

theorem processQueue_keeps {now : Int} {queue : List BdRemoteQuery}
    (h : s.processQueue now queue = .ok s') : NodeKeeps R s s' := by
  refine processQueue_rel (fun _ => .of_eq hR rfl rfl) ?_ h
  intro id transId peers queue s₁ hs₁
  exact (msgout_keeps hR hs₁).trans hR (.of_eq hR rfl rfl)

theorem pingOutOfDate_keeps {now : Int} {fuel : Nat} (h : pingOutOfDate now fuel s = .ok s') :
    NodeKeeps R s s' :=
  pingOutOfDate_rel (.refl hR) (.trans hR) (fun _ _ => .of_eq hR rfl rfl) (ping_keeps hR) h

theorem broadcastTo_keeps {it : BdPeer} (h : s.broadcastTo it = .ok s') : NodeKeeps R s s' :=
  broadcastTo_rel (.refl hR) (.trans hR)
    (fun {s _ _} h => (genNewTransId_keeps hR s).trans hR (msgoutEcrypted_keeps hR h))
    (fun {s _ _ _ _} h => (genNewTransId_keeps hR s).trans hR (msgout_keeps hR h)) h

theorem punch_keeps {times : Nat} {it : BdId} (h : punch times s it = .ok s') :
    NodeKeeps R s s' :=
  (genNewTransId_keeps hR s).trans hR (NodeKeeps.foldlM hR (fun hs => msgout_keeps hR hs) h)

end keeps

variable {s s' : BdNode mFns}

/-- Each round calls `nextQuery` on the first query and puts it behind the others. -/
theorem askQueries_evolved {now : Int} {env : IterEnv} {n i sentMsgs : Nat}
    (h : askQueries now env n i sentMsgs s = .ok s') : NodeKeeps (Evolved mFns) s s' := by
  refine askQueries_rel (.refl evolved_queryRel) (.trans evolved_queryRel) ?_ ?_ h
  · intro s query queries bdRandomMidId endId hqueries
    refine ⟨rfl, ?_⟩
    rw [hqueries]
    exact .rotate query queries (now, .nextQuery bdRandomMidId endId)
  · intro s s₁ id target hs₁
    exact (genNewTransId_keeps evolved_queryRel s).trans evolved_queryRel
      (msgout_keeps evolved_queryRel hs₁)

theorem ping_mNodeSpace {id : BdId} (h : s.ping id = .ok s') : s'.mNodeSpace = s.mNodeSpace := by
  rcases bind_eq_ok.1 h with ⟨r, _, hrest⟩
  rcases bind_eq_ok.1 hrest with ⟨data, _, hrest⟩
  cases hrest
  rfl

/-- The loop comes to its end: no peer is out of date when it is left. -/
theorem pingOutOfDate_done {now : Int} {fuel : Nat} (hfuel : s.mNodeSpace.calcSpaceSize ≤ fuel)
    (h : pingOutOfDate now fuel s = .ok s') : (s'.mNodeSpace.outOfDatePeer now).2 = none := by
  have hloop : ∀ (fuel : Nat) (s : BdNode mFns), s.mNodeSpace.outOfDateCount now ≤ fuel →
      pingOutOfDate now fuel s = .ok s' → (s'.mNodeSpace.outOfDatePeer now).2 = none := by
    intro fuel
    induction fuel with
    | zero =>
        intro s hcount h
        cases h
        rcases hpeer : s'.mNodeSpace.outOfDatePeer now with ⟨space, _ | id⟩
        · rfl
        · have hless := outOfDateCount_outOfDatePeer hpeer
          omega
    | succ fuel ih =>
        intro s hcount h
        rw [pingOutOfDate] at h
        split at h
        · rename_i space hpeer
          cases h
          rw [hpeer]
        · rename_i space id hpeer
          have hless := outOfDateCount_outOfDatePeer hpeer
          rcases bind_eq_ok.1 h with ⟨s₁, hs₁, hrest⟩
          refine ih s₁ ?_ hrest
          rw [ping_mNodeSpace hs₁]
          dsimp only
          omega
  exact hloop fuel s ((outOfDateCount_le _ _).trans hfuel) h

end BdNode

/-- An iteration of the whole node keeps the queries. -/
theorem BdNodeIter.iteration_evolved {s s' : BdNodeIter mFns} {now : Int} {env : IterEnv}
    (h : s.iteration now env = .ok s') : NodeEvolved s.toBdNode s'.toBdNode := by
  have hevolved : IterationRel now (@NodeKeeps mFns (Evolved mFns)) :=
    { refl := .refl evolved_queryRel
      trans := .trans evolved_queryRel
      recvPkt := BdNode.recvPkt_keeps evolved_queryRel
      pingPotential := BdNode.pingPotential_keeps evolved_queryRel
      askQueries := BdNode.askQueries_evolved
      processRemoteQuery := BdNode.processQueue_keeps evolved_queryRel
      pingOutOfDate := BdNode.pingOutOfDate_keeps evolved_queryRel
      broadcastTo := BdNode.broadcastTo_keeps evolved_queryRel
      punch := BdNode.punch_keeps evolved_queryRel }
  exact ⟨(hevolved.iteration h).mOwnId, (hevolved.iteration h).queries⟩

theorem BdNodeIter.recvPktsOn_keeps {R : List BdQuery → List BdQuery → Prop} (hR : QueryRel mFns R)
    {word : Nat → UInt32} {now : Int} {env : IterEnv} {i : Nat} {msgs : List BdNodeNetMsg}
    {s s' : BdNode mFns} (h : recvPktsOn word now env i msgs s = .ok s') : NodeKeeps R s s' := by
  induction msgs generalizing i s with
  | nil =>
      cases h
      exact .refl hR _
  | cons msg msgs ih =>
      rcases bind_eq_ok.1 h with ⟨s₁, hs₁, hrest⟩
      exact (BdNode.recvPktOn_keeps hR hs₁).trans hR (ih hrest)

/-- So does one that goes past a trailer. -/
theorem BdNodeIter.iterationOn_evolved {s s' : BdNodeIter mFns} {word : Nat → UInt32} {now : Int}
    {env : IterEnv} (h : s.iterationOn word now env = .ok s') :
    NodeEvolved s.toBdNode s'.toBdNode := by
  rcases bind_eq_ok.1 h with ⟨s₁, hs₁, hrest⟩
  have hpackets := recvPktsOn_keeps evolved_queryRel hs₁
  have hothers := iteration_evolved hrest
  exact ⟨hothers.mOwnId.trans hpackets.mOwnId, hpackets.queries.trans hothers.queries⟩

end BitDht
