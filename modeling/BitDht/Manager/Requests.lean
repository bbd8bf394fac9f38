import BitDht.Manager.Calls
import BitDht.Node.Sending
import Mathlib.Data.Finset.Insert
import Mathlib.Data.Finset.Erase

/-!
# Requests — what `broadcastPeers` asks for

The manager keeps the ids to be found in `mActivePeers`, the node what it broadcasts in
`mConnectRequests`.  `broadcastPeers_sent` says what a broadcast sends, and `requestsSent_iff` after
which calls of the manager that is one request for each id.
-/

namespace BitDht

open Container Outcome

variable {mFns : BdDhtFunctions}

/-! ## Messages -/

/-- The node and the peer of a broadcast_conn, if the bytes are one. -/
def broadcastIds (data : List UInt8) : Option (BdNodeId × BdNodeId) :=
  match beDecoden data data.length with
  | .ok (some n) =>
      match beMsgType n with
      | .ok .broadcastConn => do
          let nodeId ← (beMsgGetIn n "a" "nid").bind beMsgGetNodeId
          let peerId ← (beMsgGetIn n "a" "pid").bind beMsgGetNodeId
          pure (nodeId, peerId)
      | _ => none
  | _ => none

/-- Where the broadcast_conns among the messages go, and the ids in them. -/
def requests (msgs : List BdNodeNetMsg) : List (SockaddrIn × BdNodeId × BdNodeId) :=
  msgs.filterMap (fun m => (broadcastIds m.data).map (fun ids => (m.addr, ids)))

section messages

variable {tid : BdToken} (htid : tid.len ≤ bitdhtTokenMaxLen) (own nodeId peerId : BdNodeId)

include htid in
theorem broadcastIds_broadcastConn :
    broadcastIds (bencode (Msg.broadcastConn tid own nodeId peerId).tree) =
      some (nodeId, peerId) := by
  have hargs : (Msg.broadcastConn tid own nodeId peerId).ArgsOk :=
    ⟨by simp [Msg.tokens, htid], by simp [Msg.bdIds]⟩
  have hshort : (Msg.broadcastConn tid own nodeId peerId).Short := Msg.broadcastConn_short htid
  have hdec := hshort.beDecoden_tree []
  rw [List.append_nil] at hdec
  have htype : beMsgType (Msg.broadcastConn tid own nodeId peerId).tree = .ok .broadcastConn :=
    Msg.beMsgType_tree _
  rcases Msg.recoveredFrom_tree hargs with ⟨_, _, hnid, hpid⟩
  rw [IsNodeId] at hnid hpid
  simp only [broadcastIds, hdec, htype, hnid, hpid]
  rfl

include htid in
theorem broadcastIds_newconn (z : List UInt8) :
    broadcastIds (bencode (Msg.newconn tid own).tree ++ z) = none := by
  have hshort : (Msg.newconn tid own).Short := Msg.newconn_short htid
  have htype : beMsgType (Msg.newconn tid own).tree = .ok .newconn := Msg.beMsgType_tree _
  simp only [broadcastIds, hshort.beDecoden_tree z, htype]

end messages

/-! ## One broadcast -/

/-- The node sends messages, and `reqs` are the broadcast_conns among them. -/
structure Sent (s s' : BdNode mFns) (reqs : List (SockaddrIn × BdNodeId × BdNodeId)) : Prop where
  mOwnId : s'.mOwnId = s.mOwnId
  mStore : s'.mStore = s.mStore
  mConnectRequests : s'.mConnectRequests = s.mConnectRequests
  sent : ∃ msgs, s'.mOutgoingMsgs = s.mOutgoingMsgs ++ msgs ∧ requests msgs = reqs

namespace Sent

theorem refl (s : BdNode mFns) : Sent s s [] :=
  ⟨rfl, rfl, rfl, [], (List.append_nil _).symm, rfl⟩

theorem trans {s s' s'' : BdNode mFns} {reqs reqs' : List (SockaddrIn × BdNodeId × BdNodeId)}
    (h : Sent s s' reqs) (h' : Sent s' s'' reqs') : Sent s s'' (reqs ++ reqs') := by
  rcases h.sent with ⟨msgs, hout, rfl⟩
  rcases h'.sent with ⟨msgs', hout', rfl⟩
  refine ⟨h'.mOwnId.trans h.mOwnId, h'.mStore.trans h.mStore,
    h'.mConnectRequests.trans h.mConnectRequests, msgs ++ msgs', ?_, ?_⟩
  · rw [hout', hout, List.append_assoc]
  · exact List.filterMap_append

/-- A loop whose rounds send what `f` says of the node that the loop begins with. -/
theorem foldlM {α : Type} {step : BdNode mFns → α → Exec (BdNode mFns)}
    {f : α → List (SockaddrIn × BdNodeId × BdNodeId)} {s : BdNode mFns}
    (hstep : ∀ s₁ a, s₁.mOwnId = s.mOwnId → s₁.mConnectRequests = s.mConnectRequests →
      ∃ s₂, step s₁ a = .ok s₂ ∧ Sent s₁ s₂ (f a)) (l : List α) :
    ∃ s', l.foldlM step s = .ok s' ∧ Sent s s' (l.flatMap f) := by
  have hloop : ∀ (l : List α) (s₁ : BdNode mFns), s₁.mOwnId = s.mOwnId →
      s₁.mConnectRequests = s.mConnectRequests →
        ∃ s', l.foldlM step s₁ = .ok s' ∧ Sent s₁ s' (l.flatMap f) := by
    intro l
    induction l with
    | nil =>
        exact fun s₁ _ _ => ⟨s₁, rfl, refl s₁⟩
    | cons a l ih =>
        intro s₁ hid hreqs
        rcases hstep s₁ a hid hreqs with ⟨s₂, hs₂, hfirst⟩
        rcases ih s₂ (hfirst.mOwnId.trans hid) (hfirst.mConnectRequests.trans hreqs) with
          ⟨s', hs', hrest⟩
        refine ⟨s', ?_, hfirst.trans hrest⟩
        rw [List.foldlM_cons, hs₂, ok_bind, hs']
  exact hloop l s rfl rfl

end Sent

namespace BdNode

theorem msgoutBroadcastConn_sent (s : BdNode mFns) {tid : BdToken}
    (htid : tid.len ≤ bitdhtTokenMaxLen) (id : BdId) (nodeId peerId : BdNodeId) :
    ∃ s', s.msgoutBroadcastConn id tid nodeId peerId = .ok s' ∧
      Sent s s' [(id.addr, nodeId, peerId)] := by
  refine ⟨_, msgout_eq (Msg.broadcastConn_short htid) s id.addr, rfl, rfl, rfl,
    _, rfl, ?_⟩
  simp [requests, broadcastIds_broadcastConn htid]

theorem msgoutAskMyip_sent (s : BdNode mFns) {tid : BdToken} (htid : tid.len ≤ bitdhtTokenMaxLen)
    (id : BdId) : ∃ s', s.msgoutAskMyip id tid = .ok s' ∧ Sent s s' [] := by
  refine ⟨_, msgoutEcrypted_eq (Msg.newconn_short htid) s id.addr, rfl, rfl, rfl, _, rfl, ?_⟩
  simp [requests, broadcastIds_newconn htid]

theorem genNewTransId_sent (s : BdNode mFns) : Sent s s.genNewTransId.2 [] :=
  ⟨rfl, rfl, rfl, [], (List.append_nil _).symm, rfl⟩

/-- The requests for one peer. -/
theorem broadcastTo_sent (s : BdNode mFns) (it : BdPeer) :
    ∃ s', s.broadcastTo it = .ok s' ∧
      Sent s s' (s.mConnectRequests.entries.map (fun itt => (it.mPeerId.addr, itt))) := by
  rcases msgoutAskMyip_sent s.genNewTransId.2 s.len_genNewTransId_le it.mPeerId with
    ⟨s₁, hs₁, hask⟩
  have hask := s.genNewTransId_sent.trans hask
  have hround : ∀ (s₂ : BdNode mFns) (itt : BdNodeId × BdNodeId), s₂.mOwnId = s₁.mOwnId →
      s₂.mConnectRequests = s₁.mConnectRequests →
        ∃ s₃, s₂.genNewTransId.2.msgoutBroadcastConn it.mPeerId s₂.genNewTransId.1 itt.1 itt.2 =
          .ok s₃ ∧ Sent s₂ s₃ [(it.mPeerId.addr, itt)] := by
    intro s₂ itt _ _
    rcases msgoutBroadcastConn_sent s₂.genNewTransId.2 s₂.len_genNewTransId_le it.mPeerId itt.1
      itt.2 with ⟨s₃, hs₃, hsent⟩
    exact ⟨s₃, hs₃, s₂.genNewTransId_sent.trans hsent⟩
  rcases Sent.foldlM hround s₁.mConnectRequests.entries with ⟨s', hs', hrest⟩
  refine ⟨s', bind_eq_ok.2 ⟨s₁, hs₁, hs'⟩, ?_⟩
  have hsent := hask.trans hrest
  rw [hask.mConnectRequests, ← List.map_eq_flatMap] at hsent
  exact hsent

end BdNode

/-- A broadcast sends each connect request to each of the peers in the two lists. -/
theorem BdNodeIter.broadcastPeers_sent (s : BdNodeIter mFns) :
    ∃ s', s.broadcastPeers = .ok s' ∧ Sent s.toBdNode s'.toBdNode
      ((s.mWhiteNodes ++ s.mStore).flatMap (fun it =>
        s.mConnectRequests.entries.map (fun itt => (it.mPeerId.addr, itt)))) := by
  have hround : ∀ (s₁ : BdNode mFns) (it : BdPeer), s₁.mOwnId = s.mOwnId →
      s₁.mConnectRequests = s.mConnectRequests → ∃ s₂, s₁.broadcastTo it = .ok s₂ ∧
        Sent s₁ s₂ (s.mConnectRequests.entries.map (fun itt => (it.mPeerId.addr, itt))) := by
    intro s₁ it _ hreqs
    rw [← hreqs]
    exact s₁.broadcastTo_sent it
  rcases Sent.foldlM hround s.mWhiteNodes with ⟨s₁, hs₁, hwhite⟩
  have hround' : ∀ (s₂ : BdNode mFns) (it : BdPeer), s₂.mOwnId = s₁.mOwnId →
      s₂.mConnectRequests = s₁.mConnectRequests → ∃ s₃, s₂.broadcastTo it = .ok s₃ ∧
        Sent s₂ s₃ (s.mConnectRequests.entries.map (fun itt => (it.mPeerId.addr, itt))) :=
    fun s₂ it hid hreqs =>
      hround s₂ it (hid.trans hwhite.mOwnId) (hreqs.trans hwhite.mConnectRequests)
  rcases Sent.foldlM hround' s₁.mStore with ⟨s₂, hs₂, hstore⟩
  refine ⟨_, bind_eq_ok.2 ⟨s₁, hs₁, bind_eq_ok.2 ⟨s₂, hs₂, rfl⟩⟩, ?_⟩
  rw [hwhite.mStore] at hstore
  rw [List.flatMap_append]
  exact hwhite.trans hstore

/-! ## The requests of the manager -/

/-- The same pairs stand behind each of some addresses. -/
theorem flatMap_pairs_perm_iff {α β γ : Type*} {l : List α} (hl : l ≠ []) (g : α → β)
    {e e' : List γ} :
    (l.flatMap (fun a => e.map (fun x => (g a, x)))).Perm
      (l.flatMap (fun a => e'.map (fun x => (g a, x)))) ↔ e.Perm e' := by
  constructor
  · intro h
    classical
    have hsnd := h.map Prod.snd
    simp only [List.map_flatMap, List.map_map, Function.comp_def, List.map_id'] at hsnd
    rw [List.perm_iff_count] at hsnd ⊢
    intro x
    have hcount := hsnd x
    simp only [List.count_flatMap, Function.comp_def, List.map_const', List.sum_replicate_nat]
      at hcount
    exact Nat.eq_of_mul_eq_mul_left (List.length_pos_iff.2 hl) hcount
  · intro h
    exact List.Perm.flatMap_left l (fun a _ => h.map _)

namespace BdNodeManager

/-- The ids in `mActivePeers`. -/
def activeIds (c : BdNodeManager mFns) : List BdNodeId := c.mActivePeers.entries.map Prod.fst

/-- The next broadcast asks each stored peer for each active id once, and for nothing else. -/
def RequestsSent (c : BdNodeManager mFns) : Prop :=
  ∃ s', c.toBdNodeIter.broadcastPeers = .ok s' ∧
    ∃ msgs, s'.mOutgoingMsgs = c.mOutgoingMsgs ++ msgs ∧
      (requests msgs).Perm ((c.mWhiteNodes ++ c.mStore).flatMap (fun it =>
        c.activeIds.map (fun x => (it.mPeerId.addr, c.mOwnId, x))))

/-- The connect requests are those for the active ids, if there is a peer to send them to. -/
theorem requestsSent_iff_perm (c : BdNodeManager mFns) :
    RequestsSent c ↔ c.mWhiteNodes ++ c.mStore = [] ∨
      c.mConnectRequests.entries.Perm (c.activeIds.map (fun x => (c.mOwnId, x))) := by
  rcases c.toBdNodeIter.broadcastPeers_sent with ⟨s', hrun, hsent⟩
  rcases hsent.sent with ⟨msgs, hout, hreqs⟩
  have hpairs : ∀ it : BdPeer, c.activeIds.map (fun x => (it.mPeerId.addr, c.mOwnId, x)) =
      (c.activeIds.map (fun x => (c.mOwnId, x))).map (fun itt => (it.mPeerId.addr, itt)) := by
    intro it
    rw [List.map_map]
    rfl
  have hsplit : RequestsSent c ↔ (requests msgs).Perm ((c.mWhiteNodes ++ c.mStore).flatMap
      (fun it => c.activeIds.map (fun x => (it.mPeerId.addr, c.mOwnId, x)))) := by
    constructor
    · rintro ⟨s'', hrun', msgs', hout', hperm⟩
      rw [hrun, Except.ok.injEq] at hrun'
      subst hrun'
      rw [hout] at hout'
      rwa [List.append_cancel_left hout']
    · exact fun hperm => ⟨s', hrun, msgs, hout, hperm⟩
  rw [hsplit, hreqs]
  simp only [hpairs]
  by_cases hstored : c.mWhiteNodes ++ c.mStore = []
  · rw [hstored]
    exact iff_of_true (List.Perm.refl _) (.inl rfl)
  · rw [flatMap_pairs_perm_iff hstored (fun it : BdPeer => it.mPeerId.addr)]
    exact ⟨.inr, fun h => h.resolve_left hstored⟩

end BdNodeManager

/-! ## Additions and removals -/

/-- The calls about the ids to be found. -/
inductive FindNodeOp
  | addFindNode (id : BdNodeId) (qflags : UInt32) (sinFamily : Nat)
  | removeFindNode (id : BdNodeId)
  | removeAllFindNode

def findNodeStep (c : BdNodeManager mFns) : FindNodeOp → BdNodeManager mFns
  | .addFindNode id qflags sinFamily => c.addFindNode id qflags sinFamily
  | .removeFindNode id => c.removeFindNode id
  | .removeAllFindNode => c.removeAllFindNode

/-- The ids to be found, and the one that was added last. -/
structure FindNodes where
  ids : Finset BdNodeId
  added : Option BdNodeId

/-- What the calls mean: an id that is to be found already is not added again. -/
def FindNodes.step (fn : FindNodes) : FindNodeOp → FindNodes
  | .addFindNode id _ _ => if id ∈ fn.ids then fn else ⟨insert id fn.ids, some id⟩
  | .removeFindNode id => { fn with ids := fn.ids.erase id }
  | .removeAllFindNode => { fn with ids := ∅ }

/-- The ids to be found after the calls. -/
def FindNodes.after (ops : List FindNodeOp) : FindNodes := ops.foldl FindNodes.step ⟨∅, none⟩

/-- The manager has the active ids and the request for the one that was added last, and `stored` are
the peers that it broadcasts to. -/
structure Implements (stored : List BdPeer) (c : BdNodeManager mFns) (fn : FindNodes) : Prop where
  ids : ∀ id, id ∈ fn.ids ↔ id ∈ c.activeIds
  request : c.mConnectRequests.entries = (fn.added.map (fun id => (c.mOwnId, id))).toList
  added : fn.added = none → fn.ids = ∅
  stored : c.mWhiteNodes ++ c.mStore = stored

namespace BdNodeManager

theorem mem_activeIds_iff {c : BdNodeManager mFns} {id : BdNodeId} :
    id ∈ c.activeIds ↔ ∃ peer, c.mActivePeers.find id = some peer := by
  rw [activeIds, List.mem_map]
  constructor
  · rintro ⟨⟨_, peer⟩, hit, rfl⟩
    exact ⟨peer, OrdMap.mem_entries_iff.1 hit⟩
  · rintro ⟨peer, hfind⟩
    exact ⟨(id, peer), OrdMap.mem_entries_iff.2 hfind, rfl⟩

/-- A request replaces the one before it: both stand under the node's own id. -/
theorem entries_assign_request {m : OrdMap BdNodeId BdNodeId} {own : BdNodeId}
    {added : Option BdNodeId} (h : m.entries = (added.map (fun id => (own, id))).toList)
    (id : BdNodeId) : (m.assign own id).entries = [(own, id)] := by
  have hentries : (m.assign own id).entries = OrdMap.assignEntry own id m.entries := rfl
  rw [hentries, h]
  cases added with
  | none =>
      rfl
  | some id' =>
      simp [OrdMap.assignEntry]

/-- Each call does what it means, but for the requests of the ids that were added before the last. -/
theorem findNodeStep_implements {stored : List BdPeer} {c : BdNodeManager mFns} {fn : FindNodes}
    (h : Implements stored c fn) (op : FindNodeOp) :
    Implements stored (findNodeStep c op) (fn.step op) := by
  cases op with
  | addFindNode id qflags sinFamily =>
      rw [findNodeStep, addFindNode, FindNodes.step]
      split
      · rename_i peer hfind
        rw [if_pos ((h.ids id).2 (mem_activeIds_iff.2 ⟨peer, hfind⟩))]
        exact h
      · rename_i hfind
        have hnew : id ∉ fn.ids := by
          intro hid
          rcases mem_activeIds_iff.1 ((h.ids id).1 hid) with ⟨peer, hpeer⟩
          rw [hfind] at hpeer
          cases hpeer
        rw [if_neg hnew]
        refine ⟨?_, ?_, ?_, h.stored⟩
        · intro id'
          rw [Finset.mem_insert, h.ids, mem_activeIds_iff, mem_activeIds_iff]
          by_cases hid : id' = id
          · rw [hid]
            exact iff_of_true (.inl rfl) ⟨_, OrdMap.find_assign_self ..⟩
          · rw [← OrdMap.find_assign_ne c.mActivePeers hid]
            exact ⟨fun hor => hor.resolve_left hid, .inr⟩
        · exact entries_assign_request h.request id
        · intro hnone
          cases hnone
  | removeFindNode id =>
      rw [findNodeStep, removeFindNode, FindNodes.step]
      split
      · rename_i hfind
        have hnone : id ∉ fn.ids := by
          intro hid
          rcases mem_activeIds_iff.1 ((h.ids id).1 hid) with ⟨peer, hpeer⟩
          rw [hfind] at hpeer
          cases hpeer
        rw [Finset.erase_eq_of_notMem hnone]
        exact h
      · refine ⟨?_, h.request, ?_, h.stored⟩
        · intro id'
          rw [Finset.mem_erase, h.ids, mem_activeIds_iff, mem_activeIds_iff]
          by_cases hid : id' = id
          · refine iff_of_false (fun hmem => hmem.1 hid) ?_
            rintro ⟨peer, hpeer⟩
            rw [hid] at hpeer
            cases (OrdMap.find_erase_self ..).symm.trans hpeer
          · rw [← OrdMap.find_erase_ne c.mActivePeers hid]
            exact ⟨fun hmem => hmem.2, fun hmem => ⟨hid, hmem⟩⟩
        · intro hadded
          rw [h.added hadded, Finset.erase_empty]
  | removeAllFindNode =>
      rw [findNodeStep, removeAllFindNode_eq, FindNodes.step]
      refine ⟨?_, h.request, fun _ => rfl, h.stored⟩
      intro id
      exact iff_of_false (Finset.notMem_empty id) List.not_mem_nil

theorem run_implements {stored : List BdPeer} {c : BdNodeManager mFns} {fn : FindNodes}
    (h : Implements stored c fn) (ops : List FindNodeOp) :
    Implements stored (ops.foldl findNodeStep c) (ops.foldl FindNodes.step fn) := by
  induction ops generalizing c fn with
  | nil =>
      exact h
  | cons op ops ih =>
      exact ih (findNodeStep_implements h op)

/-- The one request is right if it is for the only active id. -/
theorem request_perm_iff {stored : List BdPeer} {c : BdNodeManager mFns} {fn : FindNodes}
    (h : Implements stored c fn) :
    c.mConnectRequests.entries.Perm (c.activeIds.map (fun x => (c.mOwnId, x))) ↔
      ∀ id, fn.added = some id → fn.ids = {id} := by
  have hnodup : c.activeIds.Nodup := c.mActivePeers.nodup_keys
  rw [h.request]
  cases hadded : fn.added with
  | none =>
      have hnil : c.activeIds = [] := by
        apply List.eq_nil_iff_forall_not_mem.2
        intro id hid
        rw [← h.ids, h.added hadded] at hid
        exact Finset.notMem_empty id hid
      rw [hnil]
      exact iff_of_true (List.Perm.refl _) (fun id hid => by cases hid)
  | some id =>
      constructor
      · intro hperm id' hid
        rw [Option.some.injEq] at hid
        subst hid
        rcases List.map_eq_singleton_iff.1 (List.perm_singleton.1 hperm.symm) with ⟨x, hx, hpair⟩
        have hxid : x = id := (Prod.mk.inj hpair).2
        ext id'
        rw [h.ids, hx, hxid, List.mem_singleton, Finset.mem_singleton]
      · intro hids
        have hone : [id].Perm c.activeIds := by
          refine (List.perm_ext_iff_of_nodup (List.nodup_singleton id) hnodup).2 ?_
          intro id'
          rw [← h.ids, hids id rfl, List.mem_singleton, Finset.mem_singleton]
        exact hone.map (fun x => (c.mOwnId, x))

/-- After any additions and removals the next broadcast asks for the active ids exactly when there is
nobody to ask, no id was ever added, or the id that was added last is the only active one. -/
theorem requestsSent_iff (id : BdNodeId) (dhtVersion : List UInt8) (store whiteNodes : List BdPeer)
    (rand : Nat → UInt32) (ops : List FindNodeOp) :
    let c₀ : BdNodeManager mFns := BdNodeManager.new id dhtVersion store whiteNodes rand
    RequestsSent (ops.foldl findNodeStep c₀) ↔ whiteNodes ++ store = [] ∨
      ∀ x, (FindNodes.after ops).added = some x → (FindNodes.after ops).ids = {x} := by
  intro c₀
  have hstart : Implements (whiteNodes ++ store) c₀ ⟨∅, none⟩ := by
    refine ⟨?_, rfl, fun _ => rfl, rfl⟩
    intro id'
    exact iff_of_false (Finset.notMem_empty id') List.not_mem_nil
  have hrun := run_implements hstart ops
  rw [requestsSent_iff_perm, hrun.stored, request_perm_iff hrun]
  rfl

/-- Of two ids that are to be found the first is not asked for. -/
theorem not_requestsSent_two :
    let peer : BdPeer := ⟨⟨⟨afInet, 9, 9⟩, ⟨List.replicate 20 9, rfl⟩⟩, 0, 0, 0, 0⟩
    ¬ RequestsSent ([FindNodeOp.addFindNode ⟨List.replicate 20 1, rfl⟩ 0 afInet,
        .addFindNode ⟨List.replicate 20 2, rfl⟩ 0 afInet].foldl findNodeStep
      (BdNodeManager.new bdZeroNodeId [] [peer] [] (fun _ => 5) : BdNodeManager bdStdDht)) := by
  intro peer h
  rcases (requestsSent_iff_perm _).1 h with hnone | hperm
  · cases hnone
  · exact absurd hperm.length_eq (by decide)

end BdNodeManager

end BitDht
