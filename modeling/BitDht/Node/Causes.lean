import BitDht.Node.Fairness
import BitDht.Node.OutOfDate
import BitDht.Node.Rendezvous
import BitDht.Node.Traffic
import BitDht.Peer.Closest
import BitDht.Peer.Nearest

/-!
# Causes — every call as a run of small changes

A call on a node is a run of changes to one or two of its members (`NodeEffect`), and each change has a cause
in the call and in the node before it (`MsgIn.Causes`, `NodeCall.Causes`).  With transaction ids that fit no
call fails.  What holds over every change with a cause then holds over every call, with no function to be
unfolded again.
-/

namespace BitDht

open Container Outcome

variable {mFns : BdDhtFunctions}

/-! ## What a `msgout_` function leaves -/

namespace MsgoutCall

/-- The node after the call. -/
def queued (s : BdNode mFns) (c : MsgoutCall) : BdNode mFns :=
  (if c.ecrypted then s.getRandomToken.2 else s).queueMsg (c.packet s).data (c.packet s).addr

theorem run_queued {c : MsgoutCall} (h : c.ArgsFit) (s : BdNode mFns) :
    c.run s = .ok (c.queued s) := by
  have hshort := msg_short h s
  cases c with
  | ping id transId => exact BdNode.msgout_eq hshort s id.addr
  | pong id transId => exact BdNode.msgout_eq hshort s id.addr
  | findNode id transId query => exact BdNode.msgout_eq hshort s id.addr
  | replyFindNode id transId peers => exact BdNode.msgout_eq hshort s id.addr
  | askMyip dhtId transId => exact BdNode.msgoutEcrypted_eq hshort s dhtId.addr
  | replyAskMyip tunnelId transId => exact BdNode.msgoutEcrypted_eq hshort s tunnelId.addr
  | broadcastConn id tid nodeId peerId => exact BdNode.msgout_eq hshort s id.addr
  | askConn id tid nodeId peerId => exact BdNode.msgout_eq hshort s id.addr

end MsgoutCall

/-! ## The changes -/

/-- A change to a node. -/
inductive NodeEffect
  | send (c : MsgoutCall)
  | newTransId
  | mPotentialPeers (peers : List BdId)
  | addPeer (now : Int) (id : BdId) (peerflags : UInt32)
  | checkPotentialPeer (now : Int) (id : BdId)
  | onRecvCallback (id : BdId) (type : MsgType)
  | queueQuery (now : Int) (id : BdId) (query : BdNodeId) (transId : BdToken) (queryType : UInt32)
  | mRemoteQueries (queue : List BdRemoteQuery)
  | nextQuery (bdRandomMidId : BdNodeId → BdNodeId → BdNodeId) (now : Int) (endId : BdNodeId)
  | outOfDatePeer (now : Int)
  | connect (id : BdId) (other : BdNodeId)
  | addMyIp (addr : SockaddrIn)
  | addPunching (peerId : BdId)

/-- The first query takes its turn and is put behind the others. -/
def BdNode.turn (s : BdNode mFns) (bdRandomMidId : BdNodeId → BdNodeId → BdNodeId) (now : Int)
    (endId : BdNodeId) : BdNode mFns :=
  match s.mLocalQueries with
  | [] => s
  | query :: queries =>
      { s with mLocalQueries := queries ++ [(query.nextQuery mFns bdRandomMidId now endId).1] }

def NodeEffect.apply (s : BdNode mFns) : NodeEffect → BdNode mFns
  | .send c => c.queued s
  | .newTransId => s.genNewTransId.2
  | .mPotentialPeers peers => { s with mPotentialPeers := peers }
  | .addPeer now id peerflags => s.addPeer now id peerflags
  | .checkPotentialPeer now id => s.checkPotentialPeer now id
  | .onRecvCallback id type => s.onRecvCallback id type
  | .queueQuery now id query transId queryType => s.queueQuery now id query transId queryType
  | .mRemoteQueries queue => { s with mRemoteQueries := queue }
  | .nextQuery bdRandomMidId now endId => s.turn bdRandomMidId now endId
  | .outOfDatePeer now => { s with mNodeSpace := (s.mNodeSpace.outOfDatePeer now).1 }
  | .connect id other =>
      { s with mConnectRequests := s.mConnectRequests.assign id.id other,
               mPeerAddrs := s.mPeerAddrs.assign id.id id.addr }
  | .addMyIp addr => { s with mMyIPs := s.mMyIPs ++ [addr] }
  | .addPunching peerId => { s with mPunching := s.mPunching ++ [peerId] }

/-- A run of changes that all have a cause leads from one node to the other. -/
def Effects (Cause : NodeEffect → Prop) (s s' : BdNode mFns) : Prop :=
  ∃ effects : List NodeEffect, effects.foldl NodeEffect.apply s = s' ∧ ∀ e ∈ effects, Cause e

namespace Effects

variable {Cause : NodeEffect → Prop} {s s' s'' : BdNode mFns}

theorem refl (s : BdNode mFns) : Effects Cause s s :=
  ⟨[], rfl, fun _ he => absurd he List.not_mem_nil⟩

theorem single {e : NodeEffect} (he : Cause e) (h : e.apply s = s') : Effects Cause s s' := by
  refine ⟨[e], h, ?_⟩
  intro x hx
  rwa [List.mem_singleton.1 hx]

theorem trans (h : Effects Cause s s') (h' : Effects Cause s' s'') : Effects Cause s s'' := by
  rcases h with ⟨effects, rfl, hcause⟩
  rcases h' with ⟨effects', rfl, hcause'⟩
  refine ⟨effects ++ effects', List.foldl_append, ?_⟩
  intro e he
  rcases List.mem_append.1 he with he | he
  · exact hcause e he
  · exact hcause' e he

/-- What every change with a cause preserves holds afterwards. -/
theorem inv {Inv : BdNode mFns → Prop} (h : Effects Cause s s')
    (happly : ∀ {s : BdNode mFns} {e}, Inv s → Cause e → Inv (e.apply s)) (hs : Inv s) : Inv s' := by
  rcases h with ⟨effects, rfl, hcause⟩
  induction effects generalizing s with
  | nil => exact hs
  | cons e effects ih =>
      exact ih (happly hs (hcause e List.mem_cons_self))
        (fun x hx => hcause x (List.mem_cons_of_mem e hx))

/-- A new transaction id, and a message with it. -/
theorem transIdSend {c : MsgoutCall} (hid : Cause .newTransId) (hc : Cause (.send c))
    (s : BdNode mFns) : Effects Cause s (c.queued s.genNewTransId.2) :=
  (single hid rfl).trans (single hc rfl)

end Effects

/-! ## Handlers -/

/-- The sender of a message of the four kinds whose senders become peers. -/
def MsgIn.peer : MsgIn → Option SrcId
  | .ping id _ => some id
  | .pong id _ _ => some id
  | .findNode id _ _ => some id
  | .replyFindNode id _ _ => some id
  | _ => none

/-- The changes that a handler call can make. -/
inductive MsgIn.Causes (s : BdNode mFns) (now : Int) (junk : Junk) : MsgIn → NodeEffect → Prop
  | newTransId (c : MsgIn) : MsgIn.Causes s now junk c .newTransId
  | callback (c : MsgIn) (id : BdId) (type : MsgType) :
      MsgIn.Causes s now junk c (.onRecvCallback id type)
  | peer {c : MsgIn} {id : SrcId} (hid : c.peer = some id) (peerflags : UInt32) :
      MsgIn.Causes s now junk c (.addPeer now (id.bdId junk) peerflags)
  | pong (id : SrcId) {transId : BdToken} (hlen : transId.len ≤ bitdhtTokenMaxLen) :
      MsgIn.Causes s now junk (.ping id transId) (.send (.pong (id.bdId junk) transId))
  | findNode (id : SrcId) {transId : BdToken} (hlen : transId.len ≤ bitdhtTokenMaxLen)
      (query : Option BdNodeId) :
      MsgIn.Causes s now junk (.findNode id transId query) (.queueQuery now (id.bdId junk)
        (query.getD junk.targetInfoHash) transId bdQueryNeighbours)
  | nodes (id : SrcId) (transId : BdToken) {nodes : List BdId} {it : BdId} (hit : it ∈ nodes) :
      MsgIn.Causes s now junk (.replyFindNode id transId nodes) (.checkPotentialPeer now it)
  | getHash (id : SrcId) {transId : BdToken} (hlen : transId.len ≤ bitdhtTokenMaxLen)
      (infoHash : Option BdNodeId) :
      MsgIn.Causes s now junk (.getHash id transId infoHash) (.queueQuery now (id.bdId junk)
        (infoHash.getD junk.targetInfoHash) transId bdQueryHash)
  | replyAskMyip (tunnelId : SrcId) {transId : BdToken} (hlen : transId.len ≤ bitdhtTokenMaxLen) :
      MsgIn.Causes s now junk (.askMyip tunnelId transId)
        (.send (.replyAskMyip (tunnelId.bdId junk) transId))
  | myIp {tunnelId : BdId} (hown : s.mOwnId = tunnelId.id) (transId : BdToken) :
      MsgIn.Causes s now junk (.replyAskMyip tunnelId transId) (.addMyIp tunnelId.addr)
  | connect {id : SrcId} {tid : BdToken} {nodeId peerId : BdNodeId}
      (hparty : (BroadcastConn.mk (id.bdId junk) tid nodeId peerId).FromParty) :
      MsgIn.Causes s now junk (.broadcastConn id tid nodeId peerId) (.connect (id.bdId junk)
        (BroadcastConn.mk (id.bdId junk) tid nodeId peerId).other)
  | askConn {id : SrcId} {tid : BdToken} {nodeId peerId : BdNodeId} {a : AskConn}
      (ha : a ∈ s.asks ⟨id.bdId junk, tid, nodeId, peerId⟩) {transId : BdToken}
      (hlen : transId.len ≤ bitdhtTokenMaxLen) :
      MsgIn.Causes s now junk (.broadcastConn id tid nodeId peerId)
        (.send (.askConn a.id transId a.nodeId a.peerId))
  | punching (id : SrcId) (tid : BdToken) {nodeId : BdNodeId} (hown : s.mOwnId = nodeId)
      (peerId : BdId) :
      MsgIn.Causes s now junk (.askConn id tid nodeId peerId) (.addPunching peerId)

section handlers

variable {now : Int} {junk : Junk}

theorem checkPotentialPeers_effects {Cause : NodeEffect → Prop} (s : BdNode mFns)
    {nodes : List BdId} (h : ∀ it ∈ nodes, Cause (.checkPotentialPeer now it)) :
    Effects Cause s (nodes.foldl (fun s it => s.checkPotentialPeer now it) s) := by
  refine ⟨nodes.map (.checkPotentialPeer now), ?_, ?_⟩
  · rw [List.foldl_map]
    rfl
  · intro e he
    rcases List.mem_map.1 he with ⟨it, hit, rfl⟩
    exact h it hit

/-- The messages of a match, each with a new transaction id. -/
theorem foldl_askConn_effects {Cause : NodeEffect → Prop} (hid : Cause .newTransId)
    {asks : List AskConn} (h : ∀ a ∈ asks, ∀ transId : BdToken, transId.len ≤ bitdhtTokenMaxLen →
      Cause (.send (.askConn a.id transId a.nodeId a.peerId))) (s : BdNode mFns) :
    Effects Cause s (asks.foldl BdNode.askConn s) := by
  induction asks generalizing s with
  | nil => exact .refl s
  | cons a asks ih =>
      have hsend : Effects Cause s (s.askConn a) :=
        .transIdSend (c := .askConn a.id s.genNewTransId.1 a.nodeId a.peerId) hid
          (h a List.mem_cons_self _ s.len_genNewTransId_le) s
      exact hsend.trans (ih (fun x hx => h x (List.mem_cons_of_mem a hx)) (s.askConn a))

/-- A handler that is called with tokens that fit makes changes of its kind. -/
theorem BdNode.msgin_effects (s : BdNode mFns) {c : MsgIn}
    (h : ∀ tok ∈ c.tokens, tok.len ≤ bitdhtTokenMaxLen) :
    ∃ s', s.msgin now junk c = .ok s' ∧ Effects (c.Causes s now junk) s s' := by
  cases c with
  | ping id transId =>
      have hlen := h transId (by simp [MsgIn.tokens])
      have hrun := MsgoutCall.run_queued (c := .pong (id.bdId junk) transId) hlen
        (s.addPeer now (id.bdId junk) 0)
      refine ⟨_, (congrArg (· >>= _) hrun).trans rfl, ?_⟩
      exact .trans (.trans (.single (.peer rfl 0) rfl) (.single (.pong id hlen) rfl))
        (.single (.callback _ (id.bdId junk) .ping) rfl)
  | pong id transId versionId =>
      exact ⟨_, rfl, .trans (.single (.peer rfl _) rfl)
        (.single (.callback _ (id.bdId junk) .pong) rfl)⟩
  | findNode id transId query =>
      have hlen := h transId (by simp [MsgIn.tokens])
      exact ⟨_, rfl, .trans (.trans (.single (.findNode id hlen query) rfl)
        (.single (.peer rfl 0) rfl)) (.single (.callback _ (id.bdId junk) .findNode) rfl)⟩
  | replyFindNode id transId nodes =>
      exact ⟨_, rfl, .trans (.trans (checkPotentialPeers_effects s
        (fun _ hit => .nodes id transId hit)) (.single (.peer rfl _) rfl))
        (.single (.callback _ (id.bdId junk) .replyNode) rfl)⟩
  | getHash id transId infoHash =>
      have hlen := h transId (by simp [MsgIn.tokens])
      exact ⟨_, rfl, .single (.getHash id hlen infoHash) rfl⟩
  | replyHash id transId token values =>
      exact ⟨s, rfl, .refl s⟩
  | replyNearest id transId token nodes =>
      exact ⟨s, rfl, .refl s⟩
  | postHash id transId infoHash port token =>
      exact ⟨s, rfl, .refl s⟩
  | replyPost id transId =>
      exact ⟨s, rfl, .refl s⟩
  | askMyip tunnelId transId =>
      have hlen := h transId (by simp [MsgIn.tokens])
      have hrun := MsgoutCall.run_queued (c := .replyAskMyip (tunnelId.bdId junk) transId) hlen s
      refine ⟨_, (congrArg (· >>= _) hrun).trans rfl, ?_⟩
      exact .trans (.single (.replyAskMyip tunnelId hlen) rfl)
        (.single (.callback _ (tunnelId.bdId junk) .newconn) rfl)
  | replyAskMyip tunnelId transId =>
      refine ⟨_, rfl, ?_⟩
      have hcall : Effects (MsgIn.Causes s now junk (.replyAskMyip tunnelId transId)) s
          (s.onRecvCallback tunnelId .replyNewconn) := .single (.callback _ _ _) rfl
      simp only [msginReplyAskMyip]
      split_ifs with hown hknown
      · exact hcall
      · have hself : s.mOwnId = tunnelId.id := hown
        exact hcall.trans (.single (.myIp hself transId) rfl)
      · exact hcall
  | broadcastConn id tid nodeId peerId =>
      let m : BroadcastConn := ⟨id.bdId junk, tid, nodeId, peerId⟩
      refine ⟨_, s.msginBroadcastConn_eq m, ?_⟩
      have hhear : Effects (MsgIn.Causes s now junk (.broadcastConn id tid nodeId peerId)) s
          (s.hear m) := by
        rw [hear]
        split_ifs with hparty
        · exact .single (.connect hparty) rfl
        · exact .refl s
      exact hhear.trans (foldl_askConn_effects (.newTransId _)
        (fun a ha _ hlen => .askConn ha hlen) _)
  | askConn id tid nodeId peerId =>
      refine ⟨_, rfl, ?_⟩
      simp only [msginAskConn]
      split_ifs with hown hknown
      · exact .refl s
      · exact .single (.punching id tid hown peerId) rfl
      · exact .refl s

end handlers

/-! ## The other calls that send -/

/-- The peers that a query could be sent to. -/
def BdNode.closestIds (s : BdNode mFns) : List BdId :=
  s.mLocalQueries.flatMap BdQuery.closestIds

/-- The reply to a query of the queue. -/
def BdNode.nearestTo (s : BdNode mFns) (query : BdNodeId) : List BdId :=
  (s.mNodeSpace.findNearestNodes query bitdhtQueryNeighbourPeers Multimap.empty).entries.map Prod.snd

/-- The changes that a call can make, where it is none of a packet. -/
inductive NodeCall.Causes (s : BdNode mFns) (now : Int) : NodeCall → NodeEffect → Prop
  | newTransId (c : NodeCall) : NodeCall.Causes s now c .newTransId
  | pop (n : Nat) (peers : List BdId) :
      NodeCall.Causes s now (.pingPotential n) (.mPotentialPeers peers)
  | pingPotential (n : Nat) {id : BdId} (hid : id ∈ s.mPotentialPeers) {transId : BdToken}
      (hlen : transId.len ≤ bitdhtTokenMaxLen) :
      NodeCall.Causes s now (.pingPotential n) (.send (.ping id transId))
  | turn (env : IterEnv) (n i sentMsgs : Nat) (bdRandomMidId : BdNodeId → BdNodeId → BdNodeId)
      (endId : BdNodeId) :
      NodeCall.Causes s now (.askQueries env n i sentMsgs) (.nextQuery bdRandomMidId now endId)
  | findNode (env : IterEnv) (n i sentMsgs : Nat) {id : BdId} (hid : id ∈ s.closestIds)
      {transId : BdToken} (hlen : transId.len ≤ bitdhtTokenMaxLen) (target : BdNodeId) :
      NodeCall.Causes s now (.askQueries env n i sentMsgs) (.send (.findNode id transId target))
  | queue {queue : List BdRemoteQuery} (hqueue : queue <:+ s.mRemoteQueries) :
      NodeCall.Causes s now .processRemoteQuery (.mRemoteQueries queue)
  | reply {query : BdRemoteQuery} (hquery : query ∈ s.mRemoteQueries)
      (htype : query.mQueryType = bdQueryNeighbours)
      (hage : query.mQueryTS > now - BdNode.bitdhtMaxRemoteQueryAge)
      (hlen : query.mTransId.len ≤ bitdhtTokenMaxLen) :
      NodeCall.Causes s now .processRemoteQuery
        (.send (.replyFindNode query.mId query.mTransId (s.nearestTo query.mQuery)))
  | outOfDate (fuel : Nat) : NodeCall.Causes s now (.pingOutOfDate fuel) (.outOfDatePeer now)
  | pingOutOfDate (fuel : Nat) {id : BdId} (hid : id ∈ s.mNodeSpace.stored) {transId : BdToken}
      (hlen : transId.len ≤ bitdhtTokenMaxLen) :
      NodeCall.Causes s now (.pingOutOfDate fuel) (.send (.ping id transId))
  | askMyip (it : BdPeer) {transId : BdToken} (hlen : transId.len ≤ bitdhtTokenMaxLen) :
      NodeCall.Causes s now (.broadcastTo it) (.send (.askMyip it.mPeerId transId))
  | broadcastConn (it : BdPeer) {e : BdNodeId × BdNodeId} (he : e ∈ s.mConnectRequests.entries)
      {tid : BdToken} (hlen : tid.len ≤ bitdhtTokenMaxLen) :
      NodeCall.Causes s now (.broadcastTo it) (.send (.broadcastConn it.mPeerId tid e.1 e.2))
  | punch (times : Nat) (it : BdId) {transId : BdToken} (hlen : transId.len ≤ bitdhtTokenMaxLen) :
      NodeCall.Causes s now (.punch times it) (.send (.ping it transId))

/-- The table keeps its peers while it is searched for those that are out of date. -/
theorem BdSpace.stored_outOfDatePeer (s : BdSpace mFns) (ts : Int) :
    (s.outOfDatePeer ts).1.stored = s.stored := by
  rcases outOfDatePeer_cases s ts with ⟨hnone, _⟩ | ⟨n, peer, space, hn, _, hout, hspace, _⟩
  · rw [hnone]
  · have hself : (s.entries.map BdPeer.mPeerId)[n]? = some peer.mPeerId := by
      rw [List.getElem?_map, hn]
      rfl
    rcases List.getElem?_eq_some_iff.1 hself with ⟨hlt, hget⟩
    calc
      (s.outOfDatePeer ts).1.stored = space.entries.map BdPeer.mPeerId := by rw [hout]; rfl
      _ = (s.entries.map BdPeer.mPeerId).set n peer.mPeerId := by rw [hspace, List.map_set]
      _ = s.stored := by rw [← hget, List.set_getElem_self]; rfl

namespace BdNode

/-- The node after a ping with a new transaction id. -/
def pinged (s : BdNode mFns) (id : BdId) : BdNode mFns :=
  (MsgoutCall.ping id s.genNewTransId.1).queued s.genNewTransId.2

theorem ping_pinged (s : BdNode mFns) (id : BdId) : s.ping id = .ok (s.pinged id) :=
  MsgoutCall.run_queued (c := .ping id s.genNewTransId.1) s.len_genNewTransId_le s.genNewTransId.2

/-- A query sends to a peer that it has in `mClosest`. -/
theorem nextQuery_closestIds {query : BdQuery} {bdRandomMidId : BdNodeId → BdNodeId → BdNodeId}
    {now : Int} {endId : BdNodeId} {id : BdId} {target : BdNodeId}
    (h : (query.nextQuery mFns bdRandomMidId now endId).2 = some (id, target)) :
    id ∈ query.closestIds := by
  cases nextQuery_cases mFns bdRandomMidId query now endId with
  | asked _ he hrun =>
      rcases hrun with ⟨target', hrun⟩
      rw [hrun, Option.some.injEq, Prod.mk.injEq] at h
      rw [← h.1]
      exact List.mem_map_of_mem (List.mem_of_find?_eq_some he)
  | done _ _ hrun | waiting _ hrun | finished _ _ _ _ hrun =>
      rw [hrun] at h
      cases h

/-- A turn leaves the peers that could be asked. -/
theorem closestIds_turn (s : BdNode mFns) (bdRandomMidId : BdNodeId → BdNodeId → BdNodeId)
    (now : Int) (endId : BdNodeId) :
    (s.turn bdRandomMidId now endId).closestIds ⊆ s.closestIds := by
  rw [turn]
  split
  · exact List.Subset.refl _
  · rename_i query queries hqueries
    have hsame : ((query.nextQuery mFns bdRandomMidId now endId).1).closestIds =
        query.closestIds := by
      have hstep := @queryStep_closest mFns query (now, .nextQuery bdRandomMidId endId)
      rw [queryStep] at hstep
      rw [BdQuery.closestIds, BdQuery.closestIds]
      generalize (query.nextQuery mFns bdRandomMidId now endId).1.mClosest = m at hstep
      cases hstep with
      | same => rfl
      | asked he hanswer =>
          exact Multimap.map_updateEntry _ (fun e => rfl) query.mClosest.entries
    intro id hmem
    rw [closestIds, List.flatMap_append, List.flatMap_singleton, hsame] at hmem
    rw [closestIds, hqueries, List.flatMap_cons]
    rcases List.mem_append.1 hmem with hrest | hfirst
    · exact List.mem_append_right _ hrest
    · exact List.mem_append_left _ hfirst

section loops

variable {Cause : NodeEffect → Prop} (hid : Cause .newTransId)

include hid

theorem pinged_effects (s : BdNode mFns) {id : BdId} (h : ∀ transId : BdToken,
    transId.len ≤ bitdhtTokenMaxLen → Cause (.send (.ping id transId))) :
    Effects Cause s (s.pinged id) :=
  .transIdSend hid (h _ s.len_genNewTransId_le) s

theorem pingPotential_effects {n : Nat} {s : BdNode mFns}
    (hpop : ∀ peers, Cause (.mPotentialPeers peers))
    (hping : ∀ id ∈ s.mPotentialPeers, ∀ transId : BdToken, transId.len ≤ bitdhtTokenMaxLen →
      Cause (.send (.ping id transId))) :
    ∃ left s', pingPotential n s = .ok (left, s') ∧ Effects Cause s s' := by
  induction n generalizing s with
  | zero => exact ⟨0, s, rfl, .refl s⟩
  | succ n ih =>
      rw [pingPotential]
      rcases hpeers : s.mPotentialPeers with _ | ⟨pid, peers⟩
      · exact ⟨n + 1, s, rfl, .refl s⟩
      · rw [hpeers] at hping
        let s₁ : BdNode mFns := { s with mPotentialPeers := peers }
        rcases @ih (s₁.pinged pid) (fun id hmem => hping id (List.mem_cons_of_mem pid hmem)) with
          ⟨left, s', hrun, heffects⟩
        have hpopped : Effects Cause s s₁ := .single (hpop peers) rfl
        have hfirst := pinged_effects hid s₁ (hping pid List.mem_cons_self)
        exact ⟨left, s', (congrArg (· >>= _) (s₁.ping_pinged pid)).trans hrun,
          (hpopped.trans hfirst).trans heffects⟩

theorem askQueries_effects {now : Int} {env : IterEnv} {n i sentMsgs : Nat} {s : BdNode mFns}
    (hturn : ∀ bdRandomMidId endId, Cause (.nextQuery bdRandomMidId now endId))
    (hask : ∀ id ∈ s.closestIds, ∀ transId : BdToken, transId.len ≤ bitdhtTokenMaxLen →
      ∀ target, Cause (.send (.findNode id transId target))) :
    ∃ s', askQueries now env n i sentMsgs s = .ok s' ∧ Effects Cause s s' := by
  induction n generalizing i sentMsgs s with
  | zero => exact ⟨s, rfl, .refl s⟩
  | succ n ih =>
      rw [askQueries]
      rcases hqueries : s.mLocalQueries with _ | ⟨query, queries⟩
      · exact ⟨s, rfl, .refl s⟩
      · dsimp only
        split_ifs
        · let s₁ : BdNode mFns := s.turn (env.bdRandomMidId i) now (env.endId i)
          have hs₁ : s₁ = { s with mLocalQueries := queries ++
              [(query.nextQuery mFns (env.bdRandomMidId i) now (env.endId i)).1] } := by
            simp only [s₁, turn, hqueries]
          have hround : Effects Cause s s₁ := .single (hturn _ _) rfl
          have hsub : s₁.closestIds ⊆ s.closestIds := s.closestIds_turn _ _ _
          rw [← hs₁]
          rcases hnext : (query.nextQuery mFns (env.bdRandomMidId i) now (env.endId i)).2 with
            _ | ⟨id, target⟩
          · rcases @ih (i + 1) sentMsgs s₁ (fun id hmem => hask id (hsub hmem)) with
              ⟨s', hrun, heffects⟩
            exact ⟨s', hrun, hround.trans heffects⟩
          · let c : MsgoutCall := .findNode id s₁.genNewTransId.1 target
            have hrun₁ := MsgoutCall.run_queued (c := c) s₁.len_genNewTransId_le s₁.genNewTransId.2
            have hmem : id ∈ s.closestIds := by
              rw [closestIds, hqueries, List.flatMap_cons]
              exact List.mem_append_left _ (nextQuery_closestIds hnext)
            have hsend : Effects Cause s₁ (c.queued s₁.genNewTransId.2) :=
              .transIdSend hid (hask id hmem _ s₁.len_genNewTransId_le target) s₁
            rcases @ih (i + 1) (sentMsgs + 1) (c.queued s₁.genNewTransId.2)
              (fun id hmem => hask id (hsub hmem)) with ⟨s', hrun, heffects⟩
            exact ⟨s', (congrArg (· >>= _) hrun₁).trans hrun,
              (hround.trans hsend).trans heffects⟩
        · exact ⟨s, rfl, .refl s⟩

theorem pingOutOfDate_effects {now : Int} {fuel : Nat} {s : BdNode mFns}
    (hpeer : Cause (.outOfDatePeer now))
    (hping : ∀ id ∈ s.mNodeSpace.stored, ∀ transId : BdToken, transId.len ≤ bitdhtTokenMaxLen →
      Cause (.send (.ping id transId))) :
    ∃ s', pingOutOfDate now fuel s = .ok s' ∧ Effects Cause s s' := by
  induction fuel generalizing s with
  | zero => exact ⟨s, rfl, .refl s⟩
  | succ fuel ih =>
      rw [pingOutOfDate]
      have hstored := s.mNodeSpace.stored_outOfDatePeer now
      rcases outOfDatePeer_cases s.mNodeSpace now with ⟨hnone, _⟩ | ⟨n, peer, space, hn, _, hout, _, _⟩
      · rw [hnone]
        exact ⟨s, rfl, .refl s⟩
      · rw [hout] at hstored ⊢
        let s₁ : BdNode mFns := { s with mNodeSpace := space }
        have hround : Effects Cause s s₁ := by
          refine .single hpeer ?_
          rw [NodeEffect.apply, hout]
        have hmem : peer.mPeerId ∈ s.mNodeSpace.stored :=
          List.mem_map_of_mem (List.mem_of_getElem? hn)
        have hfirst := pinged_effects hid s₁ (hping _ hmem)
        rcases @ih (s₁.pinged peer.mPeerId) (fun id hid' => hping id (hstored ▸ hid')) with
          ⟨s', hrun, heffects⟩
        exact ⟨s', (congrArg (· >>= _) (s₁.ping_pinged peer.mPeerId)).trans hrun,
          (hround.trans hfirst).trans heffects⟩

theorem broadcastTo_effects {s : BdNode mFns} {it : BdPeer}
    (hask : ∀ transId : BdToken, transId.len ≤ bitdhtTokenMaxLen →
      Cause (.send (.askMyip it.mPeerId transId)))
    (hconn : ∀ e ∈ s.mConnectRequests.entries, ∀ tid : BdToken, tid.len ≤ bitdhtTokenMaxLen →
      Cause (.send (.broadcastConn it.mPeerId tid e.1 e.2))) :
    ∃ s', s.broadcastTo it = .ok s' ∧ Effects Cause s s' := by
  have hloop : ∀ (entries : List (BdNodeId × BdNodeId)) (s₁ : BdNode mFns),
      (∀ e ∈ entries, ∀ tid : BdToken, tid.len ≤ bitdhtTokenMaxLen →
        Cause (.send (.broadcastConn it.mPeerId tid e.1 e.2))) →
      ∃ s', entries.foldlM (fun s itt => s.genNewTransId.2.msgoutBroadcastConn it.mPeerId
        s.genNewTransId.1 itt.1 itt.2) s₁ = .ok s' ∧ Effects Cause s₁ s' := by
    intro entries
    induction entries with
    | nil => exact fun s₁ _ => ⟨s₁, rfl, .refl s₁⟩
    | cons e entries ih =>
        intro s₁ h
        let c : MsgoutCall := .broadcastConn it.mPeerId s₁.genNewTransId.1 e.1 e.2
        have hrun₁ := MsgoutCall.run_queued (c := c) s₁.len_genNewTransId_le s₁.genNewTransId.2
        have hsend : Effects Cause s₁ (c.queued s₁.genNewTransId.2) :=
          .transIdSend hid (h e List.mem_cons_self _ s₁.len_genNewTransId_le) s₁
        rcases ih (c.queued s₁.genNewTransId.2) (fun x hx => h x (List.mem_cons_of_mem e hx)) with
          ⟨s', hrun, heffects⟩
        refine ⟨s', ?_, hsend.trans heffects⟩
        rw [List.foldlM_cons]
        exact (congrArg (· >>= _) hrun₁).trans hrun
  let c : MsgoutCall := .askMyip it.mPeerId s.genNewTransId.1
  have hrun₁ := MsgoutCall.run_queued (c := c) s.len_genNewTransId_le s.genNewTransId.2
  have hsend : Effects Cause s (c.queued s.genNewTransId.2) :=
    .transIdSend hid (hask _ s.len_genNewTransId_le) s
  rcases hloop s.mConnectRequests.entries (c.queued s.genNewTransId.2) hconn with
    ⟨s', hrun, heffects⟩
  exact ⟨s', (congrArg (· >>= _) hrun₁).trans hrun, hsend.trans heffects⟩

theorem punch_effects {times : Nat} {s : BdNode mFns} {it : BdId}
    (hping : ∀ transId : BdToken, transId.len ≤ bitdhtTokenMaxLen →
      Cause (.send (.ping it transId))) :
    ∃ s', punch times s it = .ok s' ∧ Effects Cause s s' := by
  have hlen := s.len_genNewTransId_le
  have hloop : ∀ (l : List Nat) (s₁ : BdNode mFns),
      ∃ s', l.foldlM (fun s₁ _ => s₁.msgoutPing it s.genNewTransId.1) s₁ = .ok s' ∧
        Effects Cause s₁ s' := by
    intro l
    induction l with
    | nil => exact fun s₁ => ⟨s₁, rfl, .refl s₁⟩
    | cons k l ih =>
        intro s₁
        have hrun₁ := MsgoutCall.run_queued (c := .ping it s.genNewTransId.1) hlen s₁
        rcases ih ((MsgoutCall.ping it s.genNewTransId.1).queued s₁) with ⟨s', hrun, heffects⟩
        refine ⟨s', ?_, .trans (.single (hping _ hlen) rfl) heffects⟩
        rw [List.foldlM_cons]
        exact (congrArg (· >>= _) hrun₁).trans hrun
  rcases hloop (List.range times) s.genNewTransId.2 with ⟨s', hrun, heffects⟩
  exact ⟨s', hrun, .trans (.single hid rfl) heffects⟩

end loops

theorem processRemoteQuery_effects {s : BdNode mFns} {now : Int}
    (hlen : ∀ q ∈ s.mRemoteQueries, q.mTransId.len ≤ bitdhtTokenMaxLen) :
    ∃ s', s.processRemoteQuery now = .ok s' ∧
      Effects (NodeCall.Causes s now .processRemoteQuery) s s' := by
  have hloop : ∀ queue, queue <:+ s.mRemoteQueries → ∃ s', s.processQueue now queue = .ok s' ∧
      Effects (NodeCall.Causes s now .processRemoteQuery) s s' := by
    intro queue
    induction queue with
    | nil =>
        intro h
        exact ⟨_, rfl, .single (.queue h) rfl⟩
    | cons query queue ih =>
        intro h
        have hrest : queue <:+ s.mRemoteQueries := (List.suffix_cons query queue).trans h
        have hquery : query ∈ s.mRemoteQueries := h.subset List.mem_cons_self
        rw [processQueue]
        split_ifs with hage htype
        · have hnodes := length_findNearestNodes_le s.mNodeSpace query.mQuery
            bitdhtQueryNeighbourPeers
          rw [← List.length_map (f := Prod.snd)] at hnodes
          have hrun := MsgoutCall.run_queued
            (c := .replyFindNode query.mId query.mTransId (s.nearestTo query.mQuery))
            ⟨hlen query hquery, Int.ofNat_le.2 hnodes⟩ s
          refine ⟨_, (congrArg (· >>= _) hrun).trans rfl, ?_⟩
          exact .trans (.single (.reply hquery htype hage (hlen query hquery)) rfl)
            (.single (.queue hrest) rfl)
        · exact ⟨_, rfl, .single (.queue hrest) rfl⟩
        · exact ih hrest
        · exact ih hrest
  exact hloop s.mRemoteQueries List.suffix_rfl

end BdNode

/-- The calls that send. -/
def NodeCall.Sends : NodeCall → Prop
  | .pingPotential .. | .askQueries .. | .processRemoteQuery | .pingOutOfDate .. | .broadcastTo ..
  | .punch .. => True
  | _ => False

/-- With transaction ids that fit, a call that sends comes back and makes changes of its kind. -/
theorem callStep_effects {s : BdNode mFns} (hlen : ∀ q ∈ s.mRemoteQueries,
    q.mTransId.len ≤ bitdhtTokenMaxLen) {c : NodeCall} (hc : c.Sends) (now : Int) :
    ∃ s', callStep s (now, c) = .ok s' ∧ Effects (c.Causes s now) s s' := by
  cases c with
  | pingPotential n =>
      have hloop : ∃ left s', BdNode.pingPotential n s = .ok (left, s') ∧
          Effects (NodeCall.Causes s now (.pingPotential n)) s s' :=
        BdNode.pingPotential_effects (.newTransId _) (.pop n)
          (fun _ hid _ hlen => .pingPotential n hid hlen)
      rcases hloop with ⟨left, s', hrun, heffects⟩
      exact ⟨s', (congrArg (· >>= _) hrun).trans rfl, heffects⟩
  | askQueries env n i sentMsgs =>
      exact BdNode.askQueries_effects (.newTransId _) (.turn env n i sentMsgs)
        (fun _ hid _ hlen target => .findNode env n i sentMsgs hid hlen target)
  | processRemoteQuery => exact BdNode.processRemoteQuery_effects hlen
  | pingOutOfDate fuel =>
      exact BdNode.pingOutOfDate_effects (.newTransId _) (.outOfDate fuel)
        (fun _ hid _ hlen => .pingOutOfDate fuel hid hlen)
  | broadcastTo it =>
      exact BdNode.broadcastTo_effects (.newTransId _) (fun _ hlen => .askMyip it hlen)
        (fun _ he _ hlen => .broadcastConn it he hlen)
  | punch times it =>
      exact BdNode.punch_effects (.newTransId _) (fun _ hlen => .punch times it hlen)
  | recvPkt | addQuery | clearQuery | addConnReq | addPotentialPeer | reloadStore | outgoingMsg
  | shutdownNode => exact hc.elim

end BitDht
