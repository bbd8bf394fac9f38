import BitDht.Tunnel.Manager

/-!
# Disconnect — what a disconnected peer still hears

`disconnectNode` takes a peer out of the map of the manager, but not out of the list of its node, and
nothing else does: `clearTunnel` is never called.  So a peer that the node has a request for is sent a
NEWCONN in every iteration.  A peer that the map holds but does not find stays in it and is requested
later on.  The law that a disconnected peer is left alone holds exactly for the others
(`disconnectNode_leavesAlone_iff`), and the map finds every peer as long as no two ids that it is given are
`Discordant` (`run_findable`).
-/

namespace BitDht

open Container Outcome

theorem sameKey_bdIdLt (a b : BdId) : sameKey bdIdLt a b = bdIdEq a b := by
  rw [Bool.eq_iff_iff, sameKey, Bool.and_eq_true, Bool.not_eq_true', Bool.not_eq_true']
  exact bdIdLt_neither_iff

namespace BdTunnelNode

/-! ## What an iteration of the node does -/

/-- The requests, and the ids that were sent a NEWCONN, are the same. -/
structure SameRequests (s s' : BdTunnelNode) : Prop where
  mTunnelRequests : s'.mTunnelRequests = s.mTunnelRequests
  newconns : s'.newconns = s.newconns

theorem sendPkt_ok {s s' : BdTunnelNode} {msg : List UInt8} {len : Nat} {addr : SockaddrIn}
    (h : s.sendPkt msg len addr = .ok s') : SameRequests s s' := by
  rcases bind_eq_ok.1 h with ⟨data, _, hs'⟩
  cases hs'
  exact ⟨rfl, rfl⟩

theorem msgout_ok {s s' : BdTunnelNode} {build : List UInt8 → Int → Exec (List UInt8 × Nat)}
    {addr : SockaddrIn} (h : s.msgout build addr = .ok s') : SameRequests s s' := by
  rcases bind_eq_ok.1 h with ⟨⟨msg, blen⟩, _, hsend⟩
  exact sendPkt_ok hsend

theorem recvPkt_ok {s s' : BdTunnelNode} {junk : Junk} {msg : List UInt8} {len : Nat}
    {addr : SockaddrIn} (h : s.recvPkt junk msg len addr = .ok s') : SameRequests s s' := by
  rcases bind_eq_ok.1 h with ⟨pkt, _, hpkt⟩
  split at hpkt
  · exact msgout_ok hpkt
  · cases hpkt
    exact ⟨rfl, rfl⟩

theorem recvPkts_ok {s s' : BdTunnelNode} {junk : Nat → Junk} {msgs : List BdNodeNetMsg} {i : Nat}
    (h : s.recvPkts junk msgs i = .ok s') : SameRequests s s' := by
  induction msgs generalizing s i with
  | nil =>
      cases h
      exact ⟨rfl, rfl⟩
  | cons msg msgs ih =>
      rcases bind_eq_ok.1 h with ⟨s₁, hrecv, hrest⟩
      have hfirst := recvPkt_ok hrecv
      have hlater := ih hrest
      exact ⟨hlater.mTunnelRequests.trans hfirst.mTunnelRequests,
        hlater.newconns.trans hfirst.newconns⟩

/-- A request is sent as a NEWCONN, as it is encoded. -/
theorem sendRequest_eq (s : BdTunnelNode) (query : BdId) :
    s.sendRequest query = .ok { s with
      transIdCounter := s.transIdCounter + 1
      newconns := s.newconns ++ [query]
      mOutgoingMsgs := s.mOutgoingMsgs ++
        [⟨bencode (Msg.newconn s.genNewTransId.1 s.mOwnId).tree, query.addr⟩] } := by
  have hshort : (Msg.newconn s.genNewTransId.1 s.mOwnId).Short :=
    Msg.newconn_short (List.length_take_le ..)
  rcases BdNode.build_msgBuffer hshort with ⟨rest, hbuild, _⟩
  have hrun : bitdhtAskMyipMsg s.genNewTransId.1 s.mOwnId BdNode.msgBuffer (10240 - 1) =
      .ok (bencode (Msg.newconn s.genNewTransId.1 s.mOwnId).tree ++ rest,
        (bencode (Msg.newconn s.genNewTransId.1 s.mOwnId).tree).length) := hbuild
  show bitdhtAskMyipMsg s.genNewTransId.1 s.mOwnId BdNode.msgBuffer (10240 - 1) >>= _ = _
  rw [hrun, ok_bind]
  show sendPkt _ _ _ _ = _
  rw [sendPkt, readBytes_append, ok_bind]
  rfl

/-- The rounds take the requests from the front and put them behind the others. -/
theorem sendRequests_eq (front back : List BdId) {s : BdTunnelNode}
    (h : s.mTunnelRequests = front ++ back) :
    ∃ s', s.sendRequests front.length = .ok s' ∧ s'.mTunnelRequests = back ++ front ∧
      s'.newconns = s.newconns ++ front ∧ s'.mIncomingMsgs = s.mIncomingMsgs := by
  induction front generalizing s back with
  | nil =>
      exact ⟨s, rfl, by rw [h, List.nil_append, List.append_nil], (List.append_nil _).symm, rfl⟩
  | cons query front ih =>
      have hround : ∃ s₁ : BdTunnelNode,
          s.sendRequests (front.length + 1) = s₁.sendRequests front.length ∧
            s₁.mTunnelRequests = front ++ (back ++ [query]) ∧
            s₁.newconns = s.newconns ++ [query] ∧ s₁.mIncomingMsgs = s.mIncomingMsgs := by
        rw [sendRequests, h]
        simp only [List.cons_append, sendRequest_eq, ok_bind]
        exact ⟨_, rfl, List.append_assoc .., rfl, rfl⟩
      rcases hround with ⟨s₁, hrun, hrequests, hnewconns, hincoming⟩
      rcases ih (back ++ [query]) hrequests with ⟨s', hrest, hrequests', hnewconns', hincoming'⟩
      refine ⟨s', hrun.trans hrest, ?_, ?_, hincoming'.trans hincoming⟩
      · rw [hrequests', List.append_assoc, List.singleton_append]
      · rw [hnewconns', hnewconns, List.append_assoc, List.singleton_append]

theorem iteration_ok {s s' : BdTunnelNode} {env : TunnelEnv} (h : s.iteration env = .ok s') :
    s'.mTunnelRequests = s.mTunnelRequests ∧ s'.newconns = s.newconns ++ s.mTunnelRequests := by
  rcases bind_eq_ok.1 h with ⟨s₁, hrecv, hsend⟩
  have hsame := recvPkts_ok hrecv
  rcases sendRequests_eq s₁.mTunnelRequests [] (List.append_nil _).symm with
    ⟨s₂, hrun, hrequests, hnewconns, _⟩
  rw [hrun] at hsend
  cases hsend
  rw [hrequests, hnewconns, hsame.mTunnelRequests, hsame.newconns]
  exact ⟨rfl, rfl⟩

/-- A node that has no packets to read gets through. -/
theorem iteration_of_noPackets {s : BdTunnelNode} (h : s.mIncomingMsgs = []) (env : TunnelEnv) :
    ∃ s', s.iteration env = .ok s' ∧ s'.mIncomingMsgs = [] := by
  rcases sendRequests_eq (s := { s with transIdCounter := env.transIdCounter, mIncomingMsgs := [] })
    s.mTunnelRequests [] (List.append_nil _).symm with ⟨s', hrun, _, _, hincoming⟩
  refine ⟨s', ?_, hincoming⟩
  rw [iteration, h]
  exact hrun

end BdTunnelNode

namespace BdTunnelManager

/-! ## A peer that is left alone -/

/-- The node has a request for the peer. -/
def Requested (c : BdTunnelManager) (id : BdId) : Prop :=
  ∃ req ∈ c.mTunnelRequests, bdIdEq req id = true

/-- Neither the manager nor its node has the peer. -/
structure Forgotten (id : BdId) (c : BdTunnelManager) : Prop where
  peers : ∀ e ∈ c.mTunnelPeers.entries, bdIdEq e.1 id = false
  requests : ∀ req ∈ c.mTunnelRequests, bdIdEq req id = false

/-- The call connects the peer. -/
def Connects (id : BdId) : Int × TunnelOp → Prop
  | (_, .connectNode id' _) => bdIdEq id' id = true
  | _ => False

/-- Until the peer is connected again no call sends a NEWCONN to it. -/
def LeavesAlone (c : BdTunnelManager) (id : BdId) : Prop :=
  ∀ (mid : List (Int × TunnelOp)) (c' : BdTunnelManager),
    mid.foldlM tunnelStep c = .ok c' → (∀ op ∈ mid, ¬ Connects id op) →
      ∀ id' ∈ c'.newconns.drop c.newconns.length, bdIdEq id' id = false

/-- The map has an entry for the peer. -/
def Listed (c : BdTunnelManager) (id : BdId) : Prop :=
  ∃ e ∈ c.mTunnelPeers.entries, bdIdEq e.1 id = true

/-- An entry for the peer is where the map finds it. -/
def Findable (c : BdTunnelManager) (id : BdId) : Prop :=
  ∀ (it : Nat) (e : BdId × BdTunnelPeer), c.mTunnelPeers.entries[it]? = some e →
    bdIdEq e.1 id = true → c.mTunnelPeers.find id = some it

/-- `disconnectNode` leaves no entry for the peer exactly when it finds the one that is there. -/
theorem listed_disconnectNode_iff (c : BdTunnelManager) (id : BdId) :
    (c.disconnectNode id).Listed id ↔ ¬ c.Findable id := by
  have hentries : ∀ e, e ∈ (c.disconnectNode id).mTunnelPeers.entries ↔
      ∃ it, c.mTunnelPeers.find id ≠ some it ∧ c.mTunnelPeers.entries[it]? = some e := by
    intro e
    unfold disconnectNode
    cases hfind : c.mTunnelPeers.find id with
    | none => simp [List.mem_iff_getElem?]
    | some it =>
        dsimp only
        rw [CmpMap.entries_erase, List.mem_eraseIdx_iff_getElem?]
        exact exists_congr (fun it' => and_congr_left' (by rw [ne_eq, ne_eq, Option.some.injEq, eq_comm]))
  simp only [Listed, Findable, hentries, not_forall]
  constructor
  · rintro ⟨e, ⟨it, hfind, he⟩, hid⟩
    exact ⟨it, e, he, hid, hfind⟩
  · rintro ⟨it, e, he, hid, hfind⟩
    exact ⟨e, ⟨it, hfind, he⟩, hid⟩

theorem disconnectNode_node (c : BdTunnelManager) (id : BdId) :
    (c.disconnectNode id).toBdTunnelNode = c.toBdTunnelNode := by
  unfold disconnectNode
  split
  · rfl
  · rfl

/-- The loop over the peers adds requests for them only, and sends nothing. -/
theorem foldl_addTunnel {l : List (BdId × BdTunnelPeer)} {s : BdTunnelNode} :
    (l.foldl (fun s it => s.addTunnel it.1) s).newconns = s.newconns ∧
      (l.foldl (fun s it => s.addTunnel it.1) s).mIncomingMsgs = s.mIncomingMsgs ∧
      ∀ req ∈ (l.foldl (fun s it => s.addTunnel it.1) s).mTunnelRequests,
        req ∈ s.mTunnelRequests ∨ ∃ e ∈ l, req = e.1 := by
  induction l generalizing s with
  | nil =>
      exact ⟨rfl, rfl, fun req hreq => .inl hreq⟩
  | cons it l ih =>
      rcases ih (s := s.addTunnel it.1) with ⟨hnewconns, hincoming, hrequests⟩
      have hadded : (s.addTunnel it.1).newconns = s.newconns ∧
          (s.addTunnel it.1).mIncomingMsgs = s.mIncomingMsgs ∧
          ∀ req ∈ (s.addTunnel it.1).mTunnelRequests, req ∈ s.mTunnelRequests ∨ req = it.1 := by
        rw [BdTunnelNode.addTunnel]
        split_ifs
        · exact ⟨rfl, rfl, fun req hreq => .inl hreq⟩
        · refine ⟨rfl, rfl, ?_⟩
          intro req hreq
          exact (List.mem_append.1 hreq).imp id List.mem_singleton.1
      refine ⟨hnewconns.trans hadded.1, hincoming.trans hadded.2.1, ?_⟩
      intro req hreq
      rcases hrequests req hreq with hbefore | ⟨e, he, heq⟩
      · rcases hadded.2.2 req hbefore with hold | hnew
        · exact .inl hold
        · exact .inr ⟨it, List.mem_cons_self .., hnew⟩
      · exact .inr ⟨e, List.mem_cons_of_mem it he, heq⟩

theorem Forgotten.stopTunnel {c : BdTunnelManager} {id : BdId} (h : Forgotten id c) (now : Int) :
    Forgotten id (c.stopTunnel now) := by
  refine ⟨?_, h.requests⟩
  intro e he
  rw [BdTunnelManager.stopTunnel, CmpMap.entries_mapVals] at he
  rcases List.mem_map.1 he with ⟨e', he', rfl⟩
  exact h.peers e' he'

theorem Forgotten.changeMode {c : BdTunnelManager} {id : BdId} (h : Forgotten id c) (now : Int) :
    Forgotten id (c.changeMode now) := by
  have hsame : ∀ mode ts, Forgotten id { c with mMode := mode, mModeTS := ts } :=
    fun _ _ => ⟨h.peers, h.requests⟩
  unfold BdTunnelManager.changeMode
  cases c.mMode with
  | off =>
      exact h
  | startup =>
      dsimp only
      split_ifs
      · exact ⟨h.peers, h.requests⟩
      · exact hsame _ _
      · exact h
  | newconn =>
      dsimp only
      split_ifs
      · rcases foldl_addTunnel (l := c.mTunnelPeers.entries) (s := c.toBdTunnelNode) with
          ⟨_, _, hrequests⟩
        refine ⟨h.peers, ?_⟩
        intro req hreq
        rcases hrequests req hreq with hold | ⟨e, he, rfl⟩
        · exact h.requests req hold
        · exact h.peers e he
      · exact h
  | failed =>
      exact ⟨(h.stopTunnel now).peers, h.requests⟩

/-- The switch sends nothing. -/
theorem newconns_changeMode (c : BdTunnelManager) (now : Int) :
    (c.changeMode now).newconns = c.newconns := by
  unfold BdTunnelManager.changeMode
  cases c.mMode with
  | off | failed =>
      rfl
  | startup =>
      dsimp only
      split_ifs
      · rfl
      · rfl
      · rfl
  | newconn =>
      dsimp only
      split_ifs
      · exact foldl_addTunnel.1
      · rfl

/-- What an iteration leaves behind the switch, and for whom it sends a NEWCONN: for each of the requests
once, or for none of them. -/
structure Iterated (c : BdTunnelManager) (now : Int) (sent : List BdId) (c' : BdTunnelManager) :
    Prop where
  peers : c'.mTunnelPeers = (c.changeMode now).mTunnelPeers
  requests : c'.mTunnelRequests = (c.changeMode now).mTunnelRequests
  newconns : c'.newconns = c.newconns ++ sent
  sent : sent.Sublist (c.changeMode now).mTunnelRequests

theorem iteration_iterated {c c' : BdTunnelManager} {now : Int} {env : TunnelEnv}
    (h : c.iteration now env = .ok c') : ∃ sent, Iterated c now sent c' := by
  have hswitch := newconns_changeMode c now
  rw [iteration] at h
  split_ifs at h
  · cases h
    exact ⟨[], rfl, rfl, by rw [List.append_nil]; exact hswitch, List.nil_sublist _⟩
  · rcases bind_eq_ok.1 h with ⟨node, hnode, hrest⟩
    cases hrest
    rcases BdTunnelNode.iteration_ok hnode with ⟨hrequests, hsent⟩
    exact ⟨_, rfl, hrequests, by rw [hsent, hswitch], List.Sublist.refl _⟩

/-- A forgotten peer stays so, and nothing is sent to it. -/
theorem Forgotten.step {c c' : BdTunnelManager} {id : BdId} {op : Int × TunnelOp}
    (h : Forgotten id c) (hop : ¬ Connects id op) (hstep : tunnelStep c op = .ok c') :
    Forgotten id c' ∧
      ∃ sent, c'.newconns = c.newconns ++ sent ∧ ∀ id' ∈ sent, bdIdEq id' id = false := by
  have hnothing : ∃ sent, c.newconns = c.newconns ++ sent ∧ ∀ id' ∈ sent, bdIdEq id' id = false :=
    ⟨[], (List.append_nil _).symm, by simp⟩
  rcases op with ⟨now, op⟩
  cases op with
  | startTunnel =>
      cases hstep
      exact ⟨⟨h.peers, h.requests⟩, hnothing⟩
  | stopTunnel =>
      cases hstep
      exact ⟨h.stopTunnel now, hnothing⟩
  | connectNode id' sinFamily =>
      cases hstep
      unfold connectNode
      split_ifs
      · exact ⟨h, hnothing⟩
      · refine ⟨⟨?_, h.requests⟩, hnothing⟩
        intro e he
        rcases CmpMap.mem_assign he with hkey | ⟨e', he', hkey⟩
        · rw [hkey]
          exact Bool.eq_false_of_not_eq_true hop
        · rw [← hkey]
          exact h.peers e' he'
  | disconnectNode id' =>
      cases hstep
      unfold disconnectNode
      split
      · exact ⟨h, hnothing⟩
      · refine ⟨⟨?_, h.requests⟩, hnothing⟩
        intro e he
        rw [CmpMap.entries_erase] at he
        exact h.peers e ((List.eraseIdx_sublist _ _).subset he)
  | incomingMsg addr msg =>
      cases hstep
      exact ⟨⟨h.peers, h.requests⟩, hnothing⟩
  | outgoingMsg =>
      cases hstep
      exact ⟨⟨h.peers, h.requests⟩, hnothing⟩
  | iteration env =>
      have hswitch := h.changeMode now
      rcases iteration_iterated hstep with ⟨sent, hafter⟩
      refine ⟨⟨?_, ?_⟩, sent, hafter.newconns,
        fun id' hid' => hswitch.requests id' (hafter.sent.subset hid')⟩
      · rw [hafter.peers]
        exact hswitch.peers
      · rw [hafter.requests]
        exact hswitch.requests

theorem Forgotten.leavesAlone {c : BdTunnelManager} {id : BdId} (h : Forgotten id c) :
    LeavesAlone c id := by
  intro mid c' hrun hmid
  have hsent : ∃ sent, c'.newconns = c.newconns ++ sent ∧ ∀ id' ∈ sent, bdIdEq id' id = false := by
    induction mid generalizing c with
    | nil =>
        cases hrun
        exact ⟨[], (List.append_nil _).symm, by simp⟩
    | cons op mid ih =>
        rw [List.foldlM_cons] at hrun
        rcases bind_eq_ok.1 hrun with ⟨c₁, hc₁, hrest⟩
        rcases h.step (hmid op (List.mem_cons_self ..)) hc₁ with ⟨h₁, sent, hsent, hfirst⟩
        rcases ih h₁ hrest (fun op hop => hmid op (List.mem_cons_of_mem _ hop)) with
          ⟨later, hlater, hothers⟩
        refine ⟨sent ++ later, by rw [hlater, hsent, List.append_assoc], ?_⟩
        intro id' hid'
        rcases List.mem_append.1 hid' with hin | hin
        · exact hfirst id' hin
        · exact hothers id' hin
  rcases hsent with ⟨sent, hnewconns, hsent⟩
  rw [hnewconns, List.drop_left]
  exact hsent

/-! ## A peer that is not -/

/-- What the iterations of a run read. -/
def quietEnv : TunnelEnv where
  junk := fun _ => ⟨bdZeroNodeId, bdZeroNodeId, 0⟩
  transIdCounter := 0

/-- The manager is stopped and started again, and an iteration in between throws away what came in. -/
def restart : List (Int × TunnelOp) :=
  [(0, .stopTunnel), (0, .iteration quietEnv), (0, .startTunnel)]

/-- The manager behind it. -/
def restarted (c : BdTunnelManager) : BdTunnelManager :=
  { ((c.stopTunnel 0).startTunnel 0) with
      toBdTunnelNode := { c.toBdTunnelNode.shutdownNode with mIncomingMsgs := [] } }

theorem foldlM_restart (c : BdTunnelManager) : restart.foldlM tunnelStep c = .ok c.restarted := rfl

/-- One iteration, of a manager that is on and has no packets to read. -/
theorem foldlM_iteration {c : BdTunnelManager} (now : Int) (hmode : (c.changeMode now).mMode ≠ .off)
    (hincoming : (c.changeMode now).mIncomingMsgs = []) :
    ∃ node, tunnelStep c (now, .iteration quietEnv) =
        .ok { c.changeMode now with toBdTunnelNode := node } ∧ node.mIncomingMsgs = [] ∧
      node.mTunnelRequests = (c.changeMode now).mTunnelRequests ∧
      node.newconns = (c.changeMode now).newconns ++ (c.changeMode now).mTunnelRequests := by
  rcases BdTunnelNode.iteration_of_noPackets hincoming quietEnv with ⟨node, hnode, hread⟩
  refine ⟨node, ?_, hread, BdTunnelNode.iteration_ok hnode⟩
  rw [tunnelStep, iteration, if_neg hmode, hnode, ok_bind]
  rfl

/-- A run behind the restart in which the peer is sent a NEWCONN. -/
theorem not_leavesAlone_of_sent {c c' : BdTunnelManager} {id : BdId} {mid : List (Int × TunnelOp)}
    {sent : List BdId} (hmid : ∀ op ∈ mid, ¬ Connects id op)
    (hrun : mid.foldlM tunnelStep c.restarted = .ok c') (hsent : c'.newconns = c.newconns ++ sent)
    (hpeer : ∃ req ∈ sent, bdIdEq req id = true) : ¬ LeavesAlone c id := by
  intro halone
  rcases hpeer with ⟨req, hreq, hsame⟩
  have hwhole : (restart ++ mid).foldlM tunnelStep c = .ok c' := by
    rw [List.foldlM_append, foldlM_restart, ok_bind, hrun]
  have hno : ∀ op ∈ restart ++ mid, ¬ Connects id op := by
    intro op hop
    rcases List.mem_append.1 hop with hop | hop
    · simp only [restart, List.mem_cons, List.not_mem_nil, or_false] at hop
      rcases hop with rfl | rfl | rfl
      · exact not_false
      · exact not_false
      · exact not_false
    · exact hmid op hop
  have hwrong := halone _ _ hwhole hno req (by rwa [hsent, List.drop_left])
  rw [hsame] at hwrong
  cases hwrong

/-- A request is sent in the first iteration. -/
theorem not_leavesAlone_of_requested {c : BdTunnelManager} {id : BdId} (h : Requested c id) :
    ¬ LeavesAlone c id := by
  rcases foldlM_iteration (c := c.restarted) 0 TunMgrState.noConfusion rfl with
    ⟨node, hstep, _, _, hsent⟩
  have hrun : [(0, TunnelOp.iteration quietEnv)].foldlM tunnelStep c.restarted =
      .ok { c.restarted with toBdTunnelNode := node } := by
    rw [List.foldlM_cons, hstep]
    rfl
  exact not_leavesAlone_of_sent (by simp [Connects]) hrun hsent h

/-- The loop over the peers leaves a request for each of them. -/
theorem requested_foldl_addTunnel {l : List (BdId × BdTunnelPeer)} {s : BdTunnelNode} {id : BdId}
    (h : (∃ req ∈ s.mTunnelRequests, bdIdEq req id = true) ∨ ∃ e ∈ l, bdIdEq e.1 id = true) :
    ∃ req ∈ (l.foldl (fun s it => s.addTunnel it.1) s).mTunnelRequests, bdIdEq req id = true := by
  induction l generalizing s with
  | nil =>
      rcases h with h | ⟨e, he, _⟩
      · exact h
      · exact absurd he List.not_mem_nil
  | cons it l ih =>
      apply ih
      have hfirst : (∃ req ∈ s.mTunnelRequests, bdIdEq req id = true) ∨ bdIdEq it.1 id = true →
          ∃ req ∈ (s.addTunnel it.1).mTunnelRequests, bdIdEq req id = true := by
        intro h
        unfold BdTunnelNode.addTunnel
        split_ifs with hthere
        · rcases h with h | hid
          · exact h
          · -- it has a request already
            rcases List.any_eq_true.1 hthere with ⟨req, hreq, hsame⟩
            exact ⟨req, hreq, bdIdEq_trans hsame hid⟩
        · rcases h with ⟨req, hreq, hid⟩ | hid
          · exact ⟨req, List.mem_append_left _ hreq, hid⟩
          · exact ⟨it.1, List.mem_append_right _ (List.mem_singleton_self _), hid⟩
      rcases h with h | ⟨e, he, hid⟩
      · exact .inl (hfirst (.inl h))
      · rcases List.mem_cons.1 he with rfl | he
        · exact .inl (hfirst (.inr hid))
        · exact .inr ⟨e, he, hid⟩

theorem changeMode_startup {c : BdTunnelManager} (now : Int) (hmode : c.mMode = .startup)
    (hage : now - c.mModeTS > maxStartupTime) {id : BdId} (h : c.Listed id) :
    c.changeMode now = { c with mMode := .newconn, mModeTS := now } := by
  rcases h with ⟨e, he, _⟩
  have hne : c.mTunnelPeers.entries.isEmpty = false :=
    List.isEmpty_eq_false_iff.2 (List.ne_nil_of_mem he)
  simp [changeMode, hmode, hage, hne]

theorem changeMode_newconn {c : BdTunnelManager} (now : Int) (hmode : c.mMode = .newconn)
    (hage : now - c.mModeTS > maxRefreshTime) :
    c.changeMode now = { c with mMode := .startup, mModeTS := now }.addTunnels := by
  simp [changeMode, hmode, hage]

/-- An entry of the map becomes a request in the second iteration after a restart, and is sent. -/
theorem not_leavesAlone_of_listed {c : BdTunnelManager} {id : BdId} (h : c.Listed id) :
    ¬ LeavesAlone c id := by
  have hlisted : c.restarted.Listed id := by
    rcases h with ⟨e, he, hid⟩
    refine ⟨(e.1, { e.2 with mStatus := .disconnected }), ?_, hid⟩
    have hentries : c.restarted.mTunnelPeers.entries = _ := CmpMap.entries_mapVals _ _
    rw [hentries]
    exact List.mem_map.2 ⟨e, he, rfl⟩
  -- the first iteration finds the map in use, the second hands it to the node
  have hage : (11 : Int) - 0 > maxStartupTime := by decide
  have hage' : (22 : Int) - 11 > maxRefreshTime := by decide
  have hfirst := changeMode_startup (c := c.restarted) 11 rfl hage hlisted
  rcases foldlM_iteration (c := c.restarted) 11 (by rw [hfirst]; exact TunMgrState.noConfusion)
    (by rw [hfirst]; rfl) with ⟨node, hstep, hincoming, hrequests, hsent⟩
  rw [hfirst] at hstep hsent
  let c₁ : BdTunnelManager :=
    { c.restarted with mMode := .newconn, mModeTS := 11, toBdTunnelNode := node }
  have hsecond := changeMode_newconn (c := c₁) 22 rfl hage'
  rcases foldl_addTunnel (l := c₁.mTunnelPeers.entries) (s := node) with ⟨hnewconns, hread, _⟩
  rcases foldlM_iteration (c := c₁) 22 (by rw [hsecond]; exact TunMgrState.noConfusion)
    (by rw [hsecond]; exact hread.trans hincoming) with ⟨node', hstep', _, _, hsent'⟩
  rw [hsecond] at hsent'
  have hrun : [(11, TunnelOp.iteration quietEnv), (22, .iteration quietEnv)].foldlM tunnelStep
      c.restarted = .ok { c₁.changeMode 22 with toBdTunnelNode := node' } := by
    rw [List.foldlM_cons, hstep, ok_bind, List.foldlM_cons, hstep']
    rfl
  have hlast : node'.newconns = c.newconns ++ (c.mTunnelRequests ++
      (c₁.mTunnelPeers.entries.foldl (fun s it => s.addTunnel it.1) node).mTunnelRequests) := by
    rw [hsent', ← List.append_assoc]
    exact congrArg (· ++ _) (hnewconns.trans hsent)
  rcases requested_foldl_addTunnel (s := node) (.inr hlisted) with ⟨req, hreq, hid⟩
  exact not_leavesAlone_of_sent (by simp [Connects]) hrun hlast
    ⟨req, List.mem_append_right _ hreq, hid⟩

/-! ## The law and its failure -/

/-- In every state, and so in every run, a disconnected peer is left alone exactly when the node has
no request for it and the map finds it if it holds it. -/
theorem disconnectNode_leavesAlone_iff (c : BdTunnelManager) (id : BdId) :
    LeavesAlone (c.disconnectNode id) id ↔ ¬ Requested c id ∧ Findable c id := by
  have hrequested : Requested (c.disconnectNode id) id ↔ Requested c id := by
    rw [Requested, disconnectNode_node, Requested]
  constructor
  · intro halone
    refine ⟨fun h => not_leavesAlone_of_requested (hrequested.2 h) halone, ?_⟩
    by_contra hmiss
    exact not_leavesAlone_of_listed ((listed_disconnectNode_iff c id).2 hmiss) halone
  · rintro ⟨hnot, hfind⟩
    refine Forgotten.leavesAlone ⟨?_, ?_⟩
    · intro e he
      exact Bool.eq_false_of_not_eq_true
        (fun hid => (listed_disconnectNode_iff c id).1 ⟨e, he, hid⟩ hfind)
    · intro req hreq
      exact Bool.eq_false_of_not_eq_true (fun hid => hnot (hrequested.1 ⟨req, hreq, hid⟩))

/-- A peer is connected and requested before it is disconnected. -/
theorem not_leavesAlone_requested :
    let id : BdId := ⟨⟨afInet, 1, 1⟩, ⟨List.replicate 20 7, rfl⟩⟩
    let iteration : TunnelOp := .iteration ⟨fun _ => ⟨bdZeroNodeId, bdZeroNodeId, 0⟩, 0⟩
    ∃ c, [(0, .startTunnel), (0, .connectNode id 2), (11, iteration), (22, iteration)].foldlM
        tunnelStep (new bdZeroNodeId (.plain ..)) = .ok c ∧
      ¬ LeavesAlone (c.disconnectNode id) id := by
  intro id iteration
  have hrun : Outcome.holds ([(0, .startTunnel), (0, .connectNode id 2), (11, iteration),
      (22, iteration)].foldlM tunnelStep (new bdZeroNodeId (.plain ..)))
        (fun c => c.mTunnelRequests.any (fun req => bdIdEq req id)) = true := by
    decide +kernel
  rcases Outcome.holds_iff.1 hrun with ⟨c, hc, hrequested⟩
  refine ⟨c, hc, not_leavesAlone_of_requested ?_⟩
  rw [Requested, disconnectNode_node]
  exact List.any_eq_true.1 hrequested

/-! ## Runs in which every peer is found -/

/-- Ids that are pairwise not discordant are ordered by the comparison. -/
theorem orderedOn_of_not_discordant {P : BdId → Prop}
    (h : ∀ a b, P a → P b → ¬ Discordant a b) : CmpMap.OrderedOn bdIdLt P where
  asymm := by
    intro a b ha hb hlt
    rw [← Bool.not_eq_true]
    exact fun hgt => h a b ha hb (bdIdLt_both_iff.1 ⟨hlt, hgt⟩)
  trans := by
    intro a b c ha hb _ hab hbc
    exact (bdIdLt_trans_or hab hbc).resolve_right (h a b ha hb)
  total := by
    intro a b c ha hb hc hac
    by_contra! hno
    simp only [ne_eq, Bool.not_eq_true] at hno
    -- the middle one is not above `a`, so it is below it or the same, and then it is below `c`
    cases hba : bdIdLt b a with
    | true =>
        rcases bdIdLt_trans_or hba hac with hbc | hdisc
        · rw [hno.2] at hbc
          cases hbc
        · exact h b a hb ha hdisc
    | false =>
        have hsame := bdIdEq_iff.1 (bdIdLt_neither_iff.1 ⟨hno.1, hba⟩)
        rw [bdIdLt_iff, hsame.1, hsame.2.1, hsame.2.2, ← bdIdLt_iff, hno.2] at hac
        cases hac

/-- The ids that a call gives to the map. -/
def GivesTo (P : BdId → Prop) : Int × TunnelOp → Prop
  | (_, .connectNode id _) => P id
  | _ => True

/-- The peers of the map are in order. -/
theorem ascending_step {P : BdId → Prop} (hP : CmpMap.OrderedOn bdIdLt P) {c c' : BdTunnelManager}
    {op : Int × TunnelOp} (hop : GivesTo P op)
    (h : CmpMap.Ascending bdIdLt P c.mTunnelPeers.entries) (hstep : tunnelStep c op = .ok c') :
    CmpMap.Ascending bdIdLt P c'.mTunnelPeers.entries := by
  have hstop : ∀ now, CmpMap.Ascending bdIdLt P (c.stopTunnel now).mTunnelPeers.entries := by
    intro now
    rw [stopTunnel, CmpMap.entries_mapVals]
    exact h.mapVals (fun peer => { peer with mStatus := .disconnected })
  rcases op with ⟨now, op⟩
  cases op with
  | stopTunnel =>
      cases hstep
      exact hstop now
  | connectNode id sinFamily =>
      cases hstep
      unfold connectNode
      split_ifs with hthere
      · exact h
      · exact h.assign hP hop (by simpa [CmpMap.contains] using hthere) _
  | disconnectNode id =>
      cases hstep
      unfold disconnectNode
      split
      · exact h
      · rw [CmpMap.entries_erase]
        exact h.sublist (List.eraseIdx_sublist _ _)
  | iteration env =>
      have hswitch : CmpMap.Ascending bdIdLt P (c.changeMode now).mTunnelPeers.entries := by
        unfold changeMode
        cases c.mMode with
        | off => exact h
        | startup =>
            dsimp only
            split_ifs
            · exact h
            · exact h
            · exact h
        | newconn =>
            dsimp only
            split_ifs
            · exact h
            · exact h
        | failed => exact hstop now
      rw [tunnelStep, BdTunnelManager.iteration] at hstep
      split_ifs at hstep
      · cases hstep
        exact hswitch
      · rcases bind_eq_ok.1 hstep with ⟨node, _, hrest⟩
        cases hrest
        exact hswitch
  | startTunnel | incomingMsg addr msg | outgoingMsg =>
      cases hstep
      exact h

/-- As long as no two of the ids that it is given are discordant, the map of a manager finds each peer that
it holds, whatever the library. -/
theorem run_findable {P : BdId → Prop} (hP : ∀ a b, P a → P b → ¬ Discordant a b) {ownId : BdNodeId}
    {lib : PeerLib} {ops : List (Int × TunnelOp)} {c : BdTunnelManager}
    (hops : ∀ op ∈ ops, GivesTo P op) (hrun : ops.foldlM tunnelStep (new ownId lib) = .ok c)
    {id : BdId} (hid : P id) : Findable c id := by
  have hordered := orderedOn_of_not_discordant hP
  have hrun' : Guarded tunnelStep (fun _ op => GivesTo P op) (new ownId lib) ops := by
    intro pre op post _ heq _
    exact hops op (by rw [heq]; exact List.mem_append_right pre List.mem_cons_self)
  let Inv : BdTunnelManager → Prop := fun c => CmpMap.Ascending bdIdLt P c.mTunnelPeers.entries
  have hasc : Inv c := hrun'.inv (fun h hop hstep => ascending_step hordered hop h hstep)
    ⟨fun e he => absurd he List.not_mem_nil, .nil⟩ hrun
  intro it e he hsame
  exact hasc.find hordered hid he (by rw [sameKey_bdIdLt]; exact hsame)

-- of two discordant ids the library puts the second to the left of the first, where no lookup comes
example :
    let id (sAddr : UInt32) (sinPort : UInt16) : BdId :=
      ⟨⟨afInet, sAddr, sinPort⟩, ⟨List.replicate 20 7, rfl⟩⟩
    (SearchTree.node false (.node false .leaf (id 2 1, ()) .leaf) (id 1 2, ()) .leaf).find bdIdLt
      (id 2 1) = none := by
  decide

end BdTunnelManager

end BitDht
