import BitDht.Dht.Net

/-!
# Honest — what holds in a network of nodes

Between nodes that all run this program a node knows nobody but nodes of the network, each answer is one to
a request, and holes are punched only where one of the two has asked for the other.  The tunnels among them
change nothing of it.  No call fails, as far as the writes of `bitdht_decrypt` behind its scratch are taken
as lost: a NEWCONN or REPLY_NEWCONN with a trailer makes such a write.
`Sane` has what holds of a node and `Sound` what holds of the messages; every change of `Causes` keeps
both, so every event of the network does (`invariant`).
-/

namespace BitDht

open Container Network Outcome

variable {mFns : BdDhtFunctions} {ι : Type}

namespace DhtNet

/-! ## What has happened -/

/-- The actions and the packets of a network so far. -/
abbrev History (ι : Type) := List (Entry ι NodeAct UdpPkt)

/-- The message in a packet. -/
def msgOf (pkt : UdpPkt) : BdNodeNetMsg where
  data := pkt.data
  addr := pkt.toAddr

variable (net : DhtNet ι) (mFns)

/-- The node has sent the message of the call. -/
def Sent {α : Type} (h : List (Entry ι α UdpPkt)) (i : ι) (c : MsgoutCall) : Prop :=
  ∃ pkt, .sent i pkt ∈ h ∧ c.MadeBy mFns (net.id i) (msgOf pkt)

/-- The node at `addr` has sent a request to the node `j`. -/
def Requested (h : History ι) (j : ι) (addr : SockaddrIn) (request : BdId → MsgoutCall) : Prop :=
  ∃ i dst, net.addr i = addr ∧ dst.addr = net.addr j ∧ net.Sent mFns h i (request dst)

/-- Some node with one of the two ids has asked for a connection with the other. -/
def Wanted (h : History ι) (a b : BdNodeId) : Prop :=
  ∃ i now c other, .act i (.call now c) ∈ h ∧ c.call = .addConnReq other ∧
    (net.id i = a ∧ other = b ∨ net.id i = b ∧ other = a)

/-- What is behind a message of the node `j`. -/
def Sound (h : History ι) (j : ι) : MsgoutCall → Prop
  | .ping .. | .findNode .. | .askMyip .. => True
  | .pong id transId => net.Requested mFns h j id.addr (fun dst => .ping dst transId)
  | .replyFindNode id transId peers => ∃ (query : BdNodeId) (s : BdNode mFns),
      net.Requested mFns h j id.addr (fun dst => .findNode dst transId query) ∧
        Knows net.Real net.Real s ∧ peers = s.nearestTo query
  | .replyAskMyip id transId =>
      net.Real id ∧ net.Requested mFns h j id.addr (fun dst => .askMyip dst transId)
  | .broadcastConn _ _ nodeId peerId => net.Wanted h nodeId peerId
  | .askConn id _ _ peerId =>
      net.Real peerId ∧ ∀ i, net.addr i = id.addr → net.Wanted h (net.id i) peerId.id

/-- The message comes from a call of a `msgout_` function with something behind it. -/
def Justified (h : History ι) (j : ι) (m : BdNodeNetMsg) : Prop :=
  ∃ c : MsgoutCall, c.MadeBy mFns (net.id j) m ∧ net.Sound mFns h j c

/-- What holds of a node. -/
structure Sane (h : History ι) (i : ι) (s : BdNode mFns) : Prop where
  mOwnId : s.mOwnId = net.id i
  known : Knows net.Real net.Real s
  myIps : ∀ addr ∈ s.mMyIPs, addr = net.addr i
  remote : ∀ q ∈ s.mRemoteQueries,
    net.Requested mFns h i q.mId.addr (fun dst => .findNode dst q.mTransId q.mQuery)
  requests : ∀ e ∈ s.mConnectRequests.entries, net.Wanted h e.1 e.2
  punching : ∀ peerId ∈ s.mPunching, net.Real peerId ∧ net.Wanted h (net.id i) peerId.id
  queue : ∀ m ∈ s.mOutgoingMsgs, net.Justified mFns h i m

variable {net} {mFns}

theorem Sent.mono {α : Type} {h h' : List (Entry ι α UdpPkt)} {i : ι} {c : MsgoutCall}
    (hsent : net.Sent mFns h i c) (hh : h <+: h') : net.Sent mFns h' i c := by
  rcases hsent with ⟨pkt, hmem, hmade⟩
  exact ⟨pkt, hh.subset hmem, hmade⟩

section mono

variable {h h' : History ι} (hh : h <+: h')

include hh

theorem Requested.mono {j : ι} {addr : SockaddrIn} {request : BdId → MsgoutCall}
    (hreq : net.Requested mFns h j addr request) : net.Requested mFns h' j addr request := by
  rcases hreq with ⟨i, dst, hi, hdst, hsent⟩
  exact ⟨i, dst, hi, hdst, hsent.mono hh⟩

theorem Wanted.mono {a b : BdNodeId} (hwant : net.Wanted h a b) : net.Wanted h' a b := by
  rcases hwant with ⟨i, now, c, other, hmem, hrest⟩
  exact ⟨i, now, c, other, hh.subset hmem, hrest⟩

theorem Sound.mono {j : ι} {c : MsgoutCall} (hsound : net.Sound mFns h j c) :
    net.Sound mFns h' j c := by
  cases c with
  | ping | findNode | askMyip => trivial
  | pong id transId => exact Requested.mono hh hsound
  | replyFindNode id transId peers =>
      rcases hsound with ⟨query, s, hreq, hrest⟩
      exact ⟨query, s, hreq.mono hh, hrest⟩
  | replyAskMyip id transId => exact ⟨hsound.1, hsound.2.mono hh⟩
  | broadcastConn id tid nodeId peerId => exact Wanted.mono hh hsound
  | askConn id tid nodeId peerId => exact ⟨hsound.1, fun i hi => (hsound.2 i hi).mono hh⟩

theorem Justified.mono {j : ι} {m : BdNodeNetMsg} (hm : net.Justified mFns h j m) :
    net.Justified mFns h' j m := by
  rcases hm with ⟨c, hmade, hsound⟩
  exact ⟨c, hmade, hsound.mono hh⟩

theorem Sane.mono {i : ι} {s : BdNode mFns} (hs : net.Sane mFns h i s) : net.Sane mFns h' i s where
  mOwnId := hs.mOwnId
  known := hs.known
  myIps := hs.myIps
  remote := fun q hq => (hs.remote q hq).mono hh
  requests := fun e he => (hs.requests e he).mono hh
  punching := fun p hp => ⟨(hs.punching p hp).1, (hs.punching p hp).2.mono hh⟩
  queue := fun m hm => (hs.queue m hm).mono hh

end mono

theorem Wanted.symm {h : History ι} {a b : BdNodeId} (hwant : net.Wanted h a b) :
    net.Wanted h b a := by
  rcases hwant with ⟨i, now, c, other, hmem, hc, hids⟩
  exact ⟨i, now, c, other, hmem, hc, hids.symm⟩

/-- The ids of an ask_conn and of the other messages are ones of the network. -/
theorem Sound.inet {h : History ι} {j : ι} {c : MsgoutCall} (hsound : net.Sound mFns h j c) :
    ∀ id ∈ c.bdIds, id.addr.sinFamily = afInet := by
  intro id hid
  cases c with
  | ping | pong | findNode | askMyip | broadcastConn => exact absurd hid List.not_mem_nil
  | replyFindNode dst transId peers =>
      rcases hsound with ⟨query, s, _, hknown, rfl⟩
      have hnearest := s.mNodeSpace.nearest_findNearestNodes query
        BdNode.bitdhtQueryNeighbourPeers.toNat
      exact (hknown.space id (BdSpace.mem_nearest hnearest hid)).inet
  | replyAskMyip tunnelId transId =>
      rw [List.mem_singleton.1 hid]
      exact hsound.1.inet
  | askConn dst tid nodeId peerId =>
      rw [List.mem_singleton.1 hid]
      exact hsound.1.inet

/-! ## Changes -/

/-- What a change may bring to the node `i`, besides peers. -/
def Allowed (net : DhtNet ι) (mFns : BdDhtFunctions) (h : History ι) (i : ι) : NodeEffect → Prop
  | .send c => c.ArgsFit ∧ net.Sound mFns h i c
  | .queueQuery _ id query transId _ =>
      net.Requested mFns h i id.addr (fun dst => .findNode dst transId query)
  | .mRemoteQueries queue => ∀ q ∈ queue,
      net.Requested mFns h i q.mId.addr (fun dst => .findNode dst q.mTransId q.mQuery)
  | .connect id other => net.Wanted h id.id other
  | .addMyIp addr => addr = net.addr i
  | .addPunching peerId => net.Real peerId ∧ net.Wanted h (net.id i) peerId.id
  | _ => True

namespace Sane

variable {h : History ι} {i : ι} {s s' : BdNode mFns}

theorem apply (hs : net.Sane mFns h i s) {e : NodeEffect} (hknown : e.Known net.Real net.Real)
    (he : net.Allowed mFns h i e) : net.Sane mFns h i (e.apply s) := by
  have hafter := hs.known.apply hknown
  cases e with
  | send c =>
      have hmade : c.MadeBy mFns (net.id i) (c.packet s) := ⟨s, hs.mOwnId, he.1, rfl⟩
      rcases c.queued_eq s with ⟨tokens, rand, hqueued⟩
      rw [NodeEffect.apply, hqueued] at hafter ⊢
      refine ⟨hs.mOwnId, hafter, hs.myIps, hs.remote, hs.requests, hs.punching, ?_⟩
      intro m hm
      rcases List.mem_append.1 hm with hm | hm
      · exact hs.queue m hm
      · rw [List.mem_singleton.1 hm]
        exact ⟨c, hmade, he.2⟩
  | queueQuery now id query transId queryType =>
      refine ⟨hs.mOwnId, hafter, hs.myIps, ?_, hs.requests, hs.punching, hs.queue⟩
      intro q hq
      rcases List.mem_append.1 hq with hq | hq
      · exact hs.remote q hq
      · rw [List.mem_singleton.1 hq]
        exact he
  | mRemoteQueries queue =>
      exact ⟨hs.mOwnId, hafter, hs.myIps, he, hs.requests, hs.punching, hs.queue⟩
  | connect id other =>
      refine ⟨hs.mOwnId, hafter, hs.myIps, hs.remote, ?_, hs.punching, hs.queue⟩
      intro e hmem
      rcases OrdMap.mem_entries_assign hmem with rfl | hold
      · exact he
      · exact hs.requests e hold
  | addMyIp addr =>
      refine ⟨hs.mOwnId, hafter, ?_, hs.remote, hs.requests, hs.punching, hs.queue⟩
      intro a ha
      rcases List.mem_append.1 ha with ha | ha
      · exact hs.myIps a ha
      · rw [List.mem_singleton.1 ha]
        exact he
  | addPunching peerId =>
      refine ⟨hs.mOwnId, hafter, hs.myIps, hs.remote, hs.requests, ?_, hs.queue⟩
      intro p hp
      rcases List.mem_append.1 hp with hp | hp
      · exact hs.punching p hp
      · rw [List.mem_singleton.1 hp]
        exact he
  | nextQuery bdRandomMidId now endId =>
      rw [NodeEffect.apply, BdNode.turn] at hafter ⊢
      split
      · exact hs
      · rename_i query queries hqueries
        rw [hqueries] at hafter
        exact ⟨hs.mOwnId, hafter, hs.myIps, hs.remote, hs.requests, hs.punching, hs.queue⟩
  | newTransId | mPotentialPeers | addPeer | checkPotentialPeer | onRecvCallback | outOfDatePeer =>
      exact ⟨hs.mOwnId, hafter, hs.myIps, hs.remote, hs.requests, hs.punching, hs.queue⟩

theorem effects (hs : net.Sane mFns h i s) {Cause : NodeEffect → Prop} (hrun : Effects Cause s s')
    (hcause : ∀ e, Cause e → e.Known net.Real net.Real ∧ net.Allowed mFns h i e) :
    net.Sane mFns h i s' :=
  hrun.inv (fun hs he => hs.apply (hcause _ he).1 (hcause _ he).2) hs

end Sane

/-! ## Packets -/

/-- Each of the two in a pair is wanted by the other one. -/
theorem Wanted.other {h : History ι} {m : BroadcastConn} (hparty : m.FromParty)
    (hwant : net.Wanted h m.nodeId m.peerId) : net.Wanted h m.id.id m.other := by
  rw [BroadcastConn.other]
  split_ifs with hnode
  · rw [hnode]
    exact hwant
  · rw [hparty.resolve_left hnode]
    exact hwant.symm

/-- The messages about a match name and go to nodes of the network. -/
theorem real_of_mem_asks {s : BdNode mFns} {m : BroadcastConn} {a : AskConn}
    (hknown : Knows net.Real net.Real s) (hm : net.Real m.id) (ha : a ∈ s.asks m) :
    net.Real a.id ∧ net.Real a.peerId := by
  by_cases hparty : m.FromParty
  · have hhear : s.hear m = (NodeEffect.connect m.id m.other).apply s := by
      rw [BdNode.hear, if_pos hparty]
      rfl
    have haddrs := (hknown.apply (e := .connect m.id m.other) hm).addrs
    rw [BdNode.asks, if_pos hparty, hhear] at ha
    split at ha
    · exact absurd ha List.not_mem_nil
    · rename_i addr hfind
      have hpeer := haddrs m.other addr hfind
      rcases List.mem_pair.1 ha with rfl | rfl
      · exact ⟨hpeer, hm⟩
      · exact ⟨hm, hpeer⟩
  · rw [BdNode.asks, if_neg hparty] at ha
    exact absurd ha List.not_mem_nil

section received

variable {h : History ι} {i j : ι} {s : BdNode mFns} {c : MsgoutCall} {vid : BdToken} {now : Int}
  {junk : Junk} {e : NodeEffect}

/-- The sender of a message and the peers in it are nodes of the network. -/
theorem Sound.known (hsound : net.Sound mFns h j c)
    (he : (c.handler (net.id j) vid (net.addr j)).Causes s now junk e) :
    e.Known net.Real net.Real := by
  refine he.known ?_ ?_
  · intro id hid
    have hself : id = ⟨net.addr j, some (net.id j)⟩ := by
      cases c with
      | ping | pong | findNode | replyFindNode | broadcastConn => exact (Option.some.inj hid).symm
      | askMyip | replyAskMyip | askConn => cases hid
    rw [hself]
    exact ⟨j, rfl⟩
  · intro it hit
    cases c with
    | replyFindNode id transId peers =>
        rcases hsound with ⟨query, r, _, hknown, rfl⟩
        have hnearest := r.mNodeSpace.nearest_findNearestNodes query
          BdNode.bitdhtQueryNeighbourPeers.toNat
        exact hknown.space it (BdSpace.mem_nearest hnearest hit)
    | _ => exact absurd hit List.not_mem_nil

/-- What the handler of a sound message does is allowed. -/
theorem Sound.allowed (hsound : net.Sound mFns h j c) (hs : net.Sane mFns h i s)
    (hsent : net.Sent mFns h j c) (hdst : c.receiver.addr = net.addr i)
    (he : (c.handler (net.id j) vid (net.addr j)).Causes s now junk e) :
    net.Allowed mFns h i e := by
  cases c with
  | ping id transId =>
      cases he with
      | pong _ hlen => exact ⟨hlen, j, id, rfl, hdst, hsent⟩
      | newTransId | callback | peer => trivial
  | pong id transId =>
      cases he with
      | newTransId | callback | peer => trivial
  | findNode id transId query =>
      cases he with
      | findNode _ hlen _ => exact ⟨j, id, rfl, hdst, hsent⟩
      | newTransId | callback | peer => trivial
  | replyFindNode id transId peers =>
      cases he with
      | newTransId | callback | peer | nodes => trivial
  | askMyip id transId =>
      cases he with
      | replyAskMyip _ hlen => exact ⟨hlen, ⟨j, rfl⟩, j, id, rfl, hdst, hsent⟩
      | newTransId | callback => trivial
      | peer hid => cases hid
  | replyAskMyip tunnelId transId =>
      cases he with
      | myIp hown _ => exact hdst
      | newTransId | callback => trivial
      | peer hid => cases hid
  | broadcastConn id tid nodeId peerId =>
      cases he with
      | connect hparty => exact Wanted.other hparty hsound
      | askConn ha hlen =>
          have hself : net.Real (SrcId.bdId junk ⟨net.addr j, some (net.id j)⟩) := ⟨j, rfl⟩
          rcases real_of_mem_asks hs.known hself ha with ⟨hid, hpeer⟩
          have hparty : BroadcastConn.FromParty
              ⟨SrcId.bdId junk ⟨net.addr j, some (net.id j)⟩, tid, nodeId, peerId⟩ := by
            by_contra hno
            rw [BdNode.asks, if_neg hno] at ha
            exact absurd ha List.not_mem_nil
          have hwant := Wanted.other hparty hsound
          refine ⟨hlen, hpeer, ?_⟩
          intro k hk
          rw [← hid.id_eq hk]
          -- the message goes to one of the two and names the other one
          rcases ids_of_mem_asks ha with ⟨hother, hsender⟩ | ⟨hsender, hother⟩
          · rw [hother, hsender]
            exact hwant.symm
          · rw [hsender, hother]
            exact hwant
      | newTransId | callback => trivial
      | peer hid => cases hid
  | askConn id tid nodeId peerId =>
      cases he with
      | punching _ _ hown _ => exact ⟨hsound.1, hsound.2 i hdst.symm⟩
      | newTransId | callback => trivial
      | peer hid => cases hid

end received

/-! ## Actions -/

section actions

variable {h : History ι} {i : ι} {s s' : BdNode mFns}

/-- What the calls that send do is allowed. -/
theorem Sane.allowed (hs : net.Sane mFns h i s) {now : Int} {c : NodeCall} {e : NodeEffect}
    (he : c.Causes s now e) : net.Allowed mFns h i e := by
  cases he with
  | queue hqueue => exact fun q hq => hs.remote q (hqueue.subset hq)
  | @reply query hquery _ _ hlen =>
      have hnodes := length_findNearestNodes_le s.mNodeSpace query.mQuery
        BdNode.bitdhtQueryNeighbourPeers
      rw [← List.length_map (f := Prod.snd)] at hnodes
      exact ⟨⟨hlen, Int.ofNat_le.2 hnodes⟩, query.mQuery, s, hs.remote query hquery, hs.known, rfl⟩
  | broadcastConn it hmem hlen => exact ⟨hlen, hs.requests _ hmem⟩
  | pingPotential _ _ hlen | pingOutOfDate _ _ hlen | askMyip _ hlen | punch _ _ hlen =>
      exact ⟨hlen, trivial⟩
  | findNode _ _ _ _ _ hlen _ => exact ⟨hlen, trivial⟩
  | newTransId | pop | turn | outOfDate => trivial

/-- A call of the node's own comes back. -/
theorem Sane.callStep (hs : net.Sane mFns h i s) (now : Int) (c : LocalCall) :
    ∃ s', callStep s (now, c.call) = .ok s' ∧ net.Sane mFns (h ++ [.act i (.call now c)]) i s' := by
  have hlater : net.Sane mFns (h ++ [.act i (.call now c)]) i s := hs.mono (List.prefix_append _ _)
  rcases hs.known.callStep c.notPacket now with ⟨s', hrun, hknown⟩
  refine ⟨s', hrun, ?_⟩
  by_cases hsends : c.call.Sends
  · rcases callStep_effects (fun q hq => (hs.known.remote q hq).2) hsends now with
      ⟨s₁, hs₁, heffects⟩
    rw [hs₁, Except.ok.injEq] at hrun
    subst hrun
    exact hlater.effects heffects (fun e he => ⟨he.known hs.known, hlater.allowed he⟩)
  · rcases hc : c.call with _ | _ | _ | _ | _ | _ | _ | _ | _ | _ | _ | _ | _ | _
    case recvPkt junk word msg addr => exact absurd hc (c.notPacket junk word msg addr)
    case addConnReq id =>
      rw [hc] at hrun
      cases hrun
      refine ⟨hlater.mOwnId, hknown, hlater.myIps, hlater.remote, ?_, hlater.punching, hlater.queue⟩
      intro e he
      rcases OrdMap.mem_entries_assign he with rfl | he
      · exact ⟨i, now, c, id, List.mem_append_right _ (List.mem_singleton.2 rfl), hc,
          .inl ⟨hs.mOwnId.symm, rfl⟩⟩
      · exact hlater.requests e he
    case shutdownNode =>
      rw [hc] at hrun
      cases hrun
      exact ⟨hlater.mOwnId, hknown, hlater.myIps, fun _ hq => absurd hq List.not_mem_nil,
        hlater.requests, hlater.punching, fun _ hm => absurd hm List.not_mem_nil⟩
    case outgoingMsg =>
      rw [hc] at hrun
      cases hrun
      exact ⟨hlater.mOwnId, hknown, hlater.myIps, hlater.remote, hlater.requests, hlater.punching,
        fun m hm => hlater.queue m (List.mem_of_mem_drop hm)⟩
    case addQuery | clearQuery | addPotentialPeer | reloadStore =>
      rw [hc] at hrun
      cases hrun
      exact ⟨hlater.mOwnId, hknown, hlater.myIps, hlater.remote, hlater.requests, hlater.punching,
        hlater.queue⟩
    case pingPotential | askQueries | processRemoteQuery | pingOutOfDate | broadcastTo | punch =>
      rw [hc] at hsends
      exact absurd trivial hsends

/-- A tick sends whole messages. -/
theorem Sane.tick (hs : net.Sane mFns h i s) :
    ∃ n pkts s', s.tick = .ok (n, pkts, s') ∧ net.Sane mFns h i s' ∧
      ∀ pkt ∈ pkts, net.Justified mFns h i (msgOf pkt) := by
  refine ⟨_, _, _, s.tick_eq, ⟨hs.mOwnId, ⟨hs.known.space, hs.known.queries, hs.known.remote,
    hs.known.addrs⟩, hs.myIps, hs.remote, hs.requests, hs.punching,
    fun m hm => hs.queue m (List.mem_of_mem_drop hm)⟩, ?_⟩
  intro pkt hpkt
  rcases List.mem_map.1 hpkt with ⟨m, hm, rfl⟩
  have hjust := hs.queue m (List.mem_of_mem_take hm)
  rcases hjust with ⟨c, hmade, hsound⟩
  rw [cutPkt_eq hmade.length_le]
  exact ⟨c, hmade, hsound⟩

theorem Sane.addBlackList (hs : net.Sane mFns h i s) (addr : SockaddrIn) :
    net.Sane mFns h i (s.addBlackList addr) := by
  have hknown := hs.known.addBlackList addr
  rw [BdNode.addBlackList] at hknown ⊢
  split_ifs at hknown ⊢
  · exact hs
  · exact ⟨hs.mOwnId, hknown, hs.myIps, hs.remote, hs.requests, hs.punching, hs.queue⟩

/-- A packet that was justified when it was sent is dropped, or it gets its sender on the blacklist,
or its handler comes back. -/
theorem Sane.recvPkt (hs : net.Sane mFns h i s) (r : Arrival) {j : ι} {pkt : UdpPkt}
    (hmem : .sent j pkt ∈ h) (hjust : net.Justified mFns h j (msgOf pkt))
    (haddr : pkt.toAddr = net.addr i) :
    ∃ s', s.recvPktOn r.word r.now r.junk pkt.data pkt.data.length (net.addr j) = .ok s' ∧
      net.Sane mFns h i s' := by
  rcases hjust with ⟨c, hmade, hsound⟩
  rcases hmade.recvActOn hsound.inet s (net.addr j) r.word with ⟨act, hact, hcases⟩
  have hrun : s.recvPktOn r.word r.now r.junk pkt.data pkt.data.length (net.addr j) =
      s.perform r.now r.junk act := (congrArg (· >>= _) hact).trans rfl
  rcases hcases with rfl | rfl | ⟨vid, hvid, rfl⟩
  · exact ⟨s, hrun, hs⟩
  · exact ⟨s.addBlackList (net.addr j), hrun, hs.addBlackList (net.addr j)⟩
  · have hsent : net.Sent mFns h j c := ⟨pkt, hmem, hmade⟩
    have hdst : c.receiver.addr = net.addr i := hmade.addr.symm.trans haddr
    have htokens : ∀ tok ∈ (c.handler (net.id j) vid (net.addr j)).tokens,
        tok.len ≤ bitdhtTokenMaxLen := by
      rcases hmade with ⟨_, _, hfit, _⟩
      exact c.len_of_mem_tokens hfit hvid
    rcases s.msgin_effects htokens with ⟨s', hs', heffects⟩
    exact ⟨s', hrun.trans hs', hs.effects heffects
      (fun e he => ⟨hsound.known he, hsound.allowed hs hsent hdst he⟩)⟩

/-- The packet of a tunnel changes at most the blacklist. -/
theorem Sane.recvPkt_tunnel (hs : net.Sane mFns h i s) (r : Arrival) (j : ι) (t : TunnelSend) :
    ∃ s', s.recvPktOn r.word r.now r.junk (t.call.packet (net.id j)).data
      (t.call.packet (net.id j)).data.length (net.addr j) = .ok s' ∧ net.Sane mFns h i s' := by
  rcases TunnelCall.recvActOn (net.id j) t.len_le s (net.addr j) r.word with ⟨act, hact, hcases⟩
  have hrun : s.recvPktOn r.word r.now r.junk (t.call.packet (net.id j)).data
      (t.call.packet (net.id j)).data.length (net.addr j) = s.perform r.now r.junk act :=
    (congrArg (· >>= _) hact).trans rfl
  rcases hcases with rfl | rfl
  · exact ⟨s, hrun, hs⟩
  · exact ⟨s.addBlackList (net.addr j), hrun, hs.addBlackList (net.addr j)⟩

end actions

/-! ## Runs -/

theorem Sane.new (net : DhtNet ι) (i : ι) : net.Sane mFns [] i ((net.start mFns).state i) where
  mOwnId := rfl
  known := .new ..
  myIps := fun _ ha => absurd ha List.not_mem_nil
  remote := fun _ hq => absurd hq List.not_mem_nil
  requests := fun _ he => absurd he List.not_mem_nil
  punching := fun _ hp => absurd hp List.not_mem_nil
  queue := fun _ hm => absurd hm List.not_mem_nil

/-- The packet is one of a tunnel. -/
def FromTunnel (net : DhtNet ι) (h : History ι) (j : ι) (pkt : UdpPkt) : Prop :=
  ∃ t : TunnelSend, .act j (.tunnel t) ∈ h ∧ pkt = wholePkt (t.call.packet (net.id j))

/-- A packet with something behind it. -/
def Good (net : DhtNet ι) (mFns : BdDhtFunctions) (h : History ι) (j : ι) (pkt : UdpPkt) : Prop :=
  net.Justified mFns h j (msgOf pkt) ∨ net.FromTunnel h j pkt

theorem Good.mono {h h' : History ι} (hh : h <+: h') {j : ι} {pkt : UdpPkt}
    (hgood : net.Good mFns h j pkt) : net.Good mFns h' j pkt := by
  rcases hgood with hjust | ⟨t, hmem, hpkt⟩
  · exact .inl (hjust.mono hh)
  · exact .inr ⟨t, hh.subset hmem, hpkt⟩

theorem Sane.recvPkt_good {h : History ι} {i : ι} {s : BdNode mFns} (hs : net.Sane mFns h i s)
    (r : Arrival) {j : ι} {pkt : UdpPkt} (hmem : .sent j pkt ∈ h) (hgood : net.Good mFns h j pkt)
    (haddr : pkt.toAddr = net.addr i) :
    ∃ s', s.recvPktOn r.word r.now r.junk pkt.data pkt.data.length (net.addr j) = .ok s' ∧
      net.Sane mFns h i s' := by
  rcases hgood with hjust | ⟨t, _, rfl⟩
  · exact hs.recvPkt r hmem hjust haddr
  · exact hs.recvPkt_tunnel r j t

theorem invariant (net : DhtNet ι) (mFns : BdDhtFunctions) :
    Invariant (net.system mFns) (net.Sane mFns) (net.Good mFns) where
  local_mono := fun hh hs => hs.mono hh
  good_mono := fun hh hm => hm.mono hh
  act := by
    intro h i s a hs
    cases a with
    | call now c =>
        rcases hs.callStep now c with ⟨s', hrun, hs'⟩
        exact ⟨s', [], (congrArg (· >>= _) hrun).trans rfl, hs', fun _ hm => absurd hm List.not_mem_nil⟩
    | tick =>
        have hlater : net.Sane mFns (h ++ [.act i .tick]) i s := hs.mono (List.prefix_append _ _)
        rcases hlater.tick with ⟨n, pkts, s', hrun, hs', hpkts⟩
        exact ⟨s', pkts, (congrArg (· >>= _) hrun).trans rfl, hs', fun m hm => .inl (hpkts m hm)⟩
    | tunnel t =>
        have hlater : net.Sane mFns (h ++ [.act i (.tunnel t)]) i s := hs.mono (List.prefix_append _ _)
        have hsaid : .act i (.tunnel t) ∈ h ++ [.act i (.tunnel t)] :=
          List.mem_append_right _ List.mem_cons_self
        exact ⟨s, _, rfl, hlater, List.forall_mem_singleton.2 (.inr ⟨t, hsaid, rfl⟩)⟩
  recv := by
    intro h i s r j pkt hs hmem hgood haddr
    rcases hs.recvPkt_good r hmem hgood (of_decide_eq_true haddr) with ⟨s', hrun, hs'⟩
    exact ⟨s', [], (congrArg (· >>= _) hrun).trans rfl, hs', fun _ hm => absurd hm List.not_mem_nil⟩

/-- Every run of a network comes to an end, with nodes and packets as they should be. -/
theorem run [DecidableEq ι] (net : DhtNet ι) (mFns : BdDhtFunctions)
    (events : List (Event ι NodeAct Arrival)) :
    ∃ w, events.foldlM (net.system mFns).step (net.start mFns) = .ok w ∧
      Holds (net.Sane mFns) (net.Good mFns) w :=
  (net.invariant mFns).run ⟨Sane.new net, chronicle_nil⟩ events

end DhtNet

end BitDht
