import BitDht.Dht.Honest
import BitDht.Tunnel.Disconnect
import BitDht.Udp.Stack

/-!
# Tunnels — what the tunnels of a network send

A tunnel sends a NEWCONN only to who its user has connected, and a REPLY_NEWCONN only for a NEWCONN of the
same transaction id that came from there.  `TunnelSane` has what holds of a tunnel, and the lemmas below
that each of its functions keeps it.
-/

namespace BitDht

open Container Network Outcome

variable {mFns : BdDhtFunctions} {ι : Type}

namespace DhtNet

/-- The actions and the packets of a network of programs so far. -/
abbrev HostHistory (ι : Type) := List (Entry ι HostAct UdpPkt)

/-- The user has connected the peer. -/
def Connected (h : HostHistory ι) (i : ι) (id : BdId) : Prop :=
  ∃ now r sinFamily, .act i (.tunnelRequest now r) ∈ h ∧ r.op = .connectNode id sinFamily

variable (net : DhtNet ι) (mFns)

/-- A NEWCONN has been sent to `j` from `addr`, by the node or by the tunnel there. -/
def Newconn (h : HostHistory ι) (j : ι) (addr : SockaddrIn) (transId : BdToken) : Prop :=
  ∃ i dst pkt, net.addr i = addr ∧ dst.addr = net.addr j ∧ .sent i pkt ∈ h ∧
    ((MsgoutCall.askMyip dst transId).MadeBy mFns (net.id i) (msgOf pkt) ∨
      pkt = wholePkt ((TunnelCall.newconn dst transId).packet (net.id i)))

/-- What is behind a message of the tunnel of `j`. -/
def TunnelSound (h : HostHistory ι) (j : ι) : TunnelCall → Prop
  | .newconn dhtId _ => Connected h j dhtId
  | .replyNewconn tunnelId transId => net.Real tunnelId ∧ net.Newconn mFns h j tunnelId.addr transId

/-- A packet of a node, or one of a tunnel with something behind it. -/
def Carried (h : HostHistory ι) (j : ι) (pkt : UdpPkt) : Prop :=
  (∃ c : MsgoutCall, c.MadeBy mFns (net.id j) (msgOf pkt) ∧
    ∀ id ∈ c.bdIds, id.addr.sinFamily = afInet) ∨
  ∃ t : TunnelSend, pkt = wholePkt (t.call.packet (net.id j)) ∧ net.TunnelSound mFns h j t.call

/-- What holds of a tunnel. -/
structure TunnelSane (h : HostHistory ι) (i : ι) (c : BdTunnelManager) : Prop where
  mOwnId : c.mOwnId = net.id i
  peers : ∀ e ∈ c.mTunnelPeers.entries, Connected h i e.1
  requests : ∀ id ∈ c.mTunnelRequests, Connected h i id
  distinct : c.mTunnelRequests.Pairwise (fun a b => bdIdEq a b = false)
  queue : ∀ m ∈ c.mOutgoingMsgs, ∃ t : TunnelSend,
    m = t.call.packet (net.id i) ∧ net.TunnelSound mFns h i t.call
  incoming : ∀ m ∈ c.mIncomingMsgs, ∃ j pkt, .sent j pkt ∈ h ∧ pkt.toAddr = net.addr i ∧
    m = ⟨pkt.data, net.addr j⟩

variable {net} {mFns}

section mono

variable {h h' : HostHistory ι} (hh : h <+: h')

include hh

theorem Connected.mono {i : ι} {id : BdId} (hc : Connected h i id) : Connected h' i id := by
  rcases hc with ⟨now, r, sinFamily, hmem, hop⟩
  exact ⟨now, r, sinFamily, hh.subset hmem, hop⟩

theorem TunnelSound.mono {j : ι} {c : TunnelCall} (hsound : net.TunnelSound mFns h j c) :
    net.TunnelSound mFns h' j c := by
  cases c with
  | newconn dhtId transId => exact Connected.mono hh hsound
  | replyNewconn tunnelId transId =>
      rcases hsound with ⟨hreal, i, dst, pkt, hi, hdst, hmem, hpkt⟩
      exact ⟨hreal, i, dst, pkt, hi, hdst, hh.subset hmem, hpkt⟩

theorem Carried.mono {j : ι} {pkt : UdpPkt} (hpkt : net.Carried mFns h j pkt) :
    net.Carried mFns h' j pkt := by
  rcases hpkt with hmade | ⟨t, ht, hsound⟩
  · exact .inl hmade
  · exact .inr ⟨t, ht, hsound.mono hh⟩

theorem TunnelSane.mono {i : ι} {c : BdTunnelManager} (hc : net.TunnelSane mFns h i c) :
    net.TunnelSane mFns h' i c where
  mOwnId := hc.mOwnId
  peers := fun e he => (hc.peers e he).mono hh
  requests := fun id hid => (hc.requests id hid).mono hh
  distinct := hc.distinct
  queue := by
    intro m hm
    rcases hc.queue m hm with ⟨t, ht, hsound⟩
    exact ⟨t, ht, hsound.mono hh⟩
  incoming := by
    intro m hm
    rcases hc.incoming m hm with ⟨j, pkt, hmem, hrest⟩
    exact ⟨j, pkt, hh.subset hmem, hrest⟩

end mono

/-- A message with something behind it can be read by anyone. -/
theorem TunnelSound.argsOk {h : HostHistory ι} {j : ι} {c : TunnelCall}
    (hsound : net.TunnelSound mFns h j c) (hlen : c.transId.len ≤ bitdhtTokenMaxLen)
    (own : BdNodeId) : (c.msg own).ArgsOk := by
  refine ⟨(c.msg_short own hlen).tokens, ?_⟩
  cases c with
  | newconn dhtId transId => exact fun _ hid => absurd hid List.not_mem_nil
  | replyNewconn tunnelId transId => exact List.forall_mem_singleton.2 hsound.1.inet

/-- A tunnel answers only a NEWCONN of a packet that was sent to it. -/
theorem Carried.understands {h : HostHistory ι} {i j : ι} {pkt : UdpPkt}
    (hpkt : net.Carried mFns h j pkt) (hmem : .sent j pkt ∈ h) (haddr : pkt.toAddr = net.addr i) :
    BdTunnelNode.Understands (net.TunnelSound mFns h i) ⟨pkt.data, net.addr j⟩ := by
  rcases hpkt with ⟨c, hmade, hinet⟩ | ⟨t, rfl, _⟩
  · refine BdTunnelNode.understands_madeBy hmade hinet ?_
    rintro dst transId rfl
    exact ⟨⟨j, rfl⟩, j, dst, pkt, rfl, hmade.addr.symm.trans haddr, hmem, .inl hmade⟩
  · refine BdTunnelNode.understands_packet t.len_le (t.argsOk (net.id j)) ?_
    intro dst transId ht
    rw [ht] at hmem haddr
    exact ⟨⟨j, rfl⟩, j, dst, _, rfl, haddr, hmem, .inr rfl⟩

/-! ## What a tunnel does -/

namespace TunnelSane

variable {h : HostHistory ι} {i : ι} {c : BdTunnelManager}

theorem new (net : DhtNet ι) (mFns : BdDhtFunctions) (h : HostHistory ι) (i : ι) (lib : PeerLib) :
    net.TunnelSane mFns h i (BdTunnelManager.new (net.id i) lib) where
  mOwnId := rfl
  peers := fun _ he => absurd he List.not_mem_nil
  requests := fun _ hid => absurd hid List.not_mem_nil
  distinct := .nil
  queue := fun _ hm => absurd hm List.not_mem_nil
  incoming := fun _ hm => absurd hm List.not_mem_nil

/-- The node has sent some messages, and the manager is as before. -/
theorem sends (hc : net.TunnelSane mFns h i c) {node : BdTunnelNode}
    (hnode : BdTunnelNode.Sends (net.TunnelSound mFns h i) c.toBdTunnelNode node) :
    net.TunnelSane mFns h i { c with toBdTunnelNode := node } where
  mOwnId := hnode.mOwnId.trans hc.mOwnId
  peers := hc.peers
  requests := fun id hid => hc.requests id (hnode.requests.subset hid)
  distinct := by
    refine hnode.requests.symm.pairwise hc.distinct ?_
    intro a b hab
    rwa [bdIdEq_comm]
  queue := by
    rcases hnode.queue with ⟨calls, hqueue, hcalls⟩
    intro m hm
    rw [hqueue, hc.mOwnId] at hm
    rcases List.mem_append.1 hm with hm | hm
    · exact hc.queue m hm
    · rcases List.mem_map.1 hm with ⟨t, ht, rfl⟩
      rcases hcalls t ht with ⟨hlen, hsound⟩
      exact ⟨⟨t, hsound.argsOk hlen⟩, rfl, hsound⟩
  incoming := fun m hm => hc.incoming m (hnode.incoming hm)

theorem addTunnel (hc : net.TunnelSane mFns h i c) {id : BdId} (hid : Connected h i id) :
    net.TunnelSane mFns h i { c with toBdTunnelNode := c.toBdTunnelNode.addTunnel id } := by
  unfold BdTunnelNode.addTunnel
  split_ifs with hany
  · exact hc
  · refine ⟨hc.mOwnId, hc.peers, ?_, ?_, hc.queue, hc.incoming⟩
    · intro x hx
      rcases List.mem_append.1 hx with hx | hx
      · exact hc.requests x hx
      · rw [List.mem_singleton.1 hx]
        exact hid
    · refine List.pairwise_append.2 ⟨hc.distinct, List.pairwise_singleton _ _, ?_⟩
      intro a ha b hb
      rw [List.mem_singleton.1 hb]
      rw [Bool.not_eq_true, List.any_eq_false] at hany
      exact Bool.eq_false_of_not_eq_true (hany a ha)

/-- The peers are added to the requests, unless they are there already. -/
theorem addTunnels (hc : net.TunnelSane mFns h i c) : net.TunnelSane mFns h i c.addTunnels := by
  have hloop : ∀ {peers : List (BdId × BdTunnelPeer)} {c : BdTunnelManager},
      (∀ e ∈ peers, Connected h i e.1) → net.TunnelSane mFns h i c →
      net.TunnelSane mFns h i { c with
        toBdTunnelNode := peers.foldl (fun s it => s.addTunnel it.1) c.toBdTunnelNode } := by
    intro peers
    induction peers with
    | nil => exact fun _ hc => hc
    | cons it peers ih =>
        exact fun hpeers hc => ih (fun e he => hpeers e (List.mem_cons_of_mem it he))
          (hc.addTunnel (hpeers it List.mem_cons_self))
  exact hloop hc.peers hc

theorem stopTunnel (hc : net.TunnelSane mFns h i c) (now : Int) :
    net.TunnelSane mFns h i (c.stopTunnel now) where
  mOwnId := hc.mOwnId
  peers := by
    intro e he
    rw [BdTunnelManager.stopTunnel, CmpMap.entries_mapVals] at he
    rcases List.mem_map.1 he with ⟨e', he', rfl⟩
    exact hc.peers e' he'
  requests := hc.requests
  distinct := hc.distinct
  queue := fun _ hm => absurd hm List.not_mem_nil
  incoming := hc.incoming

theorem changeMode (hc : net.TunnelSane mFns h i c) (now : Int) :
    net.TunnelSane mFns h i (c.changeMode now) := by
  have hsame : ∀ mode ts, net.TunnelSane mFns h i { c with mMode := mode, mModeTS := ts } :=
    fun _ _ => ⟨hc.mOwnId, hc.peers, hc.requests, hc.distinct, hc.queue, hc.incoming⟩
  unfold BdTunnelManager.changeMode
  cases hmode : c.mMode with
  | off => exact hc
  | startup =>
      dsimp only
      split_ifs
      · exact ⟨hc.mOwnId, hc.peers, hc.requests, hc.distinct, hc.queue, hc.incoming⟩
      · exact hsame _ _
      · exact hc
  | newconn =>
      dsimp only
      split_ifs
      · exact (hsame .startup now).addTunnels
      · exact hc
  | failed =>
      have hstop := hc.stopTunnel now
      exact ⟨hstop.mOwnId, hstop.peers, hstop.requests, hstop.distinct, hstop.queue, hstop.incoming⟩

/-- An iteration comes back. -/
theorem iteration (hc : net.TunnelSane mFns h i c)
    (hh : ∀ {j pkt}, .sent j pkt ∈ h → net.Carried mFns h j pkt) (now : Int) (env : TunnelEnv) :
    ∃ c', c.iteration now env = .ok c' ∧ net.TunnelSane mFns h i c' := by
  have hswitch := hc.changeMode now
  rw [BdTunnelManager.iteration]
  dsimp only
  split_ifs
  · exact ⟨_, rfl, hswitch.mOwnId, hswitch.peers, hswitch.requests, hswitch.distinct, hswitch.queue,
      fun _ hm => absurd hm List.not_mem_nil⟩
  · have hmsgs : ∀ m ∈ (c.changeMode now).mIncomingMsgs,
        BdTunnelNode.Understands (net.TunnelSound mFns h i) m := by
      intro m hm
      rcases hswitch.incoming m hm with ⟨j, pkt, hmem, haddr, rfl⟩
      exact (hh hmem).understands hmem haddr
    rcases BdTunnelNode.iteration_sends hmsgs (fun id hid _ _ => hswitch.requests id hid) env with
      ⟨node, hnode, hsends⟩
    exact ⟨_, (congrArg (· >>= _) hnode).trans rfl, hswitch.sends hsends⟩

/-- A call of the user comes back, too. -/
theorem request {now : Int} {r : TunnelUserCall} (hc : net.TunnelSane mFns h i c)
    (hmem : .act i (.tunnelRequest now r) ∈ h) :
    ∃ c', tunnelStep c (now, r.op) = .ok c' ∧ net.TunnelSane mFns h i c' := by
  rcases hop : r.op with _ | _ | ⟨id, sinFamily⟩ | id | _ | _ | _
  case startTunnel =>
    exact ⟨_, rfl, hc.mOwnId, hc.peers, hc.requests, hc.distinct, hc.queue, hc.incoming⟩
  case stopTunnel => exact ⟨_, rfl, hc.stopTunnel now⟩
  case connectNode =>
    refine ⟨_, rfl, ?_⟩
    rw [BdTunnelManager.connectNode]
    split_ifs
    · exact hc
    · refine ⟨hc.mOwnId, ?_, hc.requests, hc.distinct, hc.queue, hc.incoming⟩
      intro e he
      rcases CmpMap.mem_assign he with hnew | ⟨old, hold, hkey⟩
      · exact hnew ▸ ⟨now, r, sinFamily, hmem, hop⟩
      · exact hkey ▸ hc.peers old hold
  case disconnectNode =>
    refine ⟨_, rfl, ?_⟩
    rw [BdTunnelManager.disconnectNode]
    split
    · exact hc
    · refine ⟨hc.mOwnId, ?_, hc.requests, hc.distinct, hc.queue, hc.incoming⟩
      intro e he
      rw [CmpMap.entries_erase] at he
      exact hc.peers e ((List.eraseIdx_sublist _ _).subset he)
  case incomingMsg | outgoingMsg | iteration =>
    have hno := r.isRequest
    rw [hop] at hno
    exact hno.elim

/-- A tick sends whole messages. -/
theorem tick (hc : net.TunnelSane mFns h i c) :
    ∃ more pkts c', UdpTunnel.tick c = .ok (more, pkts, c') ∧ net.TunnelSane mFns h i c' ∧
      ∀ pkt ∈ pkts, ∃ t : TunnelSend, pkt = wholePkt (t.call.packet (net.id i)) ∧
        net.TunnelSound mFns h i t.call := by
  rcases UdpTunnel.tick_eq c with ⟨more, htick⟩
  refine ⟨more, _, _, htick, ⟨hc.mOwnId, hc.peers, hc.requests, hc.distinct,
    fun m hm => hc.queue m (List.mem_of_mem_drop hm), hc.incoming⟩, ?_⟩
  intro pkt hpkt
  rcases List.mem_map.1 hpkt with ⟨m, hm, rfl⟩
  rcases hc.queue m (List.mem_of_mem_take hm) with ⟨t, rfl, hsound⟩
  exact ⟨t, cutPkt_eq (t.call.length_packet_le _ t.len_le), hsound⟩

/-- A packet that was sent to it waits. -/
theorem incomingMsg (hc : net.TunnelSane mFns h i c) {j : ι} {pkt : UdpPkt} (hmem : .sent j pkt ∈ h)
    (haddr : pkt.toAddr = net.addr i) : net.TunnelSane mFns h i { c with
      toBdTunnelNode := c.toBdTunnelNode.incomingMsg (net.addr j) pkt.data } where
  mOwnId := hc.mOwnId
  peers := hc.peers
  requests := hc.requests
  distinct := hc.distinct
  queue := hc.queue
  incoming := by
    intro m hm
    rcases List.mem_append.1 hm with hm | hm
    · exact hc.incoming m hm
    · exact ⟨j, pkt, hmem, haddr, List.mem_singleton.1 hm⟩

end TunnelSane

end DhtNet

end BitDht
