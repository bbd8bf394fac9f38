import BitDht.Dht.Tunnels
import BitDht.Manager.Sources

/-!
# Hosts — a network of whole programs

Here each node of a network is a program, with its stack, its DHT and its tunnel.  Users call the managers,
threads tick and make iterations, receivers come and go, and a packet waits with the first receiver until
that makes an iteration.  Each event of such a network is a run of events of the network of nodes
(`Refines.step`): an iteration is some calls and the delivery of packets that have waited.  So every run is
one of the nodes, and what holds of all runs there holds here.
-/

namespace BitDht

open Container Network Outcome

variable {mFns : BdDhtFunctions} {ι : Type}

namespace DhtNet

variable (net : DhtNet ι)

def hosts (mFns : BdDhtFunctions) : System ι (Host mFns) HostAct UdpPkt Unit Fault where
  act _ h a := h.act a
  recv _ h _ sender pkt := do
    let h ← h.recvPkt pkt.data (net.addr sender)
    pure (h, [])
  addressed pkt i := decide (pkt.toAddr = net.addr i)

def startHosts (mFns : BdDhtFunctions) (lib : ι → PeerLib) (whiteNodes : ι → List BdPeer) :
    World ι (Host mFns) HostAct UdpPkt where
  state i :=
    { mReceivers := []
      dht := BdNodeManager.new (net.id i) (net.dhtVersion i) (net.store i) (whiteNodes i) (net.rand i)
      tunnel := BdTunnelManager.new (net.id i) (lib i) }
  log := []

variable {net}

/-! ## A node on its own -/

/-- The node `i` goes on by itself, while packets go out from its address, and it asks for connections with
no ids but some. -/
structure GoesOn [DecidableEq ι] (net : DhtNet ι) (i : ι) (Asks : BdNodeId → Prop) (pkts : List UdpPkt)
    (v v' : World ι (BdNode mFns) NodeAct UdpPkt) : Prop where
  run : ∃ events : List (Event ι NodeAct Arrival), events.foldlM (net.system mFns).step v = .ok v'
  others : ∀ j, j ≠ i → v'.state j = v.state j
  log : v.log <+: v'.log
  sent : sentOf v'.log = sentOf v.log ++ pkts.map (Prod.mk i)
  asks : ∀ j now (c : LocalCall) other, .act j (.call now c) ∈ v'.log → c.call = .addConnReq other →
    .act j (.call now c) ∈ v.log ∨ j = i ∧ Asks other
  holds : Holds (net.Sane mFns) (net.Good mFns) v'

namespace GoesOn

variable [DecidableEq ι] {i : ι} {Asks : BdNodeId → Prop} {pkts : List UdpPkt}
  {v v' : World ι (BdNode mFns) NodeAct UdpPkt}

theorem refl (Asks : BdNodeId → Prop) (hv : Holds (net.Sane mFns) (net.Good mFns) v) : GoesOn net i Asks [] v v where
  run := ⟨[], rfl⟩
  others := fun _ _ => rfl
  log := List.prefix_rfl
  sent := (List.append_nil _).symm
  asks := fun _ _ _ _ hmem _ => .inl hmem
  holds := hv

/-- One more event at the node. -/
theorem snoc (h : GoesOn net i Asks pkts v v') {e : Event ι NodeAct Arrival} {s : BdNode mFns}
    {entries : List (Entry ι NodeAct UdpPkt)}
    (hstep : (net.system mFns).step v' e = .ok (v'.next i s entries)) {l : List UdpPkt}
    (hsent : sentOf entries = l.map (Prod.mk i))
    (hasks : ∀ j now (c : LocalCall) other, .act j (.call now c) ∈ entries →
      c.call = .addConnReq other → j = i ∧ Asks other) :
    GoesOn net i Asks (pkts ++ l) v (v'.next i s entries) where
  run := by
    rcases h.run with ⟨events, hrun⟩
    refine ⟨events ++ [e], ?_⟩
    rw [List.foldlM_append, hrun, ok_bind, List.foldlM_cons, hstep, ok_bind]
    rfl
  others := fun j hj => (v'.state_next_ne hj s entries).trans (h.others j hj)
  log := h.log.trans (List.prefix_append _ _)
  sent := by
    rw [World.next, sentOf_append, h.sent, hsent, List.map_append, List.append_assoc]
  asks := by
    intro j now c other hmem hc
    rcases List.mem_append.1 hmem with hold | hnew
    · exact h.asks j now c other hold hc
    · exact .inr (hasks j now c other hnew hc)
  holds := by
    rcases (net.invariant mFns).step h.holds e with ⟨w, hw, hholds⟩
    rw [hstep, Except.ok.injEq] at hw
    exact hw ▸ hholds

/-- A call of the node. -/
theorem call (h : GoesOn net i Asks [] v v') (now : Int) (c : LocalCall)
    (hasks : ∀ other, c.call = .addConnReq other → Asks other) :
    Meets False (callStep (v'.state i) (now, c.call))
      (fun s => ∃ v'', GoesOn net i Asks [] v v'' ∧ v''.state i = s) := by
  rcases (h.holds.parties i).callStep now c with ⟨s, hs, _⟩
  have hact : (net.system mFns).act i (v'.state i) (.call now c) = .ok (s, []) :=
    (congrArg (· >>= _) hs).trans rfl
  refine Meets.of_ok hs ⟨_, h.snoc (System.step_act hact) (l := []) rfl ?_,
    v'.state_next_self i s _⟩
  intro j now' c' other hmem hc
  cases List.mem_singleton.1 hmem
  exact ⟨rfl, hasks other hc⟩

/-- A packet that was sent to the node arrives. -/
theorem recvPkt (h : GoesOn net i Asks [] v v') {j : ι} {pkt : UdpPkt} (hmem : .sent j pkt ∈ v.log)
    (haddr : pkt.toAddr = net.addr i) (r : Arrival) :
    Meets False ((v'.state i).recvPktOn r.word r.now r.junk pkt.data pkt.data.length (net.addr j))
      (fun s => ∃ v'', GoesOn net i Asks [] v v'' ∧ v''.state i = s) := by
  have hmem' := h.log.subset hmem
  have hgood := h.holds.messages.good (net.invariant mFns).good_mono hmem'
  rcases (h.holds.parties i).recvPkt_good r hmem' hgood haddr with ⟨s, hs, _⟩
  have hrecv : (net.system mFns).recv i (v'.state i) r j pkt = .ok (s, []) :=
    (congrArg (· >>= _) hs).trans rfl
  rcases System.exists_deliver hmem' (decide_eq_true haddr) hrecv with ⟨k, hk⟩
  exact Meets.of_ok hs ⟨_, h.snoc hk (l := []) rfl
    (fun _ _ _ _ hno => absurd hno List.not_mem_nil), v'.state_next_self i s _⟩

/-- The node ticks. -/
theorem tick (h : GoesOn net i Asks pkts v v') {n : Nat} {more : List UdpPkt} {s : BdNode mFns}
    (htick : (v'.state i).tick = .ok (n, more, s)) :
    ∃ v'', GoesOn net i Asks (pkts ++ more) v v'' ∧ v''.state i = s := by
  have hact : (net.system mFns).act i (v'.state i) .tick = .ok (s, more) :=
    (congrArg (· >>= _) htick).trans rfl
  refine ⟨_, h.snoc (System.step_act hact) ?_ ?_, v'.state_next_self i s _⟩
  · rw [sentOf_act, sentOf_sent]
  · intro j now c other hmem _
    rcases List.mem_cons.1 hmem with hno | hno
    · cases hno
    · rcases List.mem_map.1 hno with ⟨_, _, hno⟩
      cases hno

/-- The tunnel at the address of the node ticks. -/
theorem tunnelTick (h : GoesOn net i Asks pkts v v') (sends : List TunnelSend) :
    ∃ v'', GoesOn net i Asks
      (pkts ++ sends.map (fun t => wholePkt (t.call.packet (net.id i)))) v v'' ∧
        v''.state i = v'.state i := by
  induction sends generalizing pkts v' with
  | nil =>
      refine ⟨v', ?_, rfl⟩
      rwa [List.map_nil, List.append_nil]
  | cons t sends ih =>
      have hact : (net.system mFns).act i (v'.state i) (.tunnel t) =
          .ok (v'.state i, [wholePkt (t.call.packet (net.id i))]) := rfl
      have hfirst := h.snoc (System.step_act hact)
        (l := [wholePkt (t.call.packet (net.id i))]) rfl (by
          intro j now c other hmem _
          rcases List.mem_pair.1 hmem with hno | hno
          · cases hno
          · cases hno)
      rcases ih hfirst with ⟨v'', hv'', hsame⟩
      rw [List.append_assoc] at hv''
      exact ⟨v'', hv'', hsame.trans (v'.state_next_self i _ _)⟩

/-- What the manager does with its node between its iterations. -/
theorem callsKeep (net : DhtNet ι) (i : ι) (Asks : BdNodeId → Prop) (now : Int)
    (v : World ι (BdNode mFns) NodeAct UdpPkt) :
    CallsKeep now (fun s => ∃ v', GoesOn net i Asks [] v v' ∧ v'.state i = s) where
  addQuery := by
    rintro _ id qflags ⟨v', h, rfl⟩
    exact h.call now ⟨.addQuery id qflags, fun _ _ _ _ => NodeCall.noConfusion⟩
      (fun _ => NodeCall.noConfusion)
  clearQuery := by
    rintro _ rmId ⟨v', h, rfl⟩
    exact h.call now ⟨.clearQuery rmId, fun _ _ _ _ => NodeCall.noConfusion⟩
      (fun _ => NodeCall.noConfusion)
  addPotentialPeer := by
    rintro _ id ⟨v', h, rfl⟩
    exact h.call now ⟨.addPotentialPeer id, fun _ _ _ _ => NodeCall.noConfusion⟩
      (fun _ => NodeCall.noConfusion)
  reloadStore := by
    rintro _ store ⟨v', h, rfl⟩
    exact h.call now ⟨.reloadStore store, fun _ _ _ _ => NodeCall.noConfusion⟩
      (fun _ => NodeCall.noConfusion)
  shutdownNode := by
    rintro _ ⟨v', h, rfl⟩
    exact h.call now ⟨.shutdownNode, fun _ _ _ _ => NodeCall.noConfusion⟩
      (fun _ => NodeCall.noConfusion)

end GoesOn

/-! ## The refinement -/

/-- The programs have the nodes of the other network, and the same packets have been sent.  The packets
that wait are some of these, and a node has asked only for connections with ids that its user looks for. -/
structure Refines (net : DhtNet ι) (w : World ι (Host mFns) HostAct UdpPkt)
    (v : World ι (BdNode mFns) NodeAct UdpPkt) : Prop where
  nodes : ∀ i, (w.state i).dht.toBdNode = v.state i
  sent : sentOf w.log = sentOf v.log
  incoming : ∀ i, ∀ m ∈ (w.state i).dht.mIncomingMsgs, ∃ j pkt, .sent j pkt ∈ v.log ∧
    pkt.toAddr = net.addr i ∧ m = ⟨pkt.data, net.addr j⟩
  asks : ∀ i now (c : LocalCall) other, .act i (.call now c) ∈ v.log → c.call = .addConnReq other →
    ∃ now r qflags sinFamily, .act i (.request now r) ∈ w.log ∧
      r.op = .addFindNode other qflags sinFamily
  tunnels : ∀ i, net.TunnelSane mFns w.log i (w.state i).tunnel
  carried : Chronicle (net.Carried mFns) w.log
  holds : Holds (net.Sane mFns) (net.Good mFns) v

/-- The event happens, and the other network goes on so that the one still refines it. -/
def Follows [DecidableEq ι] (net : DhtNet ι) (w : World ι (Host mFns) HostAct UdpPkt)
    (v : World ι (BdNode mFns) NodeAct UdpPkt) (e : Event ι HostAct Unit) : Prop :=
  ∃ w' v', (net.hosts mFns).step w e = .ok w' ∧
    (∃ events : List (Event ι NodeAct Arrival), events.foldlM (net.system mFns).step v = .ok v') ∧
    Refines net w' v'

namespace Refines

variable {w : World ι (Host mFns) HostAct UdpPkt} {v : World ι (BdNode mFns) NodeAct UdpPkt}

theorem start (net : DhtNet ι) (mFns : BdDhtFunctions) (lib : ι → PeerLib)
    (whiteNodes : ι → List BdPeer) :
    Refines net (net.startHosts mFns lib whiteNodes) (net.start mFns) where
  nodes := fun _ => rfl
  sent := rfl
  incoming := fun _ _ hm => absurd hm List.not_mem_nil
  asks := fun _ _ _ _ hmem => absurd hmem List.not_mem_nil
  tunnels := fun i => .new net mFns [] i (lib i)
  carried := chronicle_nil
  holds := ⟨Sane.new net, chronicle_nil⟩

variable [DecidableEq ι]

/-- A program does something, while its node goes on by itself. -/
theorem next (h : Refines net w v) {i : ι} {Asks : BdNodeId → Prop} {pkts : List UdpPkt}
    {v' : World ι (BdNode mFns) NodeAct UdpPkt} (hv : GoesOn net i Asks pkts v v') {s : Host mFns}
    (hnode : v'.state i = s.dht.toBdNode) {entries : HostHistory ι}
    (hsent : sentOf entries = pkts.map (Prod.mk i))
    (hincoming : ∀ m ∈ s.dht.mIncomingMsgs, m ∈ (w.state i).dht.mIncomingMsgs ∨
      ∃ j pkt, .sent j pkt ∈ v.log ∧ pkt.toAddr = net.addr i ∧ m = ⟨pkt.data, net.addr j⟩)
    (hasks : ∀ other, Asks other → ∃ now r qflags sinFamily, .act i (.request now r) ∈ entries ∧
      r.op = .addFindNode other qflags sinFamily)
    (htunnel : net.TunnelSane mFns (w.log ++ entries) i s.tunnel)
    (hcarried : Chronicle (net.Carried mFns) (w.log ++ entries)) :
    Refines net (w.next i s entries) v' where
  nodes := by
    intro j
    by_cases hj : j = i
    · rw [hj, w.state_next_self, hnode]
    · rw [w.state_next_ne hj, hv.others j hj, h.nodes j]
  sent := by
    rw [World.next, sentOf_append, h.sent, hv.sent, hsent]
  incoming := by
    intro j m hm
    have hold : ∃ k pkt, .sent k pkt ∈ v.log ∧ pkt.toAddr = net.addr j ∧
        m = ⟨pkt.data, net.addr k⟩ := by
      by_cases hj : j = i
      · subst hj
        rw [w.state_next_self] at hm
        rcases hincoming m hm with hm | hnew
        · exact h.incoming j m hm
        · exact hnew
      · rw [w.state_next_ne hj] at hm
        exact h.incoming j m hm
    rcases hold with ⟨k, pkt, hmem, hrest⟩
    exact ⟨k, pkt, hv.log.subset hmem, hrest⟩
  asks := by
    intro j now c' other hmem hc'
    rcases hv.asks j now c' other hmem hc' with hold | ⟨rfl, hother⟩
    · rcases h.asks j now c' other hold hc' with ⟨now, r, qflags, sinFamily, hmem, hop⟩
      exact ⟨now, r, qflags, sinFamily, List.mem_append_left _ hmem, hop⟩
    · rcases hasks other hother with ⟨now, r, qflags, sinFamily, hmem, hop⟩
      exact ⟨now, r, qflags, sinFamily, List.mem_append_right _ hmem, hop⟩
  tunnels := by
    intro j
    by_cases hj : j = i
    · subst hj
      rw [w.state_next_self]
      exact htunnel
    · rw [w.state_next_ne hj]
      exact (h.tunnels j).mono (List.prefix_append _ _)
  carried := hcarried
  holds := hv.holds

/-- An action of a program. -/
theorem act (h : Refines net w v) {i : ι} {a : HostAct} {s : Host mFns} {pkts : List UdpPkt}
    (hact : (w.state i).act a = .ok (s, pkts)) {Asks : BdNodeId → Prop}
    {v' : World ι (BdNode mFns) NodeAct UdpPkt} (hv : GoesOn net i Asks pkts v v')
    (hnode : v'.state i = s.dht.toBdNode)
    (hincoming : s.dht.mIncomingMsgs ⊆ (w.state i).dht.mIncomingMsgs)
    (hasks : ∀ other, Asks other → ∃ now r qflags sinFamily, a = .request now r ∧
      r.op = .addFindNode other qflags sinFamily)
    (htunnel : net.TunnelSane mFns (w.log ++ [.act i a]) i s.tunnel)
    (hpkts : ∀ pkt ∈ pkts, net.Carried mFns (w.log ++ [.act i a]) i pkt) :
    Follows net w v (.act i a) := by
  have hsent : sentOf (.act i a :: pkts.map (.sent i) : HostHistory ι) = pkts.map (Prod.mk i) := by
    rw [sentOf_act, sentOf_sent]
  have hprefix := List.prefix_append (w.log ++ [.act i a]) (pkts.map (.sent i))
  have hcarried := (h.carried.act i a).sent (fun hh hm => Carried.mono hh hm) hpkts
  rw [List.append_assoc, List.singleton_append] at hprefix hcarried
  refine ⟨_, v', System.step_act hact, hv.run, h.next hv hnode hsent
    (fun m hm => .inl (hincoming hm)) ?_ (htunnel.mono hprefix) hcarried⟩
  intro other hother
  rcases hasks other hother with ⟨now, r, qflags, sinFamily, rfl, hop⟩
  exact ⟨now, r, qflags, sinFamily, List.mem_cons_self, hop⟩

/-- An action that leaves the DHT alone and sends nothing. -/
theorem idle (h : Refines net w v) {i : ι} {a : HostAct} {s : Host mFns}
    (hact : (w.state i).act a = .ok (s, [])) (hdht : s.dht = (w.state i).dht)
    (htunnel : net.TunnelSane mFns (w.log ++ [.act i a]) i s.tunnel) :
    Follows net w v (.act i a) :=
  h.act hact (.refl (fun _ => False) h.holds) ((h.nodes i).symm.trans (by rw [hdht]))
    (by rw [hdht]; exact List.Subset.refl _) (fun _ hno => hno.elim) htunnel
    (fun _ hno => absurd hno List.not_mem_nil)

/-- A call of the user is some calls of the node. -/
theorem request (h : Refines net w v) (i : ι) (now : Int) (r : UserCall) :
    Follows net w v (.act i (.request now r)) := by
  let Asks : BdNodeId → Prop := fun other => ∃ qflags sinFamily,
    r.op = .addFindNode other qflags sinFamily
  have hnode : ∃ v', GoesOn net i Asks [] v v' ∧ v'.state i = (w.state i).dht.toBdNode :=
    ⟨v, .refl _ h.holds, (h.nodes i).symm⟩
  have hmeets := (GoesOn.callsKeep net i Asks now v).request hnode r.isRequest (by
    rintro _ id qflags sinFamily hop ⟨v', hv', rfl⟩
    exact hv'.call now ⟨.addConnReq id, fun _ _ _ _ => NodeCall.noConfusion⟩ (by
      rintro other ⟨⟩
      exact ⟨qflags, sinFamily, hop⟩))
  rcases managerStep_request (w.state i).dht now r.isRequest with ⟨c, hc, hmsgs⟩
  rw [hc] at hmeets
  rcases hmeets with ⟨v', hv', hstate⟩
  have hact : (w.state i).act (.request now r) = .ok ({ w.state i with dht := c }, []) :=
    (congrArg (· >>= _) hc).trans rfl
  refine h.act hact hv' hstate (hmsgs ▸ List.Subset.refl _) ?_
    ((h.tunnels i).mono (List.prefix_append _ _)) (fun _ hno => absurd hno List.not_mem_nil)
  rintro other ⟨qflags, sinFamily, hop⟩
  exact ⟨now, r, qflags, sinFamily, rfl, hop⟩

/-- An iteration is the delivery of the packets that wait, and some calls of the node. -/
theorem iteration (h : Refines net w v) (i : ι) (now : Int) (word : Nat → UInt32)
    (store whiteNodes : List BdPeer) (env : IterEnv) :
    Follows net w v (.act i (.iteration now word store whiteNodes env)) := by
  have hnode : ∃ v', GoesOn net i (fun _ => False) [] v v' ∧
      v'.state i = (w.state i).dht.toBdNode := ⟨v, .refl _ h.holds, (h.nodes i).symm⟩
  have hcall : ∀ c : NodeCall, c.Sends → ∀ s : BdNode mFns,
      (∃ v', GoesOn net i (fun _ => False) [] v v' ∧ v'.state i = s) →
      Meets False (callStep s (now, c))
        (fun s => ∃ v', GoesOn net i (fun _ => False) [] v v' ∧ v'.state i = s) := by
    rintro c hc _ ⟨v', hv', rfl⟩
    refine hv'.call now ⟨c, fun _ _ _ _ heq => (heq ▸ hc).elim⟩ ?_
    rintro other rfl
    exact hc
  have hrecv : ∀ m ∈ (w.state i).dht.mIncomingMsgs, ∀ word junk, ∀ s : BdNode mFns,
      (∃ v', GoesOn net i (fun _ => False) [] v v' ∧ v'.state i = s) →
      Meets False (s.recvPktOn word now junk m.data m.data.length m.addr)
        (fun s => ∃ v', GoesOn net i (fun _ => False) [] v v' ∧ v'.state i = s) := by
    rintro m hm word junk _ ⟨v', hv', rfl⟩
    rcases h.incoming i m hm with ⟨j, pkt, hmem, haddr, rfl⟩
    exact hv'.recvPkt hmem haddr ⟨now, junk, word⟩
  have hmeets := BdNodeManager.iterationOn_meets (GoesOn.callsKeep net i (fun _ => False) now v)
    hcall hrecv hnode word store whiteNodes env
  rcases meets_false_iff.1 hmeets with ⟨c, hc, ⟨v', hv', hstate⟩, hmsgs⟩
  have hact : (w.state i).act (.iteration now word store whiteNodes env) =
      .ok ({ w.state i with dht := c }, []) := (congrArg (· >>= _) hc).trans rfl
  refine h.act hact hv' hstate ?_ (fun _ hno => hno.elim)
    ((h.tunnels i).mono (List.prefix_append _ _)) (fun _ hno => absurd hno List.not_mem_nil)
  rw [hmsgs]
  exact List.nil_subset _

/-- A tick is one of the node. -/
theorem tick (h : Refines net w v) (i : ι) : Follows net w v (.act i .tick) := by
  rcases (h.holds.parties i).tick with ⟨n, pkts, s, htick, _, hpkts⟩
  rcases (GoesOn.refl (fun _ => False) h.holds).tick htick with ⟨v', hv', hstate⟩
  rw [← h.nodes i] at htick
  have hact : (w.state i).act .tick =
      .ok ({ w.state i with dht := { (w.state i).dht with toBdNode := s } }, pkts) :=
    (congrArg (fun x => (x >>= _) >>= _) htick).trans rfl
  refine h.act hact hv' hstate (List.Subset.refl _) (fun _ hno => hno.elim)
    ((h.tunnels i).mono (List.prefix_append _ _)) ?_
  intro pkt hpkt
  rcases hpkts pkt hpkt with ⟨c, hmade, hsound⟩
  exact .inl ⟨c, hmade, hsound.inet⟩

/-- What a tunnel ticks is sent beside the nodes. -/
theorem tunnelTick (h : Refines net w v) (i : ι) : Follows net w v (.act i .tunnelTick) := by
  have hlater := (h.tunnels i).mono (List.prefix_append w.log [.act i .tunnelTick])
  rcases hlater.tick with ⟨more, pkts, c, htick, hc, hpkts⟩
  have hsends : ∃ sends : List TunnelSend,
      pkts = sends.map (fun t => wholePkt (t.call.packet (net.id i))) := by
    have hall : pkts ∈ {l : List UdpPkt | ∀ pkt ∈ l,
        pkt ∈ Set.range (fun t : TunnelSend => wholePkt (t.call.packet (net.id i)))} := by
      intro pkt hpkt
      rcases hpkts pkt hpkt with ⟨t, ht, _⟩
      exact ⟨t, ht.symm⟩
    rw [← Set.range_list_map] at hall
    rcases hall with ⟨sends, hsends⟩
    exact ⟨sends, hsends.symm⟩
  rcases hsends with ⟨sends, rfl⟩
  rcases (GoesOn.refl (fun _ => False) h.holds).tunnelTick sends with ⟨v', hv', hstate⟩
  have hact : (w.state i).act .tunnelTick = .ok ({ w.state i with tunnel := c }, _) :=
    (congrArg (· >>= _) htick).trans rfl
  exact h.act hact hv' (hstate.trans (h.nodes i).symm) (List.Subset.refl _) (fun _ hno => hno.elim)
    hc (fun pkt hpkt => .inr (hpkts pkt hpkt))

/-- A packet reaches a program, while the nodes rest. -/
theorem arrive (h : Refines net w v) {i : ι} {k : Nat} {j : ι} {pkt : UdpPkt}
    (hk : w.log[k]? = some (.sent j pkt)) (haddr : pkt.toAddr = net.addr i) {s : Host mFns}
    (hrun : (w.state i).recvPkt pkt.data (net.addr j) = .ok s)
    (hnode : s.dht.toBdNode = (w.state i).dht.toBdNode)
    (hincoming : ∀ m ∈ s.dht.mIncomingMsgs,
      m ∈ (w.state i).dht.mIncomingMsgs ∨ m = ⟨pkt.data, net.addr j⟩)
    (htunnel : net.TunnelSane mFns w.log i s.tunnel) (r : Unit) :
    Follows net w v (.deliver i r k) := by
  have hmem : .sent j pkt ∈ v.log := by
    rw [← mem_sentOf, ← h.sent, mem_sentOf]
    exact List.mem_of_getElem? hk
  have hrecv : (net.hosts mFns).recv i (w.state i) r j pkt = .ok (s, []) :=
    (congrArg (· >>= _) hrun).trans rfl
  refine ⟨_, v, System.step_deliver hk (decide_eq_true haddr) hrecv, ⟨[], rfl⟩,
    h.next (.refl (fun _ => False) h.holds) ((h.nodes i).symm.trans hnode.symm) rfl ?_
      (fun _ hno => hno.elim) ?_ ?_⟩
  · intro m hm
    rcases hincoming m hm with hold | hnew
    · exact .inl hold
    · exact .inr ⟨j, pkt, hmem, haddr, hnew⟩
  · rw [List.map_nil, List.append_nil]
    exact htunnel
  · rw [List.map_nil, List.append_nil]
    exact h.carried

/-- A packet that arrives waits with the first receiver. -/
theorem deliver (h : Refines net w v) (i : ι) (r : Unit) (k : Nat) :
    Follows net w v (.deliver i r k) := by
  by_cases harrives : ∃ j pkt, w.log[k]? = some (.sent j pkt) ∧ pkt.toAddr = net.addr i
  · rcases harrives with ⟨j, pkt, hk, haddr⟩
    have hmem : .sent j pkt ∈ w.log := List.mem_of_getElem? hk
    -- whoever has sent the packet, it is recognised
    have hans : isBitDhtPacket pkt.data pkt.data.length = .ok 1 := by
      rcases h.carried.good (fun hh hm => Carried.mono hh hm) hmem with ⟨c, hmade, _⟩ | ⟨t, rfl, _⟩
      · exact hmade.isBitDhtPacket
      · have hbuilt := Msg.isBitDhtPacket_built (t.call.msg_short (net.id j) t.len_le) []
        rwa [List.append_nil] at hbuilt
    rcases Host.recvPkt_cases hans (w.state i) (net.addr j) with hrun | ⟨recv, _, hrun⟩
    · exact h.arrive hk haddr hrun rfl (fun m hm => .inl hm) (h.tunnels i) r
    · cases recv with
      | bitDht =>
          refine h.arrive hk haddr hrun rfl ?_ (h.tunnels i) r
          intro m hm
          rcases List.mem_append.1 hm with hold | hnew
          · exact .inl hold
          · exact .inr (List.mem_singleton.1 hnew)
      | tunnel =>
          exact h.arrive hk haddr hrun rfl (fun m hm => .inl hm)
            ((h.tunnels i).incomingMsg hmem haddr) r
  · refine ⟨w, v, ?_, ⟨[], rfl⟩, h⟩
    rw [System.step]
    split
    · rename_i j pkt hk
      split
      · rename_i haddressed
        exact absurd ⟨j, pkt, hk, of_decide_eq_true haddressed⟩ harrives
      · rfl
    · rfl

theorem step (h : Refines net w v) (e : Event ι HostAct Unit) : Follows net w v e := by
  cases e with
  | act i a =>
      have htunnel := (h.tunnels i).mono (List.prefix_append w.log [.act i a])
      cases a with
      | addReceiver recv => exact h.idle rfl rfl htunnel
      | removeReceiver recv => exact h.idle rfl rfl htunnel
      | request now r => exact h.request i now r
      | iteration now word store whiteNodes env => exact h.iteration i now word store whiteNodes env
      | tick => exact h.tick i
      | tunnelRequest now r =>
          rcases htunnel.request (List.mem_append_right _ List.mem_cons_self) with ⟨c, hc, hsane⟩
          have hact : (w.state i).act (.tunnelRequest now r) =
              .ok ({ w.state i with tunnel := c }, []) := (congrArg (· >>= _) hc).trans rfl
          exact h.idle hact rfl hsane
      | tunnelIteration now env =>
          have hcarried := h.carried.act i (.tunnelIteration now env)
          rcases htunnel.iteration (hcarried.good (fun hh hm => Carried.mono hh hm)) now env with ⟨c, hc, hsane⟩
          have hact : (w.state i).act (.tunnelIteration now env) =
              .ok ({ w.state i with tunnel := c }, []) := (congrArg (· >>= _) hc).trans rfl
          exact h.idle hact rfl hsane
      | tunnelTick => exact h.tunnelTick i
  | deliver i r k => exact h.deliver i r k

end Refines

end DhtNet

end BitDht
