import BitDht.Dht.Answers
import BitDht.Manager.Startup
import BitDht.Node.Progress

/-!
# Sizes — how large a table gets in a network, and what a small network never does

In every run a table has each node of the network at most once, so it is no larger than the network
(`run_tables`).  A manager looks for the ids of its user only once its table is large enough, and so nobody
in a network of at most twenty nodes is ever told of a peer (`run_small`).
-/

namespace BitDht

open Container Network Outcome

variable {mFns : BdDhtFunctions} {ι : Type} [DecidableEq ι]

namespace DhtNet

variable {net : DhtNet ι}

/-! ## Tables -/

/-- Whatever becomes of the packets, each node keeps a tidy table. -/
theorem tidy_of_run {events : List (Event ι NodeAct Arrival)} {v : World ι (BdNode mFns) NodeAct UdpPkt}
    (hrun : events.foldlM (net.system mFns).step (net.start mFns) = .ok v) (i : ι) :
    (v.state i).mNodeSpace.Tidy := by
  let Inv : BdNode mFns → Prop := fun s => s.mNodeSpace.Tidy ∧ Fits s
  have hact : ∀ {i : ι} {s : BdNode mFns} {a s' msgs}, Inv s →
      (net.system mFns).act i s a = .ok (s', msgs) → Inv s' := by
    rintro i s a s' msgs ⟨htidy, hfits⟩ hrun
    cases a with
    | call now c =>
        rcases bind_eq_ok.1 hrun with ⟨s₁, hs₁, hrest⟩
        cases hrest
        exact ⟨callStep_mNodeSpace (fun now h => h.outOfDatePeer now) BdSpace.tidy_clear hfits.len_le
          c.notPacket htidy hs₁, hfits.callStep c.notPacket now hs₁⟩
    | tick =>
        rcases bind_eq_ok.1 hrun with ⟨⟨more, pkts, s₁⟩, htick, hrest⟩
        cases hrest
        rw [BdNode.tick_eq, Except.ok.injEq] at htick
        cases htick
        exact ⟨htidy, hfits.space, hfits.queries, hfits.remote, hfits.addrs⟩
    | tunnel t =>
        cases hrun
        exact ⟨htidy, hfits⟩
  have hrecv : ∀ {i : ι} {s : BdNode mFns} {r j m s' msgs}, Inv s →
      (net.system mFns).recv i s r j m = .ok (s', msgs) → Inv s' := by
    rintro i s r j m s' msgs ⟨htidy, hfits⟩ hrun
    rcases bind_eq_ok.1 hrun with ⟨s₁, hs₁, hrest⟩
    cases hrest
    exact ⟨BdNode.recvPktOn_mNodeSpace (fun id peerflags h => h.addPeer _ id peerflags) htidy hs₁,
      hfits.recvPktOn hs₁⟩
  have hstart : ∀ i, Inv ((net.start mFns).state i) :=
    fun i => ⟨BdSpace.tidy_new (net.id i), Knows.new ..⟩
  exact (System.states_of_run @hact @hrecv hstart hrun i).1

variable (net) (mFns) (lib : ι → PeerLib) (whiteNodes : ι → List BdPeer)
  (events : List (Event ι HostAct Unit))

/-- A table is tidy, and no larger than the network is. -/
theorem tables_run [Fintype ι] : ∃ w,
    events.foldlM (net.hosts mFns).step (net.startHosts mFns lib whiteNodes) = .ok w ∧
      ∀ i, (w.state i).dht.mNodeSpace.Tidy ∧
        (∀ id ∈ (w.state i).dht.mNodeSpace.stored, net.Real id) ∧
        (w.state i).dht.mNodeSpace.calcSpaceSize ≤ Fintype.card ι := by
  rcases net.hosts_run mFns lib whiteNodes events with ⟨w, v, hw, ⟨nodeEvents, hv⟩, h, _⟩
  refine ⟨w, hw, fun i => ?_⟩
  have htidy := tidy_of_run hv i
  have hreal := (h.holds.parties i).known.space
  rw [← h.nodes i] at htidy hreal
  refine ⟨htidy, hreal, htidy.calcSpaceSize_le (fun j => ⟨net.addr j, net.id j⟩) (fun id hid => ?_)⟩
  exact (hreal id hid).imp (fun _ => Eq.symm)

/-- In every run each table has nodes of the network only, each in its own bucket, none of them twice and
no more of them in a bucket than there is room for; so no table is larger than the network. -/
theorem run_tables [Fintype ι] : ∃ w,
    events.foldlM (net.hosts mFns).step (net.startHosts mFns lib whiteNodes) = .ok w ∧
      ∀ i, (w.state i).dht.mNodeSpace.Tidy ∧
        (∀ id ∈ (w.state i).dht.mNodeSpace.stored, net.Real id) ∧
        (w.state i).dht.mNodeSpace.stored.Pairwise (fun a b => bdIdEq a b = false) ∧
        (w.state i).dht.mNodeSpace.calcSpaceSize ≤ Fintype.card ι := by
  rcases net.tables_run mFns lib whiteNodes events with ⟨w, hw, htables⟩
  refine ⟨w, hw, fun i => ?_⟩
  rcases htables i with ⟨htidy, hreal, hsize⟩
  exact ⟨htidy, hreal, htidy.distinct, hsize⟩

/-! ## Small networks -/

open BdNodeManager in
/-- A manager with a small table goes on waiting. -/
theorem Waiting.dhtStep {c c' : BdNodeManager mFns} (hc : Waiting c)
    (hsize : c.mNodeSpace.calcSpaceSize ≤ minOpSpaceSize) (hstep : Host.DhtStep c c') : Waiting c' := by
  have hripe : ∀ now, ¬ c.Ripe now := by
    rintro now ⟨_, hlarge | ⟨_, hlarge⟩⟩
    · rw [transitionOpSpaceSize] at hlarge
      rw [minOpSpaceSize] at hsize
      omega
    · omega
  cases hstep with
  | same => exact hc
  | request now r h => exact hc.request r.isRequest h
  | iteration now word store whiteNodes env h => exact hc.iterationOn (hripe now) h
  | tick | incomingMsg => exact ⟨hc.mode, hc.ready, hc.callbacks⟩

theorem waiting_run [Fintype ι] (hsmall : Fintype.card ι ≤ minOpSpaceSize) : ∃ w,
    events.foldlM (net.hosts mFns).step (net.startHosts mFns lib whiteNodes) = .ok w ∧
      ∀ i, (w.state i).dht.Waiting := by
  induction events using List.reverseRecOn with
  | nil => exact ⟨_, rfl, fun i => .new ..⟩
  | append_singleton events e ih =>
      rcases ih with ⟨w, hw, hwaiting⟩
      rcases net.tables_run mFns lib whiteNodes events with ⟨w₁, hw₁, htables⟩
      rw [hw, Except.ok.injEq] at hw₁
      subst hw₁
      rcases net.hosts_run mFns lib whiteNodes (events ++ [e]) with ⟨w', _, hw', _, _, _⟩
      refine ⟨w', hw', fun i => ?_⟩
      rw [List.foldlM_append, hw, ok_bind, List.foldlM_cons] at hw'
      rcases bind_eq_ok.1 hw' with ⟨w₂, hstep, hrest⟩
      cases hrest
      exact Waiting.dhtStep mFns (hwaiting i) ((htables i).2.2.trans hsmall) (DhtNet.dhtStep hstep i)

/-- In a network of at most twenty nodes no user is ever called back, and none ever gets an address, not
even of a node that is in the table. -/
theorem run_small [Fintype ι] (hsmall : Fintype.card ι ≤ minOpSpaceSize) : ∃ w,
    events.foldlM (net.hosts mFns).step (net.startHosts mFns lib whiteNodes) = .ok w ∧
      ∀ i, (w.state i).dht.peerCallbacks = [] ∧ ∀ id, (w.state i).dht.getDhtPeerAddress id = none := by
  rcases net.waiting_run mFns lib whiteNodes events hsmall with ⟨w, hw, hwaiting⟩
  exact ⟨w, hw, fun i => ⟨(hwaiting i).callbacks, (hwaiting i).getDhtPeerAddress⟩⟩

/-- Behind its PING to the first program the other one gets the PONG, and both know each other.  The user of
the first looks for the other, which is in the table, and a minute goes by. -/
def smallEvents : List (Event Bool HostAct Unit) :=
  pingEvents ++ [.act true (.request 2 ⟨.addCallback 1, trivial⟩),
    .act true (.request 2 ⟨.addFindNode startupId 0 afInet, trivial⟩),
    .act true (.iteration 12 (fun _ => 0) [] [] twoEnv), .act true .tick,
    .act false (.addReceiver .bitDht), .deliver false () 10,
    .act false (.iteration 12 (fun _ => 0) [] [] twoEnv),
    .act true (.iteration 73 (fun _ => 0) [] [] twoEnv)]

theorem run_small_two : ∃ w,
    smallEvents.foldlM (twoNodes.hosts bdStdDht).step
      (twoNodes.startHosts bdStdDht (fun _ => .plain ..) (fun _ => [])) = .ok w ∧
      (w.state true).dht.mNodeSpace.stored = [⟨twoNodes.addr false, startupId⟩] ∧
      (w.state false).dht.mNodeSpace.stored = [⟨twoNodes.addr true, bdZeroNodeId⟩] ∧
      ∀ i, (w.state i).dht.peerCallbacks = [] ∧ ∀ id, (w.state i).dht.getDhtPeerAddress id = none := by
  have hrun : Outcome.holds (smallEvents.foldlM (twoNodes.hosts bdStdDht).step
      (twoNodes.startHosts bdStdDht (fun _ => .plain ..) (fun _ => []))) (fun w =>
      (w.state true).dht.mNodeSpace.stored = [⟨twoNodes.addr false, startupId⟩] &&
        (w.state false).dht.mNodeSpace.stored = [⟨twoNodes.addr true, bdZeroNodeId⟩]) = true := by
    decide +kernel
  rcases twoNodes.run_small bdStdDht (fun _ => .plain ..) (fun _ => []) smallEvents (by decide) with
    ⟨w, hw, hall⟩
  rw [hw, Outcome.holds, Bool.and_eq_true, decide_eq_true_iff, decide_eq_true_iff] at hrun
  exact ⟨w, hw, hrun.1, hrun.2, hall⟩

end DhtNet

end BitDht
