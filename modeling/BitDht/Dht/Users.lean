import BitDht.Dht.Hosts

/-!
# Users — what the users of a network are told, and what their tunnels send

The results about every run of a network of programs, whatever becomes of the packets and in whichever order
users, threads and packets come: it is a run of the network of nodes (`run_refines`), users are told only
of nodes that there are (`run_users`), holes are punched only where a user looks for the other node
(`run_searched`), and tunnels call and answer only whom they should (`run_tunnels`).
-/

namespace BitDht

open Container Network Outcome

variable {mFns : BdDhtFunctions} {ι : Type} [DecidableEq ι]

namespace DhtNet

variable {net : DhtNet ι} {w w' : World ι (Host mFns) HostAct UdpPkt}

/-- An event changes the DHT of a program as a step of the program does. -/
theorem dhtStep {e : Event ι HostAct Unit} (hstep : (net.hosts mFns).step w e = .ok w') (i : ι) :
    Host.DhtStep (w.state i).dht (w'.state i).dht := by
  have hother : ∀ {j s entries}, Host.DhtStep (w.state j).dht s.dht →
      Host.DhtStep (w.state i).dht ((w.next j s entries).state i).dht := by
    intro j s entries hs
    by_cases hi : i = j
    · rw [hi, w.state_next_self]
      exact hs
    · rw [w.state_next_ne hi]
      exact .same
  cases System.step_cases hstep with
  | act j a s msgs hact h => exact h ▸ hother (Host.act_dht hact)
  | recv j k r pkt s msgs hm hrecv h =>
      rcases bind_eq_ok.1 hrecv with ⟨s', hs', hrest⟩
      cases hrest
      exact h ▸ hother (Host.recvPkt_dht hs')
  | none h => exact h ▸ .same

open BdNodeManager in
/-- What a program does keeps what its user is told, as long as its node knows whom it knows. -/
theorem Sourced.dhtStep {heard told : BdId → Prop} (hxor : mFns.bdDistance = bdStdDistance)
    {c c' : BdNodeManager mFns} (hc : Sourced heard told c) (hstep : Host.DhtStep c c')
    (hknown : Knows heard told c'.toBdNode) : Sourced heard told c' := by
  cases hstep with
  | same => exact hc
  | request now r h => exact hc.request r.isRequest h
  | iteration now word store whiteNodes env h =>
      rcases iterationOn_ok h with ⟨hkept, hevolved⟩
      rw [hkept]
      exact (hc.changeMode hxor now store whiteNodes).of_node hknown hevolved
  | tick | incomingMsg => exact ⟨hknown, hc.anchored, hc.addresses, hc.callbacks⟩

variable (net) (mFns) (lib : ι → PeerLib) (whiteNodes : ι → List BdPeer)
  (events : List (Event ι HostAct Unit))

/-- Every run of programs comes back, and refines a run of nodes. -/
theorem hosts_run : ∃ w v,
    events.foldlM (net.hosts mFns).step (net.startHosts mFns lib whiteNodes) = .ok w ∧
      (∃ nodeEvents : List (Event ι NodeAct Arrival),
        nodeEvents.foldlM (net.system mFns).step (net.start mFns) = .ok v) ∧
      Refines net w v ∧ (mFns.bdDistance = bdStdDistance →
        ∀ i, BdNodeManager.Sourced net.Real net.Real (w.state i).dht) := by
  have hstart : Refines net (net.startHosts mFns lib whiteNodes) (net.start mFns) ∧
      (mFns.bdDistance = bdStdDistance → ∀ i,
        BdNodeManager.Sourced net.Real net.Real ((net.startHosts mFns lib whiteNodes).state i).dht) :=
    ⟨.start net mFns lib whiteNodes, fun _ i => .new ..⟩
  have hstep : ∀ {w : World ι (Host mFns) HostAct UdpPkt}
      {v : World ι (BdNode mFns) NodeAct UdpPkt} (e : Event ι HostAct Unit),
      (Refines net w v ∧ (mFns.bdDistance = bdStdDistance → ∀ i,
        BdNodeManager.Sourced net.Real net.Real (w.state i).dht)) →
      ∃ w' v', (net.hosts mFns).step w e = .ok w' ∧
        (∃ nodeEvents : List (Event ι NodeAct Arrival),
          nodeEvents.foldlM (net.system mFns).step v = .ok v') ∧
        (Refines net w' v' ∧ (mFns.bdDistance = bdStdDistance → ∀ i,
          BdNodeManager.Sourced net.Real net.Real (w'.state i).dht)) := by
    rintro w v e ⟨h, hsourced⟩
    rcases h.step e with ⟨w', v', hw', hv', h'⟩
    refine ⟨w', v', hw', hv', h', fun hxor i => ?_⟩
    have hknown := (h'.holds.parties i).known
    rw [← h'.nodes i] at hknown
    exact Sourced.dhtStep hxor (hsourced hxor i) (dhtStep hw' i) hknown
  exact foldlM_refines @hstep events hstart

/-- Whoever a callback names is a node of the network under its own id and address, and the address that
a user gets for an id is that of the node with the id, or zero. -/
theorem run_users (hxor : mFns.bdDistance = bdStdDistance) : ∃ w,
    events.foldlM (net.hosts mFns).step (net.startHosts mFns lib whiteNodes) = .ok w ∧
      ∀ i, (∀ k ∈ (w.state i).dht.peerCallbacks, net.Real k.peer.mPeerId) ∧
        ∀ id addr, (w.state i).dht.getDhtPeerAddress id = some addr →
          addr.sAddr = 0 ∧ addr.sinPort = 0 ∨ net.Real ⟨addr, id⟩ := by
  rcases net.hosts_run mFns lib whiteNodes events with ⟨w, _, hw, _, _, hsourced⟩
  refine ⟨w, hw, fun i => ⟨fun k hk => ?_, (hsourced hxor i).addresses⟩⟩
  exact or_self_iff.1 ((hsourced hxor i).callbacks k hk).1

def starNodes : DhtNet (Fin 22) where
  addr i := ⟨afInet, 7, UInt16.ofNat i⟩
  id i := byteId i
  dhtVersion _ := []
  store _ := []
  rand _ _ := 5
  inet _ := rfl
  addr_injective := by decide

def starIteration (i : Fin 22) (now : Int) : Event (Fin 22) HostAct Unit :=
  .act i (.iteration now (fun _ => 0) [] [] ⟨fun _ => ⟨byteId 0, byteId 0, 0⟩, fun _ id _ => id,
    fun _ => byteId 255⟩)

/-- A program is started and sends a PING to the first one, where it arrives. -/
def starPing (k : Nat) : List (Event (Fin 22) HostAct Unit) :=
  [.act (Fin.ofNat 22 k) (.request 0
      ⟨.startDht [] [⟨⟨⟨afInet, 7, 0⟩, byteId 0⟩, 0, 0, 0, 0⟩], trivial⟩),
    starIteration (Fin.ofNat 22 k) 1, .act (Fin.ofNat 22 k) .tick, .deliver 0 () (4 * k + 4)]

/-- The first program is to find the second.  All 21 others send it their PINGs, and a minute later its
search begins, which gives up after half an hour. -/
def starEvents : List (Event (Fin 22) HostAct Unit) :=
  [.act 0 (.addReceiver .bitDht), .act 0 (.request 0 ⟨.addCallback 1, trivial⟩),
    .act 0 (.request 0 ⟨.startDht [] [], trivial⟩),
    .act 0 (.request 0 ⟨.addFindNode (byteId 1) 0 afInet, trivial⟩), starIteration 0 11] ++
  (List.range 21).flatMap (fun k => starPing (k + 1)) ++
  [starIteration 0 12, starIteration 0 73] ++
  (List.range 10).map (fun (k : Nat) => starIteration 0 (74 + k)) ++
  [starIteration 0 1900, starIteration 0 1901]

/-- The user of the first program is called back with the second, and gets its address. -/
theorem run_users_star : ∃ w,
    starEvents.foldlM (starNodes.hosts bdStdDht).step
      (starNodes.startHosts bdStdDht (fun _ => .plain ..) (fun _ => [])) = .ok w ∧
      (w.state 0).dht.peerCallbacks.map (fun k => k.peer.mPeerId) = [⟨starNodes.addr 1, byteId 1⟩] ∧
      (w.state 0).dht.getDhtPeerAddress (byteId 1) = some (starNodes.addr 1) ∧
      ∀ i, (∀ k ∈ (w.state i).dht.peerCallbacks, starNodes.Real k.peer.mPeerId) ∧
        ∀ id addr, (w.state i).dht.getDhtPeerAddress id = some addr →
          addr.sAddr = 0 ∧ addr.sinPort = 0 ∨ starNodes.Real ⟨addr, id⟩ := by
  have hrun : Outcome.holds (starEvents.foldlM (starNodes.hosts bdStdDht).step
      (starNodes.startHosts bdStdDht (fun _ => .plain ..) (fun _ => []))) (fun w =>
      (w.state 0).dht.peerCallbacks.map (fun k => k.peer.mPeerId) = [⟨starNodes.addr 1, byteId 1⟩] &&
        (w.state 0).dht.getDhtPeerAddress (byteId 1) = some (starNodes.addr 1)) = true := by
    decide +kernel
  rcases starNodes.run_users bdStdDht (fun _ => .plain ..) (fun _ => []) starEvents rfl with ⟨w, hw, hall⟩
  rw [hw, Outcome.holds, Bool.and_eq_true, decide_eq_true_iff, decide_eq_true_iff] at hrun
  exact ⟨w, hw, hrun.1, hrun.2, hall⟩

/-- A node punches holes only for a node of the network, under its own id and address, and only if the
user of a node with one of the two ids has looked for the other. -/
theorem run_searched : ∃ w,
    events.foldlM (net.hosts mFns).step (net.startHosts mFns lib whiteNodes) = .ok w ∧
      ∀ i, ∀ peerId ∈ (w.state i).dht.mPunching, net.Real peerId ∧
        ∃ j now r other qflags sinFamily, .act j (.request now r) ∈ w.log ∧
          r.op = .addFindNode other qflags sinFamily ∧
          (net.id j = net.id i ∧ other = peerId.id ∨ net.id j = peerId.id ∧ other = net.id i) := by
  rcases net.hosts_run mFns lib whiteNodes events with ⟨w, v, hw, _, h, _⟩
  refine ⟨w, hw, fun i peerId hpeer => ?_⟩
  rw [h.nodes i] at hpeer
  rcases (h.holds.parties i).punching peerId hpeer with ⟨hreal, j, now, c, other, hmem, hc, hids⟩
  rcases h.asks j now c other hmem hc with ⟨now, r, qflags, sinFamily, hmem, hop⟩
  exact ⟨hreal, j, now, r, other, qflags, sinFamily, hmem, hop, hids⟩

end DhtNet

end BitDht
