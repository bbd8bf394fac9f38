import BitDht.Tunnel.Traffic
import BitDht.Udp.BitDht

/-!
# Stack — `UdpStack`, and a program that has one

A stack hands each packet to its receivers one after the other, until one of them takes it.  A program has
a DHT, a tunnel and a stack, and each of the two is among the receivers as long as it is added.  Both take
every packet that either of them knows, so whoever comes second is never handed one (`run_behind`).
-/

namespace BitDht

open Outcome

/-! ## The stack -/

namespace UdpStack

variable {ρ σ : Type} [DecidableEq ρ]

/-- `addReceiver`: what it returns, and `mReceivers` then. -/
def addReceiver (mReceivers : List ρ) (recv : ρ) : Nat × List ρ :=
  -- check for duplicate
  if recv ∈ mReceivers then (0, mReceivers) else (1, mReceivers ++ [recv])

/-- `removeReceiver`: what it returns, and `mReceivers` then. -/
def removeReceiver (mReceivers : List ρ) (recv : ρ) : Nat × List ρ :=
  if recv ∈ mReceivers then (1, mReceivers.erase recv) else (0, mReceivers)

omit [DecidableEq ρ] in
/-- `recvPkt` of a packet that the receivers, all in `s`, may take by `take`. -/
def recvPkt (take : ρ → σ → Exec (Nat × σ)) : List ρ → σ → Exec σ
  | [], s => pure s
  | it :: rest, s => do
      -- see if they want the packet
      let (taken, s) ← take it s
      if taken ≠ 0 then pure s else recvPkt take rest s

end UdpStack

/-! ## A program -/

inductive UdpReceiver
  | bitDht
  | tunnel
  deriving DecidableEq

structure Host (mFns : BdDhtFunctions) where
  mReceivers : List UdpReceiver
  dht : BdNodeManager mFns
  tunnel : BdTunnelManager

/-- A call of the user of the DHT. -/
structure UserCall where
  op : ManagerOp
  isRequest : op.IsRequest

/-- The functions of `UdpTunnel` for its user. -/
def TunnelOp.IsRequest : TunnelOp → Prop
  | .startTunnel | .stopTunnel | .connectNode .. | .disconnectNode _ => True
  | .incomingMsg .. | .outgoingMsg | .iteration _ => False

structure TunnelUserCall where
  op : TunnelOp
  isRequest : op.IsRequest

/-- What users and threads do. -/
inductive HostAct
  | addReceiver (recv : UdpReceiver)
  | removeReceiver (recv : UdpReceiver)
  | request (now : Int) (r : UserCall)
  | iteration (now : Int) (word : Nat → UInt32) (store whiteNodes : List BdPeer) (env : IterEnv)
  | tick
  | tunnelRequest (now : Int) (r : TunnelUserCall)
  | tunnelIteration (now : Int) (env : TunnelEnv)
  | tunnelTick

variable {mFns : BdDhtFunctions}

namespace Host

/-- `UdpReceiver::recvPkt`: what it returns, and the program then. -/
def take (data : List UInt8) (addr : SockaddrIn) :
    UdpReceiver → Host mFns → Exec (Nat × Host mFns)
  | .bitDht, h => do
      let (taken, dht) ← UdpBitDht.recvPkt h.dht data addr
      pure (taken, { h with dht := dht })
  | .tunnel, h => do
      let (taken, tunnel) ← UdpTunnel.recvPkt h.tunnel data addr
      pure (taken, { h with tunnel := tunnel })

def recvPkt (h : Host mFns) (data : List UInt8) (addr : SockaddrIn) : Exec (Host mFns) :=
  UdpStack.recvPkt (take data addr) h.mReceivers h

/-- One action, and the packets that it sends. -/
def act (h : Host mFns) : HostAct → Exec (Host mFns × List UdpPkt)
  | .addReceiver recv =>
      pure ({ h with mReceivers := (UdpStack.addReceiver h.mReceivers recv).2 }, [])
  | .removeReceiver recv =>
      pure ({ h with mReceivers := (UdpStack.removeReceiver h.mReceivers recv).2 }, [])
  | .request now r => do
      let dht ← managerStep h.dht (now, r.op)
      pure ({ h with dht := dht }, [])
  | .iteration now word store whiteNodes env => do
      let dht ← h.dht.iterationOn word now store whiteNodes env
      pure ({ h with dht := dht }, [])
  | .tick => do
      let (_, pkts, dht) ← UdpBitDht.tick h.dht
      pure ({ h with dht := dht }, pkts)
  | .tunnelRequest now r => do
      let tunnel ← tunnelStep h.tunnel (now, r.op)
      pure ({ h with tunnel := tunnel }, [])
  | .tunnelIteration now env => do
      let tunnel ← h.tunnel.iteration now env
      pure ({ h with tunnel := tunnel }, [])
  | .tunnelTick => do
      let (_, pkts, tunnel) ← UdpTunnel.tick h.tunnel
      pure ({ h with tunnel := tunnel }, pkts)

/-! ## A packet -/

/-- The packet waits for an iteration of the receiver. -/
def queued (h : Host mFns) (data : List UInt8) (addr : SockaddrIn) : UdpReceiver → Host mFns
  | .bitDht => { h with dht := { h.dht with
      toBdNodeIter := h.dht.toBdNodeIter.incomingMsg addr data } }
  | .tunnel => { h with tunnel := { h.tunnel with
      toBdTunnelNode := h.tunnel.toBdTunnelNode.incomingMsg addr data } }

/-- Each receiver takes what is recognised. -/
theorem take_eq {data : List UInt8} {ans : Nat} (hans : isBitDhtPacket data data.length = .ok ans)
    (addr : SockaddrIn) (r : UdpReceiver) (h : Host mFns) : take data addr r h =
      .ok (if ans ≠ 0 then (1, h.queued data addr r) else (0, h)) := by
  cases r with
  | bitDht =>
      rw [take, UdpBitDht.recvPkt, hans]
      simp only [ok_bind, pure_eq_ok]
      split_ifs
      · rfl
      · rfl
  | tunnel =>
      rw [take, UdpTunnel.recvPkt, hans]
      simp only [ok_bind, pure_eq_ok]
      split_ifs
      · rfl
      · rfl

/-- The first receiver takes the packet, or none does. -/
theorem recvPkt_cases {data : List UInt8} {ans : Nat} (hans : isBitDhtPacket data data.length = .ok ans)
    (h : Host mFns) (addr : SockaddrIn) : h.recvPkt data addr = .ok h ∨
      ∃ r, h.mReceivers.head? = some r ∧ h.recvPkt data addr = .ok (h.queued data addr r) := by
  by_cases hzero : ans = 0
  · have hnone : ∀ receivers : List UdpReceiver,
        UdpStack.recvPkt (take data addr) receivers h = .ok h := by
      intro receivers
      induction receivers with
      | nil => rfl
      | cons r rest ih =>
          rw [UdpStack.recvPkt, take_eq hans, if_neg (not_not.2 hzero), ok_bind]
          simpa using ih
    exact .inl (hnone h.mReceivers)
  · rcases hreceivers : h.mReceivers with _ | ⟨r, rest⟩
    · rw [recvPkt, hreceivers]
      exact .inl rfl
    · rw [recvPkt, hreceivers, UdpStack.recvPkt, take_eq hans, if_pos hzero, ok_bind]
      exact .inr ⟨r, rfl, by simp⟩

/-- The packet waits with the first receiver, or nothing happens. -/
theorem recvPkt_ok {h h' : Host mFns} {data : List UInt8} {addr : SockaddrIn}
    (hrun : h.recvPkt data addr = .ok h') :
    h' = h ∨ ∃ r, h.mReceivers.head? = some r ∧ h' = h.queued data addr r := by
  rcases hans : isBitDhtPacket data data.length with e | ans
  · -- with a receiver the packet would have been looked at
    rcases hreceivers : h.mReceivers with _ | ⟨r, rest⟩
    · rw [recvPkt, hreceivers] at hrun
      cases hrun
      exact .inl rfl
    · rw [recvPkt, hreceivers, UdpStack.recvPkt] at hrun
      cases r with
      | bitDht =>
          rw [take, UdpBitDht.recvPkt, hans] at hrun
          cases hrun
      | tunnel =>
          rw [take, UdpTunnel.recvPkt, hans] at hrun
          cases hrun
  · rcases recvPkt_cases hans h addr with hsame | ⟨r, hhead, hqueued⟩
    · rw [hsame] at hrun
      cases hrun
      exact .inl rfl
    · rw [hqueued] at hrun
      cases hrun
      exact .inr ⟨r, hhead, rfl⟩

/-- What a step of a program can do to its DHT. -/
inductive DhtStep (c : BdNodeManager mFns) : BdNodeManager mFns → Prop
  | same : DhtStep c c
  | request {c' : BdNodeManager mFns} (now : Int) (r : UserCall)
      (h : managerStep c (now, r.op) = .ok c') : DhtStep c c'
  | iteration {c' : BdNodeManager mFns} (now : Int) (word : Nat → UInt32)
      (store whiteNodes : List BdPeer) (env : IterEnv)
      (h : c.iterationOn word now store whiteNodes env = .ok c') : DhtStep c c'
  | tick : DhtStep c { c with mOutgoingMsgs := c.mOutgoingMsgs.drop maxMsgPerTick }
  | incomingMsg (addr : SockaddrIn) (data : List UInt8) :
      DhtStep c { c with toBdNodeIter := c.toBdNodeIter.incomingMsg addr data }

theorem act_dht {h h' : Host mFns} {a : HostAct} {pkts : List UdpPkt}
    (hact : h.act a = .ok (h', pkts)) : DhtStep h.dht h'.dht := by
  cases a with
  | addReceiver recv | removeReceiver recv =>
      cases hact
      exact .same
  | request now r =>
      rcases bind_eq_ok.1 hact with ⟨c, hc, hrest⟩
      cases hrest
      exact .request now r hc
  | iteration now word store whiteNodes env =>
      rcases bind_eq_ok.1 hact with ⟨c, hc, hrest⟩
      cases hrest
      exact .iteration now word store whiteNodes env hc
  | tick =>
      rcases bind_eq_ok.1 hact with ⟨⟨more, pkts, c⟩, hc, hrest⟩
      cases hrest
      rcases bind_eq_ok.1 hc with ⟨⟨more, pkts, node⟩, htick, hrest⟩
      cases hrest
      rw [BdNode.tick_eq, Except.ok.injEq] at htick
      cases htick
      exact .tick
  | tunnelRequest | tunnelIteration | tunnelTick =>
      rcases bind_eq_ok.1 hact with ⟨c, _, hrest⟩
      cases hrest
      exact .same

theorem recvPkt_dht {h h' : Host mFns} {data : List UInt8} {addr : SockaddrIn}
    (hrun : h.recvPkt data addr = .ok h') : DhtStep h.dht h'.dht := by
  rcases recvPkt_ok hrun with rfl | ⟨r, _, rfl⟩
  · exact .same
  · cases r with
    | bitDht => exact .incomingMsg addr data
    | tunnel => exact .same

end Host

/-! ## Who comes second -/

/-- A step of a program that packets come to from anywhere. -/
inductive HostOp
  | act (a : HostAct)
  | recvPkt (data : List UInt8) (addr : SockaddrIn)

def hostStep (h : Host mFns) : HostOp → Exec (Host mFns)
  | .act a => do
      let (h, _) ← h.act a
      pure h
  | .recvPkt data addr => h.recvPkt data addr

/-- The receiver whose manager an action calls. -/
def HostAct.receiver : HostAct → Option UdpReceiver
  | .addReceiver _ | .removeReceiver _ => none
  | .request .. | .iteration .. | .tick => some .bitDht
  | .tunnelRequest .. | .tunnelIteration .. | .tunnelTick => some .tunnel

/-- The step is an action with the manager of the receiver. -/
def HostOp.calls (r : UdpReceiver) : HostOp → Bool
  | .act a => decide (a.receiver = some r)
  | .recvPkt .. => false

namespace Host

/-- The two programs have the same manager for the receiver. -/
def Same (r : UdpReceiver) (h k : Host mFns) : Prop :=
  match r with
  | .bitDht => h.dht = k.dht
  | .tunnel => h.tunnel = k.tunnel

theorem Same.refl (r : UdpReceiver) (h : Host mFns) : Same r h h := by
  cases r <;> exact rfl

theorem Same.trans {r : UdpReceiver} {h k l : Host mFns} (hk : Same r h k) (hl : Same r k l) :
    Same r h l := by
  cases r with
  | bitDht | tunnel => exact Eq.trans hk hl

variable {r first : UdpReceiver} {h h' k : Host mFns}

/-- The manager of a receiver changes only by an action with it, or by a packet while it comes first. -/
theorem same_of_step {op : HostOp} (hstep : hostStep h op = .ok h') (hcalls : op.calls r = false)
    (hfirst : h.mReceivers.head? ≠ some r) : Same r h' h := by
  cases op with
  | recvPkt data addr =>
      rcases recvPkt_ok hstep with rfl | ⟨q, hq, rfl⟩
      · exact .refl r h'
      · have hne : q ≠ r := fun heq => hfirst (heq ▸ hq)
        cases q with
        | bitDht =>
            cases r with
            | bitDht => exact absurd rfl hne
            | tunnel => exact rfl
        | tunnel =>
            cases r with
            | bitDht => exact rfl
            | tunnel => exact absurd rfl hne
  | act a =>
      rcases bind_eq_ok.1 hstep with ⟨⟨s, pkts⟩, hact, hrest⟩
      cases hrest
      cases a with
      | addReceiver recv | removeReceiver recv =>
          cases hact
          cases r <;> exact rfl
      | request | iteration | tick =>
          rcases bind_eq_ok.1 hact with ⟨c, _, hrest⟩
          cases hrest
          cases r with
          | bitDht => cases hcalls
          | tunnel => exact rfl
      | tunnelRequest | tunnelIteration | tunnelTick =>
          rcases bind_eq_ok.1 hact with ⟨c, _, hrest⟩
          cases hrest
          cases r with
          | bitDht => exact rfl
          | tunnel => cases hcalls

/-- What an action with a manager makes of it depends on the manager alone. -/
theorem step_same {op : HostOp} (hstep : hostStep h op = .ok h') (hcalls : op.calls r = true)
    (hk : Same r h k) : ∃ k', hostStep k op = .ok k' ∧ Same r h' k' := by
  cases op with
  | recvPkt data addr => cases hcalls
  | act a =>
      rcases bind_eq_ok.1 hstep with ⟨⟨s, pkts⟩, hact, hrest⟩
      cases hrest
      cases a with
      | addReceiver recv | removeReceiver recv => cases hcalls
      | request | iteration | tick =>
          rcases bind_eq_ok.1 hact with ⟨c, hc, hrest⟩
          cases hrest
          cases r with
          | tunnel => cases hcalls
          | bitDht =>
              have hdht : h.dht = k.dht := hk
              rw [hdht] at hc
              exact ⟨_, (congrArg (fun x => (x >>= _) >>= _) hc).trans rfl, rfl⟩
      | tunnelRequest | tunnelIteration | tunnelTick =>
          rcases bind_eq_ok.1 hact with ⟨c, hc, hrest⟩
          cases hrest
          cases r with
          | bitDht => cases hcalls
          | tunnel =>
              have htunnel : h.tunnel = k.tunnel := hk
              rw [htunnel] at hc
              exact ⟨_, (congrArg (fun x => (x >>= _) >>= _) hc).trans rfl, rfl⟩

/-- The first receiver stays so until it is removed. -/
theorem head_of_step {op : HostOp} (hstep : hostStep h op = .ok h')
    (hfirst : h.mReceivers.head? = some first) (hkeep : op ≠ .act (.removeReceiver first)) :
    h'.mReceivers.head? = some first := by
  cases op with
  | recvPkt data addr =>
      rcases recvPkt_ok hstep with rfl | ⟨q, _, rfl⟩
      · exact hfirst
      · cases q <;> exact hfirst
  | act a =>
      rcases bind_eq_ok.1 hstep with ⟨⟨s, pkts⟩, hact, hrest⟩
      cases hrest
      rcases List.head?_eq_some_iff.1 hfirst with ⟨rest, hreceivers⟩
      cases a with
      | addReceiver recv =>
          cases hact
          simp only [UdpStack.addReceiver]
          split_ifs
          · exact hfirst
          · rw [hreceivers]
            rfl
      | removeReceiver recv =>
          cases hact
          have hne : first ≠ recv := fun heq => hkeep (heq ▸ rfl)
          simp only [UdpStack.removeReceiver]
          split_ifs
          · rw [hreceivers, List.erase_cons_tail (by simpa using hne)]
            rfl
          · exact hfirst
      | request | iteration | tick | tunnelRequest | tunnelIteration | tunnelTick =>
          rcases bind_eq_ok.1 hact with ⟨c, _, hrest⟩
          cases hrest
          exact hfirst

/-- While another receiver comes first, a manager is as if only the actions with it had happened: it is
never handed a packet, whatever packets come. -/
theorem run_behind {ops : List HostOp} (hne : first ≠ r) (hfirst : h.mReceivers.head? = some first)
    (hkeep : ∀ op ∈ ops, op ≠ .act (.removeReceiver first))
    (hrun : ops.foldlM hostStep h = .ok h') :
    ∃ h'', (ops.filter (HostOp.calls r)).foldlM hostStep h = .ok h'' ∧ Same r h' h'' := by
  have hgen : ∀ k : Host mFns, Same r h k → ∃ k',
      (ops.filter (HostOp.calls r)).foldlM hostStep k = .ok k' ∧ Same r h' k' := by
    induction ops generalizing h with
    | nil =>
        cases hrun
        exact fun k hk => ⟨k, rfl, hk⟩
    | cons op ops ih =>
        intro k hk
        rw [List.foldlM_cons] at hrun
        rcases bind_eq_ok.1 hrun with ⟨h₁, hstep, hrest⟩
        have hhead := head_of_step hstep hfirst (hkeep op List.mem_cons_self)
        have hlater := ih hhead (fun x hx => hkeep x (List.mem_cons_of_mem op hx)) hrest
        rcases hcalls : op.calls r with _ | _
        · -- a step of the others leaves the manager as it is
          rw [List.filter_cons_of_neg (by simp [hcalls])]
          have hsame := same_of_step hstep hcalls
            (fun heq => hne (Option.some.inj (hfirst.symm.trans heq)))
          exact hlater k (hsame.trans hk)
        · rcases step_same hstep hcalls hk with ⟨k₁, hk₁, hsame⟩
          rcases hlater k₁ hsame with ⟨k', hk', hsame'⟩
          refine ⟨k', ?_, hsame'⟩
          rw [List.filter_cons_of_pos hcalls, List.foldlM_cons, hk₁, ok_bind, hk']
  exact hgen h (.refl r h)

/-- A PING comes to a program whose tunnel is started. -/
theorem run_behind_ping : ∃ (h : Host bdStdDht) (ops : List HostOp) (h' : Host bdStdDht),
    ops.foldlM hostStep h = .ok h' ∧ h'.dht.mIncomingMsgs ≠ [] ∧
      ∃ h'', (ops.filter (HostOp.calls .tunnel)).foldlM hostStep h = .ok h'' ∧
        Same .tunnel h' h'' := by
  let h : Host bdStdDht := ⟨[.bitDht, .tunnel],
    BdNodeManager.new bdZeroNodeId [] [] [] (fun _ => 0), BdTunnelManager.new bdZeroNodeId (.plain ..)⟩
  let ops : List HostOp :=
    [.recvPkt (ascii "d1:ad2:id20:aaaaaaaaaaaaaaaaaaaae1:q4:ping1:t2:aa1:y1:qe")
      ⟨afInet, 16777343, 8080⟩, .act (.tunnelRequest 1 ⟨.startTunnel, trivial⟩)]
  have hrun : Outcome.holds (ops.foldlM hostStep h)
      (fun h' => !h'.dht.mIncomingMsgs.isEmpty) = true := by decide +kernel
  rcases Outcome.holds_iff.1 hrun with ⟨h', hh', htest⟩
  have hne : UdpReceiver.bitDht ≠ .tunnel := nofun
  refine ⟨h, ops, h', hh', ?_, run_behind hne rfl ?_ hh'⟩
  · intro hnil
    rw [hnil] at htest
    cases htest
  · intro op hop
    rcases List.mem_pair.1 hop with rfl | rfl
    · exact nofun
    · exact nofun

end Host

end BitDht
