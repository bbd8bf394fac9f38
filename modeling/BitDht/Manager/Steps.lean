import BitDht.Manager.Calls
import BitDht.Node.Provenance

/-!
# Steps — the calls of a manager as calls on its node

What holds over each packet and each call that sends holds over an iteration (`iterationOn_meets`), and what
holds over the other calls on a node holds over the switch of the modes and over each call of the user
(`CallsKeep.changeMode`, `CallsKeep.request`).
-/

namespace BitDht

open Container Outcome

variable {mFns : BdDhtFunctions}

/-! ## What an iteration comes to -/

section meets

variable {Bad : Prop} {Inv : BdNode mFns → Prop} {now : Int} {env : IterEnv}

theorem BdNodeIter.recvPktsOn_meets {word : Nat → UInt32} {msgs : List BdNodeNetMsg}
    (hrecv : ∀ m ∈ msgs, ∀ word junk s, Inv s →
      Meets Bad (s.recvPktOn word now junk m.data m.data.length m.addr) Inv)
    {i : Nat} {s : BdNode mFns} (hs : Inv s) : Meets Bad (recvPktsOn word now env i msgs s) Inv := by
  induction msgs generalizing i s with
  | nil => exact hs
  | cons m msgs ih =>
      exact (hrecv m List.mem_cons_self _ _ s hs).bind
        (fun s hs => ih (fun m hm => hrecv m (List.mem_cons_of_mem _ hm)) hs)

variable (hcall : ∀ c : NodeCall, c.Sends → ∀ s : BdNode mFns, Inv s →
  Meets Bad (callStep s (now, c)) Inv)

include hcall

/-- The loops after the packets. -/
theorem BdNodeIter.iterate_meets {s : BdNode mFns} (hs : Inv s) :
    Meets Bad (iterate s now env []) Inv := by
  have hping := fun (s : BdNode mFns) hs =>
    hcall (.pingPotential BdNode.allowedPings) trivial s hs
  -- the call forgets how many more pings there could be
  have hleft : ∀ s : BdNode mFns, Inv s →
      Meets Bad (BdNode.pingPotential BdNode.allowedPings s) (fun r => Inv r.2) := by
    intro s hs
    have hcall := hping s hs
    rw [callStep] at hcall
    rcases hrun : BdNode.pingPotential BdNode.allowedPings s with e | ⟨left, s'⟩
    · rwa [hrun] at hcall
    · rwa [hrun] at hcall
  refine (hleft s hs).bind ?_
  rintro ⟨left, s₁⟩ hs₁
  have hask := hcall (.askQueries env s₁.mLocalQueries.length 0 (BdNode.allowedPings - left))
    trivial s₁ hs₁
  refine Meets.bind hask ?_
  intro s₂ hs₂
  have hreply := hcall .processRemoteQuery trivial s₂ hs₂
  refine Meets.bind hreply ?_
  intro s₃ hs₃
  exact hcall (.pingOutOfDate s₃.mNodeSpace.calcSpaceSize) trivial s₃ hs₃

theorem BdNodeIter.broadcastPeers_meets {s : BdNodeIter mFns} (hs : Inv s.toBdNode) :
    Meets Bad s.broadcastPeers
      (fun s' => Inv s'.toBdNode ∧ s'.mIncomingMsgs = s.mIncomingMsgs) := by
  have hpeers : ∀ (peers : List BdPeer) (s : BdNode mFns), Inv s →
      Meets Bad (peers.foldlM BdNode.broadcastTo s) Inv := by
    intro peers s hs
    exact Meets.foldlM (fun it _ s hs =>
      hcall (.broadcastTo it) trivial s hs) hs
  refine (hpeers s.mWhiteNodes s.toBdNode hs).bind ?_
  intro s₁ hs₁
  refine (hpeers s₁.mStore s₁ hs₁).bind ?_
  intro s₂ hs₂
  exact ⟨hs₂, rfl⟩

theorem BdNode.punching_meets {times : Nat} {s : BdNode mFns} (hs : Inv s) :
    Meets Bad (s.punching times) Inv :=
  Meets.foldlM (fun it _ s hs =>
    hcall (.punch times it) trivial s hs) hs

/-- What holds after the packets and over each call that sends holds over an iteration. -/
theorem BdNodeIter.iterationOn_meets_of_recv {word : Nat → UInt32} {s : BdNodeIter mFns}
    (hrecv : Meets Bad (recvPktsOn word now env 0 s.mIncomingMsgs s.toBdNode) Inv) :
    Meets Bad (s.iterationOn word now env)
      (fun s' => Inv s'.toBdNode ∧ s'.mIncomingMsgs = []) := by
  refine hrecv.bind ?_
  intro node hnode
  refine (iterate_meets hcall hnode).bind ?_
  intro node hnode
  have hpunch : ∀ s : BdNodeIter mFns, Inv s.toBdNode ∧ s.mIncomingMsgs = [] →
      Meets Bad (s.toBdNode.punching 100 >>= fun node => pure { s with toBdNode := node })
        (fun s' => Inv s'.toBdNode ∧ s'.mIncomingMsgs = []) := by
    intro s hs
    exact (BdNode.punching_meets hcall hs.1).bind (fun node hnode => ⟨hnode, hs.2⟩)
  dsimp only
  split_ifs
  · exact (broadcastPeers_meets hcall hnode).bind (fun s hs => hpunch s hs)
  · exact (broadcastPeers_meets hcall hnode).bind (fun s hs => hs)
  · exact hpunch _ ⟨hnode, rfl⟩
  · exact ⟨hnode, rfl⟩

/-- What holds over each packet that waits and over each call that sends holds over an iteration. -/
theorem BdNodeIter.iterationOn_meets {word : Nat → UInt32} {s : BdNodeIter mFns}
    (hrecv : ∀ m ∈ s.mIncomingMsgs, ∀ word junk s, Inv s →
      Meets Bad (s.recvPktOn word now junk m.data m.data.length m.addr) Inv)
    (hs : Inv s.toBdNode) : Meets Bad (s.iterationOn word now env)
      (fun s' => Inv s'.toBdNode ∧ s'.mIncomingMsgs = []) :=
  iterationOn_meets_of_recv hcall (recvPktsOn_meets hrecv hs)

end meets

/-! ## The other calls -/

/-- The calls of the user: none of a packet, and no iteration. -/
def ManagerOp.IsRequest : ManagerOp → Prop
  | .incomingMsg .. | .outgoingMsg | .iteration .. => False
  | _ => True

theorem managerStepOn_request (c : BdNodeManager mFns) (word : Nat → UInt32) (now : Int)
    {op : ManagerOp} (hop : op.IsRequest) :
    managerStepOn c (word, now, op) = managerStep c (now, op) := by
  cases op with
  | iteration => exact hop.elim
  | _ => rfl

/-- What the calls on a node hold on to that neither receive nor send, `addConnReq` apart. -/
structure CallsKeep (now : Int) (Inv : BdNode mFns → Prop) : Prop where
  addQuery : ∀ {s} id qflags, Inv s → Inv (s.addQuery now id qflags)
  clearQuery : ∀ {s} rmId, Inv s → Inv (s.clearQuery rmId)
  addPotentialPeer : ∀ {s} id, Inv s → Inv (s.addPotentialPeer id)
  reloadStore : ∀ {s} store, Inv s → Inv { s with mStore := store }
  shutdownNode : ∀ {s}, Inv s → Inv s.shutdownNode

namespace CallsKeep

variable {now : Int} {Inv : BdNode mFns → Prop} {c : BdNodeManager mFns}

theorem startDht (hkeep : CallsKeep now Inv) (hc : Inv c.toBdNode) (store whiteNodes : List BdPeer) :
    Inv (c.startDht now store whiteNodes).toBdNode := by
  have hpeers : ∀ (peers : List BdPeer) (s : BdNode mFns), Inv s →
      Inv (peers.foldl (fun s it => s.addPotentialPeer it.mPeerId) s) := by
    intro peers
    induction peers with
    | nil => exact fun s hs => hs
    | cons it peers ih => exact fun s hs => ih _ (hkeep.addPotentialPeer it.mPeerId hs)
  exact hpeers whiteNodes _ (hpeers store _ (hkeep.reloadStore store hc))

theorem startQueries (hkeep : CallsKeep now Inv) (hc : Inv c.toBdNode) :
    Inv (c.startQueries now).toBdNode := by
  have hall : ∀ (entries : List (BdNodeId × BdQueryPeer)) (c : BdNodeManager mFns), Inv c.toBdNode →
      Inv (entries.foldl (BdNodeManager.startQuery now) c).toBdNode := by
    intro entries
    induction entries with
    | nil => exact fun c hc => hc
    | cons it entries ih =>
        intro c hc
        apply ih
        rw [BdNodeManager.startQuery]
        split_ifs
        · exact hkeep.addQuery it.1 _ hc
        · exact hc
  exact hall c.mActivePeers.entries c hc

theorem checkStatus (hkeep : CallsKeep now Inv) (hc : Inv c.toBdNode) :
    Inv c.checkStatus.toBdNode := by
  have hall : ∀ (entries : List (BdNodeId × BdQueryStatus)) (c : BdNodeManager mFns),
      Inv c.toBdNode → Inv (entries.foldl BdNodeManager.checkQuery c).toBdNode := by
    intro entries
    induction entries with
    | nil => exact fun c hc => hc
    | cons it entries ih =>
        intro c hc
        apply ih
        rw [c.checkQuery_eq it]
        by_cases hremoved : BdNodeManager.removed it = true
        · rw [if_pos hremoved]
          exact hkeep.clearQuery it.1 hc
        · rw [if_neg hremoved]
          exact hc
  exact hall c.queryStatus.entries c hc

/-- The switch of the modes. -/
theorem changeMode (hkeep : CallsKeep now Inv) (hc : Inv c.toBdNode) (store whiteNodes : List BdPeer) :
    Inv (c.changeMode now store whiteNodes).toBdNode := by
  cases BdNodeManager.changeMode_cases c now store whiteNodes with
  | kept mode ts _ _ _ hrun =>
      rw [hrun]
      exact hc
  | started _ _ hrun =>
      rw [hrun]
      exact hkeep.addQuery startupId _ (hkeep.addQuery c.mOwnId _ hc)
  | refreshed _ hrun =>
      rw [hrun]
      exact hkeep.checkStatus (hkeep.startQueries hc)
  | restarted _ hrun =>
      rw [hrun]
      exact hkeep.startDht (hkeep.shutdownNode hc) store whiteNodes

/-- A call of the user, who may have a connection asked for. -/
theorem request (hkeep : CallsKeep now Inv) (hc : Inv c.toBdNode) {op : ManagerOp}
    (hop : op.IsRequest) (hconn : ∀ {s : BdNode mFns} id qflags sinFamily,
      op = .addFindNode id qflags sinFamily → Inv s → Inv (s.addConnReq id)) :
    Meets False (managerStep c (now, op)) (fun c' => Inv c'.toBdNode) := by
  cases op with
  | startDht store whiteNodes => exact hkeep.startDht hc store whiteNodes
  | stopDht => exact hkeep.shutdownNode hc
  | addFindNode id qflags sinFamily =>
      show Inv (c.addFindNode id qflags sinFamily).toBdNode
      rw [BdNodeManager.addFindNode]
      split
      · exact hc
      · exact hconn id qflags sinFamily rfl hc
  | removeFindNode id =>
      show Inv (c.removeFindNode id).toBdNode
      rw [BdNodeManager.removeFindNode]
      split
      · exact hc
      · exact hkeep.clearQuery id hc
  | removeAllFindNode =>
      have hall : ∀ (entries : List (BdNodeId × BdQueryPeer)) (c : BdNodeManager mFns),
          Inv c.toBdNode → Inv (entries.foldl (fun c it =>
            if it.1 = c.mOwnId then c else c.onNode (fun s => s.clearQuery it.1)) c).toBdNode := by
        intro entries
        induction entries with
        | nil => exact fun c hc => hc
        | cons it entries ih =>
            intro c hc
            apply ih
            dsimp only
            split_ifs
            · exact hc
            · exact hkeep.clearQuery it.1 hc
      exact hall c.mActivePeers.entries c hc
  | addCallback cb =>
      show Inv (c.addCallback cb).toBdNode
      rw [BdNodeManager.addCallback]
      split_ifs
      · exact hc
      · exact hc
  | removeCallback cb => exact hc
  | incomingMsg | outgoingMsg | iteration => exact hop.elim

end CallsKeep

/-! ## What a manager keeps -/

/-- The switch leaves the packets that wait. -/
theorem BdNodeManager.mIncomingMsgs_changeMode (c : BdNodeManager mFns) (now : Int)
    (store whiteNodes : List BdPeer) :
    (c.changeMode now store whiteNodes).mIncomingMsgs = c.mIncomingMsgs := by
  cases BdNodeManager.changeMode_cases c now store whiteNodes with
  | kept mode ts _ _ _ hrun => rw [hrun]
  | started _ _ hrun =>
      rw [hrun]
      rfl
  | refreshed _ hrun =>
      rcases c.refreshed_eq now with ⟨active, hrefresh, _⟩
      rcases (c.refreshed now).checkStatus_eq with ⟨active', hcheck, _⟩
      rw [hrun, hcheck, hrefresh]
  | restarted _ hrun =>
      rw [hrun, BdNodeManager.startDht, BdNodeManager.restartNode_eq]
      rfl

/-- A call of the user comes back, and leaves the packets that wait. -/
theorem managerStep_request (c : BdNodeManager mFns) (now : Int) {op : ManagerOp}
    (hop : op.IsRequest) : ∃ c', managerStep c (now, op) = .ok c' ∧
      c'.mIncomingMsgs = c.mIncomingMsgs := by
  cases op with
  | startDht store whiteNodes =>
      refine ⟨_, rfl, ?_⟩
      rw [BdNodeManager.startDht, BdNodeManager.restartNode_eq]
  | stopDht => exact ⟨_, rfl, rfl⟩
  | addFindNode id qflags sinFamily =>
      refine ⟨_, rfl, ?_⟩
      rw [BdNodeManager.addFindNode]
      split
      · rfl
      · rfl
  | removeFindNode id =>
      refine ⟨_, rfl, ?_⟩
      rw [BdNodeManager.removeFindNode]
      split
      · rfl
      · rfl
  | removeAllFindNode =>
      refine ⟨_, rfl, ?_⟩
      rw [BdNodeManager.removeAllFindNode_eq]
  | addCallback cb =>
      refine ⟨_, rfl, ?_⟩
      rw [BdNodeManager.addCallback]
      split_ifs
      · rfl
      · rfl
  | removeCallback cb => exact ⟨_, rfl, rfl⟩
  | incomingMsg | outgoingMsg | iteration => exact hop.elim

/-- What holds over each packet that waits and over each call on the node holds over an iteration. -/
theorem BdNodeManager.iterationOn_meets {Bad : Prop} {Inv : BdNode mFns → Prop} {now : Int}
    {c : BdNodeManager mFns} (hkeep : CallsKeep now Inv) (hcall : ∀ c : NodeCall, c.Sends →
      ∀ s : BdNode mFns, Inv s → Meets Bad (callStep s (now, c)) Inv)
    (hrecv : ∀ m ∈ c.mIncomingMsgs, ∀ word junk s, Inv s →
      Meets Bad (s.recvPktOn word now junk m.data m.data.length m.addr) Inv)
    (hc : Inv c.toBdNode) (word : Nat → UInt32) (store whiteNodes : List BdPeer) (env : IterEnv) :
    Meets Bad (c.iterationOn word now store whiteNodes env)
      (fun c' => Inv c'.toBdNode ∧ c'.mIncomingMsgs = []) := by
  have hmode := hkeep.changeMode hc store whiteNodes
  rw [← c.mIncomingMsgs_changeMode now store whiteNodes] at hrecv
  simp only [iterationOn]
  split_ifs
  · exact ⟨hmode, rfl⟩
  · exact (BdNodeIter.iterationOn_meets hcall hrecv hmode).bind (fun node hnode => hnode)

end BitDht
