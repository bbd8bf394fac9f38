import BitDht.Manager.Address
import BitDht.Manager.Steps

/-!
# Sources — what the user is told, and the packets that it comes from

A callback names a peer and `getDhtPeerAddress` hands out an address.  Whatever packets come in, a peer that
is named sent a packet or was listed in one, a peer that is said to be online sent one, and an address that
is handed out is that of a packet with the id, or none at all (`run_sourced`).
-/

namespace BitDht

open Container Outcome

variable {mFns : BdDhtFunctions}

namespace BdNodeManager

/-! ## Sources -/

variable {heard told : BdId → Prop} {c c' : BdNodeManager mFns}

/-- What the address that is handed out for an id can be. -/
def Source (heard : BdId → Prop) (id : BdNodeId) (addr : SockaddrIn) : Prop :=
  addr.sAddr = 0 ∧ addr.sinPort = 0 ∨ heard ⟨addr, id⟩

/-- A call of `dhtPeerCallback` about a peer that was heard from or told of, and if it is said to be
online, one with the id of a peer that was heard from. -/
def CallSourced (heard told : BdId → Prop) (k : PeerCallback) : Prop :=
  (heard k.peer.mPeerId ∨ told k.peer.mPeerId) ∧
    (k.status = bitdhtMgrQueryPeerOnline → ∃ id, heard id ∧ id.id = k.peer.mPeerId.id)

/-- What the manager and its node have, and what the user is told. -/
structure Sourced (heard told : BdId → Prop) (c : BdNodeManager mFns) : Prop where
  known : Knows heard told c.toBdNode
  anchored : ∀ q ∈ c.mLocalQueries, Anchored mFns q
  addresses : ∀ id addr, c.getDhtPeerAddress id = some addr → Source heard id addr
  callbacks : ∀ k ∈ c.peerCallbacks, CallSourced heard told k

theorem Sourced.mono {heard' told' : BdId → Prop} (h : Sourced heard told c)
    (hheard : ∀ id, heard id → heard' id) (htold : ∀ id, told id → told' id) :
    Sourced heard' told' c where
  known := h.known.mono hheard htold
  anchored := h.anchored
  addresses := fun id addr hget => (h.addresses id addr hget).imp_right (hheard _)
  callbacks := fun k hk => ⟨(h.callbacks k hk).1.imp (hheard _) (htold _),
    fun hstatus => ((h.callbacks k hk).2 hstatus).imp (fun _ hid => ⟨hheard _ hid.1, hid.2⟩)⟩

theorem Sourced.new (id : BdNodeId) (dhtVersion : List UInt8) (store whiteNodes : List BdPeer)
    (rand : Nat → UInt32) :
    Sourced heard told
      (BdNodeManager.new id dhtVersion store whiteNodes rand : BdNodeManager mFns) where
  known := .new ..
  anchored := fun _ hq => absurd hq List.not_mem_nil
  addresses := fun _ _ hget => nomatch hget
  callbacks := fun _ hk => absurd hk List.not_mem_nil

/-- A new query asks peers of the table. -/
theorem knows_newQuery {s : BdNode mFns} (h : Knows heard told s)
    (now : Int) (id : BdNodeId) (qflags : UInt32) : (s.newQuery now id qflags).Knows heard told := by
  have hafter := (h.addQuery now id qflags).queries
  exact hafter _ (List.mem_append_right _ (List.mem_singleton.2 rfl))

/-! ## `checkStatus` -/

/-- The node with the queries that `startQueries` adds. -/
theorem Sourced.refreshed (h : Sourced heard told c) (now : Int) : Sourced heard told (c.refreshed now) := by
  rcases c.refreshed_eq now with ⟨active, hrun, hasked⟩
  have hqueries : ∀ q ∈ (c.refreshed now).mLocalQueries,
      q.Knows heard told ∧ Anchored mFns q := by
    intro q hq
    rcases mem_refreshed hq with hold | ⟨it, _, rfl⟩
    · exact ⟨h.known.queries q hold, h.anchored q hold⟩
    · exact ⟨knows_newQuery h.known .., anchored_new ..⟩
  have haddresses : ∀ id addr, (c.refreshed now).getDhtPeerAddress id = some addr →
      Source heard id addr := by
    intro id addr hget
    rcases getDhtPeerAddress_eq_some_iff.1 hget with ⟨peer, hpeer, hstatus, haddr⟩
    rw [hrun] at hpeer
    dsimp only at hpeer
    rw [hasked, Option.map_eq_some_iff] at hpeer
    rcases hpeer with ⟨old, hold, rfl⟩
    have hsame := asked_of_success hstatus
    rw [hsame] at hstatus haddr
    exact h.addresses id addr (getDhtPeerAddress_eq_some_iff.2 ⟨old, hold, hstatus, haddr⟩)
  rw [hrun] at hqueries haddresses ⊢
  exact ⟨⟨h.known.space, fun q hq => (hqueries q hq).1, h.known.remote, h.known.addrs⟩,
    fun q hq => (hqueries q hq).2, haddresses, h.callbacks⟩

/-- The address that `checkStatus` notes when it finds a query in the state SUCCESS. -/
theorem Sourced.updatePeer (hxor : mFns.bdDistance = bdStdDistance) (h : Sourced heard told c)
    {q : BdQuery} (hq : q ∈ c.mLocalQueries) {peer : BdQueryPeer}
    (hstatus : (BdNodeManager.updatePeer peer q.status).mStatus = .success) :
    Source heard q.mId (BdNodeManager.updatePeer peer q.status).mDhtAddr := by
  have hsuccess : q.mState = .success := hstatus
  rcases hresults : q.result with _ | ⟨front, results⟩
  · refine .inl ?_
    simp [BdNodeManager.updatePeer, BdQuery.status, checkFlags, hsuccess, hresults]
  · rw [mDhtAddr_updatePeer hstatus hresults]
    rcases mem_result hxor (h.anchored q hq) (hresults ▸ List.mem_cons_self) with
      ⟨e, he, hpeerId, hid⟩
    have hheard := (h.known.queries q hq).closest e he
    rw [hpeerId] at hheard
    rw [← hid]
    exact .inr hheard

theorem Sourced.checkStatus (hxor : mFns.bdDistance = bdStdDistance) (h : Sourced heard told c) :
    Sourced heard told c.checkStatus := by
  have hcalls : ∀ k ∈ c.statusCalls, CallSourced heard told k := by
    intro k hk
    rcases mem_statusCalls_iff.1 hk with ⟨id, l, p, f, hlast, _, hfirst, hpeer, _, _, _, hstatus⟩
    have hf := h.known.queries f (List.mem_of_find?_eq_some hfirst)
    have hl := mId_of_lastQuery hlast
    constructor
    · rcases List.mem_map.1 (List.mem_filter.1 hpeer).1 with ⟨e, he, heq⟩
      rw [← heq]
      exact (List.mem_append.1 he).imp (hf.closest e) (hf.potential e)
    · intro honline
      rw [honline] at hstatus
      have hsuccess : l.mState = .success := state_eq_of_callbackStatus rfl hstatus
      rcases (h.known.queries l hl.1).success hsuccess with ⟨x, hx, hxid⟩
      exact ⟨x, hx, by rw [hxid, hl.2, mId_of_mem_matchResult hpeer, mId_of_firstQuery hfirst]⟩
  have haddresses : ∀ id addr, c.checkStatus.getDhtPeerAddress id = some addr →
      Source heard id addr := by
    intro id addr hget
    rcases getDhtPeerAddress_eq_some_iff.1 hget with ⟨peer, hpeer, hstatus, haddr⟩
    rw [find_checkStatus, Option.map_eq_some_iff] at hpeer
    rcases hpeer with ⟨old, hold, rfl⟩
    rw [checked] at hstatus haddr
    split at hstatus
    · rename_i q hlast
      rw [hlast] at haddr
      have hq := mId_of_lastQuery hlast
      rw [← haddr, ← hq.2]
      exact h.updatePeer hxor hq.1 hstatus
    · rename_i hlast
      rw [hlast] at haddr
      exact h.addresses id addr (getDhtPeerAddress_eq_some_iff.2 ⟨old, hold, hstatus, haddr⟩)
  rw [statusCalls] at hcalls
  rcases c.checkStatus_eq with ⟨active, hrun, _⟩
  rw [hrun] at hcalls haddresses ⊢
  rw [List.drop_left] at hcalls
  refine ⟨⟨h.known.space, fun q hq => h.known.queries q (List.mem_of_mem_filter hq),
    h.known.remote, h.known.addrs⟩, fun q hq => h.anchored q (List.mem_of_mem_filter hq), haddresses, ?_⟩
  intro k hk
  rcases List.mem_append.1 hk with hk | hk
  · exact h.callbacks k hk
  · exact hcalls k hk

/-! ## The other calls -/

/-- A stopped manager hands out no address. -/
theorem Sourced.stopDht (h : Sourced heard told c) (now : Int) : Sourced heard told (c.stopDht now) where
  known := h.known.shutdownNode
  anchored := fun _ hq => absurd hq List.not_mem_nil
  addresses := fun id addr hget => absurd hget (not_notedAt_stopDht (id, addr) c now)
  callbacks := h.callbacks

theorem Sourced.startDht (h : Sourced heard told c) (now : Int) (store whiteNodes : List BdPeer) :
    Sourced heard told (c.startDht now store whiteNodes) := by
  rw [BdNodeManager.startDht, restartNode_eq]
  exact ⟨⟨h.known.space, h.known.queries, h.known.remote, h.known.addrs⟩, h.anchored,
    h.addresses, h.callbacks⟩

/-- With the same node and callbacks only the addresses are to be looked at. -/
theorem Sourced.of_find (h : Sourced heard told c) (hnode : Knows heard told c'.toBdNode)
    (hqueries : c'.mLocalQueries ⊆ c.mLocalQueries)
    (hget : ∀ b, NotedAt b c' → NotedAt b c) (hcalls : c'.peerCallbacks = c.peerCallbacks) :
    Sourced heard told c' where
  known := hnode
  anchored := fun q hq => h.anchored q (hqueries hq)
  addresses := fun id addr hnoted => h.addresses id addr (hget (id, addr) hnoted)
  callbacks := fun k hk => h.callbacks k (hcalls ▸ hk)

/-- Fewer queries. -/
theorem Knows.of_queries {s : BdNode mFns} (h : Knows heard told s)
    {queries : List BdQuery} (hsub : queries ⊆ s.mLocalQueries) :
    Knows heard told { s with mLocalQueries := queries } :=
  ⟨h.space, fun q hq => h.queries q (hsub hq), h.remote, h.addrs⟩

theorem Sourced.addFindNode (h : Sourced heard told c) (id : BdNodeId) (qflags : UInt32) (sinFamily : Nat) :
    Sourced heard told (c.addFindNode id qflags sinFamily) := by
  have hnoted : ∀ b, NotedAt b (c.addFindNode id qflags sinFamily) → NotedAt b c :=
    fun b hb => hb.of_addFindNode
  rw [BdNodeManager.addFindNode] at hnoted ⊢
  split at hnoted
  · exact h
  · exact h.of_find ⟨h.known.space, h.known.queries, h.known.remote, h.known.addrs⟩
      (List.Subset.refl _) hnoted rfl

theorem Sourced.removeFindNode (h : Sourced heard told c) (id : BdNodeId) :
    Sourced heard told (c.removeFindNode id) := by
  have hnoted : ∀ b, NotedAt b (c.removeFindNode id) → NotedAt b c :=
    fun b hb => hb.of_removeFindNode
  rw [BdNodeManager.removeFindNode] at hnoted ⊢
  split at hnoted
  · exact h
  · exact h.of_find (Knows.of_queries h.known List.filter_sublist.subset)
      List.filter_sublist.subset hnoted rfl

theorem Sourced.removeAllFindNode (h : Sourced heard told c) : Sourced heard told c.removeAllFindNode := by
  rw [removeAllFindNode_eq]
  refine h.of_find (Knows.of_queries h.known List.filter_sublist.subset)
    List.filter_sublist.subset ?_ rfl
  intro b hb
  exact hb.of_find (fun peer hpeer _ => nomatch hpeer)

theorem Sourced.changeMode (hxor : mFns.bdDistance = bdStdDistance) (h : Sourced heard told c) (now : Int)
    (store whiteNodes : List BdPeer) : Sourced heard told (c.changeMode now store whiteNodes) := by
  cases changeMode_cases c now store whiteNodes with
  | kept mode ts _ _ _ hrun =>
      rw [hrun]
      exact ⟨h.known, h.anchored, h.addresses, h.callbacks⟩
  | started _ _ hrun =>
      have hown := h.known.addQuery now c.mOwnId (bitdhtQflagsDoIdle ||| bitdhtQflagsDisguise)
      have hstartup := hown.addQuery now startupId (bitdhtQflagsDoIdle ||| bitdhtQflagsDisguise)
      rw [hrun]
      refine ⟨hstartup, ?_, h.addresses, h.callbacks⟩
      intro q hq
      rcases List.mem_append.1 hq with hq | hq
      · rcases List.mem_append.1 hq with hq | hq
        · exact h.anchored q hq
        · rw [List.mem_singleton.1 hq]
          exact anchored_new ..
      · rw [List.mem_singleton.1 hq]
        exact anchored_new ..
  | refreshed _ hrun =>
      rw [hrun]
      exact (h.refreshed now).checkStatus hxor
  | restarted _ hrun =>
      rw [hrun]
      exact (h.stopDht now).startDht now store whiteNodes

/-- The queries go through calls of their own, and the manager is as before. -/
theorem Sourced.of_node (h : Sourced heard told c) {node : BdNodeIter mFns}
    (hknown : Knows heard told node.toBdNode) (hnode : NodeEvolved c.toBdNode node.toBdNode) :
    Sourced heard told { c with toBdNodeIter := node } where
  known := hknown
  anchored := hnode.queries.forall_mem queryStep_anchored h.anchored
  addresses := h.addresses
  callbacks := h.callbacks

/-- An iteration hears from the senders of the packets that wait. -/
theorem Sourced.iterationOn (hxor : mFns.bdDistance = bdStdDistance) (h : Sourced heard told c)
    (hheard : ∀ m ∈ c.mIncomingMsgs, ∀ junk id, id.addr = m.addr → NamesSender junk m.data id →
      heard id)
    (htold : ∀ m ∈ c.mIncomingMsgs, ∀ id, ListsPeer m.data id → told id) {word : Nat → UInt32}
    {now : Int} {store whiteNodes : List BdPeer} {env : IterEnv}
    (hrun : c.iterationOn word now store whiteNodes env = .ok c') :
    Sourced heard told c' ∧ c'.mIncomingMsgs = [] := by
  have hmode := h.changeMode hxor now store whiteNodes
  have hmsgs := c.mIncomingMsgs_changeMode now store whiteNodes
  have hkept := iterationOn_ok hrun
  simp only [BdNodeManager.iterationOn] at hrun
  split_ifs at hrun
  · cases hrun
    exact ⟨⟨hmode.known, hmode.anchored, hmode.addresses, hmode.callbacks⟩, rfl⟩
  · rcases bind_eq_ok.1 hrun with ⟨node, hnode, hrest⟩
    cases hrest
    have hknown : Knows heard told node.toBdNode ∧ node.mIncomingMsgs = [] := by
      refine meets_true_iff.1 (BdNodeIter.iterationOn_meets ?_ ?_ hmode.known) node hnode
      · intro c hc s hs
        exact meets_true_iff.2 (fun s' hs' => hs.of_callStep (fun _ _ _ _ heq => (heq ▸ hc).elim) hs')
      · intro m hm word junk s hs
        rw [hmsgs] at hm
        exact meets_true_iff.2 (fun s' hs' => hs.recvPkt (hheard m hm junk) (htold m hm) hs')
    exact ⟨hmode.of_node hknown.1 hkept.2, hknown.2⟩

/-! ## Runs -/

/-- A packet came in from the address of the peer and gave its id. -/
def Heard (ops : List (Int × ManagerOp)) (id : BdId) : Prop :=
  ∃ t junk p, (t, .incomingMsg id.addr p) ∈ ops ∧ NamesSender junk p id

/-- A packet that came in listed the peer. -/
def Told (ops : List (Int × ManagerOp)) (id : BdId) : Prop :=
  ∃ t addr p, (t, .incomingMsg addr p) ∈ ops ∧ ListsPeer p id

variable {ops ops' : List (Int × ManagerOp)}

theorem Heard.mono {id : BdId} (h : Heard ops id) (hsub : ops ⊆ ops') : Heard ops' id := by
  rcases h with ⟨t, junk, p, hmem, hnames⟩
  exact ⟨t, junk, p, hsub hmem, hnames⟩

theorem Told.mono {id : BdId} (h : Told ops id) (hsub : ops ⊆ ops') : Told ops' id := by
  rcases h with ⟨t, addr, p, hmem, hlists⟩
  exact ⟨t, addr, p, hsub hmem, hlists⟩

theorem Sourced.request (h : Sourced heard told c) {op : ManagerOp} (hop : op.IsRequest) {now : Int}
    (hstep : managerStep c (now, op) = .ok c') : Sourced heard told c' := by
  cases op with
  | startDht store whiteNodes =>
      cases hstep
      exact h.startDht now store whiteNodes
  | stopDht =>
      cases hstep
      exact h.stopDht now
  | addFindNode id qflags sinFamily =>
      cases hstep
      exact h.addFindNode id qflags sinFamily
  | removeFindNode id =>
      cases hstep
      exact h.removeFindNode id
  | removeAllFindNode =>
      cases hstep
      exact h.removeAllFindNode
  | addCallback cb =>
      cases hstep
      rw [BdNodeManager.addCallback]
      split_ifs
      · exact h
      · exact ⟨h.known, h.anchored, h.addresses, h.callbacks⟩
  | removeCallback cb =>
      cases hstep
      exact ⟨h.known, h.anchored, h.addresses, h.callbacks⟩
  | incomingMsg | outgoingMsg | iteration => exact hop.elim

/-- The packets that wait are among those of the calls so far, and all else comes from these. -/
structure SourcedBy (ops : List (Int × ManagerOp)) (c : BdNodeManager mFns) : Prop where
  incoming : ∀ m ∈ c.mIncomingMsgs, ∃ t, (t, .incomingMsg m.addr m.data) ∈ ops
  sourced : Sourced (Heard ops) (Told ops) c

theorem SourcedBy.mono (h : SourcedBy ops c) (hsub : ops ⊆ ops') : SourcedBy ops' c where
  incoming := fun m hm => (h.incoming m hm).imp (fun _ hmem => hsub hmem)
  sourced := h.sourced.mono (fun _ hid => hid.mono hsub) (fun _ hid => hid.mono hsub)

theorem SourcedBy.managerStepOn (hxor : mFns.bdDistance = bdStdDistance) (h : SourcedBy ops c)
    {op : (Nat → UInt32) × Int × ManagerOp} (hstep : BitDht.managerStepOn c op = .ok c') :
    SourcedBy (ops ++ [op.2]) c' := by
  have hall := h.mono (List.subset_append_left ops [op.2])
  rcases op with ⟨word, now, op⟩
  by_cases hop : op.IsRequest
  · rw [managerStepOn_request c word now hop] at hstep
    rcases managerStep_request c now hop with ⟨c₁, hc₁, hmsgs⟩
    rw [hstep, Except.ok.injEq] at hc₁
    subst hc₁
    exact ⟨fun m hm => hall.incoming m (hmsgs ▸ hm), hall.sourced.request hop hstep⟩
  · cases op with
    | incomingMsg addr msg =>
        cases hstep
        have hsourced := hall.sourced
        refine ⟨?_, hsourced.known, hsourced.anchored, hsourced.addresses, hsourced.callbacks⟩
        intro m hm
        rcases List.mem_append.1 hm with hm | hm
        · exact hall.incoming m hm
        · rw [List.mem_singleton.1 hm]
          exact ⟨now, List.mem_append_right _ (List.mem_singleton.2 rfl)⟩
    | outgoingMsg =>
        cases hstep
        have hsourced := hall.sourced
        exact ⟨hall.incoming, ⟨hsourced.known.space, hsourced.known.queries, hsourced.known.remote,
          hsourced.known.addrs⟩, hsourced.anchored, hsourced.addresses, hsourced.callbacks⟩
    | iteration store whiteNodes env =>
        rcases hall.sourced.iterationOn hxor
          (fun m hm junk id haddr hnames => by
            rcases hall.incoming m hm with ⟨t, hmem⟩
            exact ⟨t, junk, m.data, haddr ▸ hmem, hnames⟩)
          (fun m hm id hlists => by
            rcases hall.incoming m hm with ⟨t, hmem⟩
            exact ⟨t, m.addr, m.data, hmem, hlists⟩) hstep with ⟨hsourced, hmsgs⟩
        refine ⟨fun m hm => ?_, hsourced⟩
        rw [hmsgs] at hm
        exact absurd hm List.not_mem_nil
    | startDht | stopDht | addFindNode | removeFindNode | removeAllFindNode | addCallback
    | removeCallback => exact absurd trivial hop

/-- In every run of a manager, with any packets: a peer that a callback names sent a packet or was listed
in one, a peer that is said to be online has the id of a sender, and an address that is handed out for an
id is one from which a packet with that id came, or the address zero. -/
theorem run_sourced (hxor : mFns.bdDistance = bdStdDistance) {id : BdNodeId}
    {dhtVersion : List UInt8} {store whiteNodes : List BdPeer} {rand : Nat → UInt32}
    {ops : List ((Nat → UInt32) × Int × ManagerOp)} (hrun : ops.foldlM managerStepOn
      (BdNodeManager.new id dhtVersion store whiteNodes rand : BdNodeManager mFns) = .ok c) :
    Sourced (Heard (ops.map Prod.snd)) (Told (ops.map Prod.snd)) c := by
  have hstep : ∀ {pre : List ((Nat → UInt32) × Int × ManagerOp)} {c : BdNodeManager mFns} {op c'},
      SourcedBy (pre.map Prod.snd) c → BitDht.managerStepOn c op = .ok c' →
      SourcedBy ((pre ++ [op]).map Prod.snd) c' := by
    intro pre c op c' h hrun
    rw [List.map_append, List.map_singleton]
    exact h.managerStepOn hxor hrun
  have hstart : SourcedBy [] (BdNodeManager.new id dhtVersion store whiteNodes rand :
      BdNodeManager mFns) := ⟨fun _ hm => absurd hm List.not_mem_nil, .new ..⟩
  exact (foldlM_log @hstep hstart hrun).sourced

/-- A search up to its first `checkStatus`. -/
def searchRun : List ((Nat → UInt32) × Int × ManagerOp) :=
  searchOps ++ [searchIteration 74]

theorem searchRun_calls : ∃ c, searchRun.foldlM managerStepOn searchStart = .ok c ∧
    c.peerCallbacks ≠ [] := by
  have hrun : Outcome.holds (searchRun.foldlM managerStepOn searchStart)
      (fun c => !c.peerCallbacks.isEmpty) = true := by
    decide +kernel
  rcases Outcome.holds_iff.1 hrun with ⟨c, hc, htest⟩
  refine ⟨c, hc, ?_⟩
  intro hnil
  rw [hnil] at htest
  cases htest

/-- A search in which a callback is called. -/
theorem run_sourced_search : ∃ c, searchRun.foldlM managerStepOn searchStart = .ok c ∧
    c.peerCallbacks ≠ [] ∧
    Sourced (Heard (searchRun.map Prod.snd)) (Told (searchRun.map Prod.snd)) c := by
  rcases searchRun_calls with ⟨c, hc, hcalled⟩
  exact ⟨c, hc, hcalled, run_sourced rfl hc⟩

end BdNodeManager

end BitDht
