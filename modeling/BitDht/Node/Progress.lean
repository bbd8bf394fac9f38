import BitDht.Node.Provenance
import BitDht.Peer.Placement

/-!
# Progress — what a message of a peer brings about

A message of one of the four kinds that make their senders peers is handled, unless its sender is on the
blacklist.  Then its sender is in the table, or the bucket for it is full, a PING has its answer in the queue
of messages, and a FIND_NODE has one there or waits among the remote queries (`Served`).  No other packet
takes this away again, and no call that sends does.
-/

namespace BitDht

open Container Outcome

variable {mFns : BdDhtFunctions}

/-! ## What stays -/

/-- One node goes on from another: it keeps its id, its blacklist and the messages that it is to send. -/
structure GrowsTo (s s' : BdNode mFns) : Prop where
  mOwnId : s'.mOwnId = s.mOwnId
  black : s.mBlackNodes ⊆ s'.mBlackNodes
  queue : s.mOutgoingMsgs ⊆ s'.mOutgoingMsgs

namespace GrowsTo

variable {s s' s'' : BdNode mFns}

theorem refl (s : BdNode mFns) : GrowsTo s s :=
  ⟨rfl, List.Subset.refl _, List.Subset.refl _⟩

theorem trans (h : GrowsTo s s') (h' : GrowsTo s' s'') : GrowsTo s s'' where
  mOwnId := h'.mOwnId.trans h.mOwnId
  black := List.Subset.trans h.black h'.black
  queue := List.Subset.trans h.queue h'.queue

theorem isMemberOfBlackList (h : GrowsTo s s') {addr : SockaddrIn}
    (hblack : s.isMemberOfBlackList addr = true) : s'.isMemberOfBlackList addr = true := by
  rw [BdNode.isMemberOfBlackList, List.any_eq_true] at hblack ⊢
  exact hblack.imp (fun _ hit => ⟨h.black hit.1, hit.2⟩)

theorem addBlackList (s : BdNode mFns) (addr : SockaddrIn) : GrowsTo s (s.addBlackList addr) := by
  rw [BdNode.addBlackList]
  split_ifs
  · exact .refl s
  · exact ⟨rfl, List.subset_append_left _ _, List.Subset.refl _⟩

theorem apply (s : BdNode mFns) (e : NodeEffect) : GrowsTo s (e.apply s) := by
  cases e with
  | send c =>
      rcases c.queued_eq s with ⟨tokens, rand, hqueued⟩
      rw [NodeEffect.apply, hqueued]
      exact ⟨rfl, List.Subset.refl _, List.subset_append_left _ _⟩
  | nextQuery bdRandomMidId now endId =>
      rw [NodeEffect.apply, BdNode.turn]
      split
      · exact .refl s
      · exact ⟨rfl, List.Subset.refl _, List.Subset.refl _⟩
  | newTransId | mPotentialPeers | addPeer | checkPotentialPeer | onRecvCallback | queueQuery
  | mRemoteQueries | outOfDatePeer | connect | addMyIp | addPunching =>
      exact ⟨rfl, List.Subset.refl _, List.Subset.refl _⟩

theorem of_effects {Cause : NodeEffect → Prop} (h : Effects Cause s s') : GrowsTo s s' := by
  have happly : ∀ {r : BdNode mFns} {e}, GrowsTo s r → Cause e → GrowsTo s (e.apply r) :=
    fun hr _ => hr.trans (.apply _ _)
  exact h.inv @happly (.refl s)

end GrowsTo

/-- Nothing but `processRemoteQuery` takes remote queries away. -/
theorem NodeEffect.mem_mRemoteQueries {s : BdNode mFns} {q : BdRemoteQuery} (hq : q ∈ s.mRemoteQueries)
    {e : NodeEffect} (he : ∀ queue, e ≠ .mRemoteQueries queue) : q ∈ (e.apply s).mRemoteQueries := by
  cases e with
  | send c =>
      rcases c.queued_eq s with ⟨tokens, rand, hqueued⟩
      rw [NodeEffect.apply, hqueued]
      exact hq
  | queueQuery now id query transId queryType => exact List.mem_append_left _ hq
  | mRemoteQueries queue => exact absurd rfl (he queue)
  | nextQuery bdRandomMidId now endId =>
      rw [NodeEffect.apply, BdNode.turn]
      split
      · exact hq
      · exact hq
  | newTransId | mPotentialPeers | addPeer | checkPotentialPeer | onRecvCallback | outOfDatePeer
  | connect | addMyIp | addPunching => exact hq

namespace Fits

variable {s s' : BdNode mFns}

theorem callStep (h : Fits s) {c : NodeCall} (hc : ∀ junk word msg addr, c ≠ .recvPkt junk word msg addr)
    (now : Int) (hrun : BitDht.callStep s (now, c) = .ok s') : Fits s' :=
  Knows.of_callStep h hc hrun

theorem recvPktOn (h : Fits s) {word : UInt32} {now : Int} {junk : Junk} {p : List UInt8}
    {addr : SockaddrIn} (hrun : s.recvPktOn word now junk p p.length addr = .ok s') : Fits s' :=
  Knows.recvPkt h (fun _ _ _ => trivial) (fun _ _ => trivial) hrun

theorem sends (h : Fits s) {c : NodeCall} (hc : c.Sends) {now : Int}
    (hrun : BitDht.callStep s (now, c) = .ok s') : Fits s' :=
  h.callStep (fun _ _ _ _ heq => (heq ▸ hc).elim) now hrun

end Fits

/-! ## What is brought about -/

/-- The node has a message of the call to send. -/
def BdNode.Queues (s : BdNode mFns) (c : MsgoutCall) : Prop :=
  ∃ m ∈ s.mOutgoingMsgs, c.MadeBy mFns s.mOwnId m

/-- What a message of the peer `id` that came at the time `now` has brought about. -/
structure Served (now : Int) (id : BdId) (c : MsgoutCall) (s : BdNode mFns) : Prop where
  listed : s.mNodeSpace.Listed id
  ping : ∀ dst transId, c = .ping dst transId → s.Queues (.pong id transId)
  findNode : ∀ dst transId query, c = .findNode dst transId query →
    ⟨id, query, transId, bdQueryNeighbours, now⟩ ∈ s.mRemoteQueries ∨
      ∃ peers, s.Queues (.replyFindNode id transId peers)

theorem BdNode.Queues.mono {s s' : BdNode mFns} {c : MsgoutCall} (h : s.Queues c)
    (hgrows : GrowsTo s s') : s'.Queues c := by
  rcases h with ⟨m, hm, hmade⟩
  exact ⟨m, hgrows.queue hm, hgrows.mOwnId ▸ hmade⟩

theorem BdNode.queues_queued (s : BdNode mFns) {c : MsgoutCall} (h : c.ArgsFit) :
    (c.queued s).Queues c := by
  rcases c.queued_eq s with ⟨tokens, rand, hqueued⟩
  rw [hqueued]
  exact ⟨c.packet s, List.mem_append_right _ List.mem_cons_self, s, rfl, h, rfl⟩

namespace Served

variable {now : Int} {id : BdId} {c : MsgoutCall} {s s' : BdNode mFns}

theorem effects (h : Served now id c s) {Cause : NodeEffect → Prop} (hrun : Effects Cause s s')
    (hcause : ∀ queue, ¬ Cause (.mRemoteQueries queue)) : Served now id c s' where
  listed := hrun.mNodeSpace (P := (BdSpace.Listed · id)) (fun _ h => h.addPeer _ _ _)
    (fun _ h => h.outOfDatePeer _) h.listed
  ping := fun dst transId hc => (h.ping dst transId hc).mono (.of_effects hrun)
  findNode := by
    intro dst transId query hc
    rcases h.findNode dst transId query hc with hq | ⟨peers, hreply⟩
    · have happly : ∀ {r : BdNode mFns} {e}, ⟨id, query, transId, bdQueryNeighbours, now⟩ ∈
          r.mRemoteQueries → Cause e →
          ⟨id, query, transId, bdQueryNeighbours, now⟩ ∈ (e.apply r).mRemoteQueries :=
        fun hq he => NodeEffect.mem_mRemoteQueries hq (fun queue heq => hcause queue (heq ▸ he))
      exact .inl (hrun.inv @happly hq)
    · exact .inr ⟨peers, hreply.mono (.of_effects hrun)⟩

theorem addBlackList (h : Served now id c s) (addr : SockaddrIn) :
    Served now id c (s.addBlackList addr) := by
  have hgrows := GrowsTo.addBlackList s addr
  rw [BdNode.addBlackList] at hgrows ⊢
  split_ifs at hgrows ⊢
  · exact h
  · exact ⟨h.listed, fun dst transId hc => (h.ping dst transId hc).mono hgrows,
      fun dst transId query hc => (h.findNode dst transId query hc).imp_right
        (fun hreply => hreply.imp (fun _ hq => hq.mono hgrows))⟩

/-- No other packet changes it. -/
theorem recvPktOn (h : Served now id c s) {word : UInt32} {now' : Int} {junk : Junk} {p : List UInt8}
    {addr : SockaddrIn} (hrun : s.recvPktOn word now' junk p p.length addr = .ok s') :
    Served now id c s' := by
  rcases BdNode.recvPktOn_effects hrun with rfl | rfl | ⟨n, m, _, _, heffects⟩
  · exact h
  · exact h.addBlackList addr
  · exact h.effects heffects (fun queue he => nomatch he)

end Served

/-! ## The remote queries -/

/-- A query that has just come is answered when it is taken off the queue. -/
theorem BdNode.processQueue_answers {s s' : BdNode mFns} {now : Int} {queue : List BdRemoteQuery}
    (hrun : s.processQueue now queue = .ok s') (hlen : ∀ q ∈ queue, q.mTransId.len ≤ bitdhtTokenMaxLen)
    {q : BdRemoteQuery} (hq : q ∈ queue) (htype : q.mQueryType = bdQueryNeighbours)
    (hnow : q.mQueryTS = now) : q ∈ s'.mRemoteQueries ∨
      s'.Queues (.replyFindNode q.mId q.mTransId (s.nearestTo q.mQuery)) := by
  induction queue with
  | nil => exact absurd hq List.not_mem_nil
  | cons query queue ih =>
      have hrest : q ∈ queue → s.processQueue now queue = .ok s' → q ∈ s'.mRemoteQueries ∨
          s'.Queues (.replyFindNode q.mId q.mTransId (s.nearestTo q.mQuery)) :=
        fun hq hrun => ih hrun (fun x hx => hlen x (List.mem_cons_of_mem _ hx)) hq
      rw [processQueue] at hrun
      rcases List.mem_cons.1 hq with rfl | hq
      · -- the query is young and asks for neighbours
        have hyoung : q.mQueryTS > now - bitdhtMaxRemoteQueryAge := by
          rw [hnow, bitdhtMaxRemoteQueryAge]
          omega
        have hnodes := length_findNearestNodes_le s.mNodeSpace q.mQuery bitdhtQueryNeighbourPeers
        rw [← List.length_map (f := Prod.snd)] at hnodes
        have hfit : (MsgoutCall.replyFindNode q.mId q.mTransId (s.nearestTo q.mQuery)).ArgsFit :=
          ⟨hlen q List.mem_cons_self, Int.ofNat_le.2 hnodes⟩
        have hsend := MsgoutCall.run_queued hfit s
        rw [if_pos hyoung, if_pos htype] at hrun
        rcases bind_eq_ok.1 hrun with ⟨s₁, hs₁, hend⟩
        cases hend
        cases hsend.symm.trans hs₁
        exact .inr (s.queues_queued hfit)
      · split_ifs at hrun
        · rcases bind_eq_ok.1 hrun with ⟨s₁, _, hend⟩
          cases hend
          exact .inl hq
        · cases hrun
          exact .inl hq
        · exact hrest hq hrun
        · exact hrest hq hrun

theorem NodeCall.Causes.eq_processRemoteQuery {s : BdNode mFns} {now : Int} {c : NodeCall}
    {queue : List BdRemoteQuery} (h : c.Causes s now (.mRemoteQueries queue)) :
    c = .processRemoteQuery := by
  cases h
  rfl

/-- No call that sends changes what was brought about at the same time. -/
theorem Served.callStep {now : Int} {id : BdId} {c : MsgoutCall} {s s' : BdNode mFns}
    (h : Served now id c s) (hlen : ∀ q ∈ s.mRemoteQueries, q.mTransId.len ≤ bitdhtTokenMaxLen)
    {call : NodeCall} (hsends : call.Sends) (hrun : callStep s (now, call) = .ok s') :
    Served now id c s' := by
  rcases callStep_effects hlen hsends now with ⟨s₁, hs₁, heffects⟩
  rw [hs₁, Except.ok.injEq] at hrun
  subst hrun
  by_cases hremote : call = .processRemoteQuery
  · subst hremote
    have hgrows : GrowsTo s s₁ := .of_effects heffects
    refine ⟨heffects.mNodeSpace (P := (BdSpace.Listed · id)) (fun _ h => h.addPeer _ _ _)
      (fun _ h => h.outOfDatePeer _) h.listed, fun dst transId hc => (h.ping dst transId hc).mono hgrows,
      fun dst transId query hc => ?_⟩
    rcases h.findNode dst transId query hc with hq | ⟨peers, hreply⟩
    · exact (s.processQueue_answers hs₁ hlen hq rfl rfl).imp_right (fun hreply => ⟨_, hreply⟩)
    · exact .inr ⟨peers, hreply.mono hgrows⟩
  · exact h.effects heffects (fun queue he => hremote he.eq_processRemoteQuery)

/-! ## The message itself -/

section handled

variable {now : Int} {own : BdNodeId} {addr : SockaddrIn} {c : MsgoutCall} {s : BdNode mFns}

/-- The handler of a message of a peer comes back, and has brought about what it should. -/
theorem Served.msgin (hpeer : c.fromPeer = true) (hfit : c.ArgsFit) (s : BdNode mFns) (vid : BdToken)
    (junk : Junk) : ∃ s', s.msgin now junk (c.handler own vid addr) = .ok s' ∧
      Served now ⟨addr, own⟩ c s' := by
  have hcallback : ∀ {s : BdNode mFns} (type : MsgType), Served now ⟨addr, own⟩ c s →
      Served now ⟨addr, own⟩ c (s.onRecvCallback ⟨addr, own⟩ type) :=
    fun type h => ⟨h.listed, h.ping, h.findNode⟩
  have hlisted := fun (s : BdNode mFns) (peerflags : UInt32) =>
    s.mNodeSpace.listed_addPeer now ⟨addr, own⟩ peerflags
  cases c with
  | ping dst transId =>
      have hrun := MsgoutCall.run_queued (c := .pong ⟨addr, own⟩ transId) hfit
        (s.addPeer now ⟨addr, own⟩ 0)
      have hpong : (MsgoutCall.pong ⟨addr, own⟩ transId).ArgsFit := hfit
      refine ⟨_, (congrArg (· >>= _) hrun).trans rfl, hcallback .ping ⟨?_, ?_, nofun⟩⟩
      · rcases (MsgoutCall.pong ⟨addr, own⟩ transId).queued_eq (s.addPeer now ⟨addr, own⟩ 0) with
          ⟨tokens, rand, hqueued⟩
        rw [hqueued]
        exact hlisted s 0
      · rintro _ _ ⟨⟩
        exact BdNode.queues_queued _ hpong
  | pong dst transId =>
      exact ⟨_, rfl, hcallback .pong ⟨hlisted s _, nofun, nofun⟩⟩
  | findNode dst transId query =>
      refine ⟨_, rfl, hcallback .findNode ⟨hlisted _ 0, nofun, ?_⟩⟩
      rintro _ _ _ ⟨⟩
      exact .inl (List.mem_append_right _ List.mem_cons_self)
  | replyFindNode dst transId peers =>
      exact ⟨_, rfl, hcallback .replyNode ⟨hlisted _ _, nofun, nofun⟩⟩
  | askMyip | replyAskMyip | broadcastConn | askConn => cases hpeer

end handled

end BitDht
