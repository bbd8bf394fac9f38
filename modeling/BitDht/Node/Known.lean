import BitDht.Node.Causes

/-!
# Known — the peers that a node has heard from, and those that it was told of

A node has ids of peers in its table, in the two lists of each query, in the queue of remote queries and with
the addresses for connections.  All of them were given to it: those of the table, of `mClosest`, of the queue
and of the connections as senders of packets, and those of `mPotentialClosest` in replies to FIND_NODE.
`Knows` says so for any two sets of peers that contain these, and every call keeps it
(`Knows.msgin`, `Knows.callStep`).
-/

namespace BitDht

open Container Outcome

variable {mFns : BdDhtFunctions} {heard told : BdId → Prop}

/-! ## The table -/

theorem makeRoom_sublist {ts : Int} {peerflags : UInt32} {entries rest : BdBucket}
    (h : makeRoom mFns ts peerflags entries = some rest) : rest.Sublist entries := by
  unfold makeRoom at h
  split at h
  · cases h
    exact List.Sublist.refl _
  · split at h
    · cases h
    · split at h
      · cases h
        exact List.sublist_cons_self _ _
      · simp only at h
        split at h
        · split at h
          · cases h
            exact List.eraseP_sublist
          · cases h
        · cases h

/-- An entry of a bucket afterwards is for a peer that was there, or for the new one. -/
theorem mem_addToBucket {ts : Int} {id : BdId} {peerflags : UInt32} {entries : BdBucket}
    {p : BdPeer} (hp : p ∈ (addToBucket mFns ts id peerflags entries).1) :
    p.mPeerId = id ∨ ∃ q ∈ entries, q.mPeerId = p.mPeerId := by
  rw [addToBucket] at hp
  split at hp
  · rename_i peer hfind
    rcases List.mem_append.1 hp with hp | hp
    · exact .inr ⟨p, List.eraseP_subset hp, rfl⟩
    · rw [List.mem_singleton.1 hp]
      exact .inr ⟨peer, List.mem_of_find?_eq_some hfind, rfl⟩
  · split at hp
    · rename_i rest hroom
      rcases List.mem_append.1 hp with hp | hp
      · exact .inr ⟨p, (makeRoom_sublist hroom).subset hp, rfl⟩
      · rw [List.mem_singleton.1 hp]
        exact .inl rfl
    · exact .inr ⟨p, hp, rfl⟩

namespace BdSpace

theorem stored_new (ownId : BdNodeId) : (BdSpace.new ownId : BdSpace mFns).stored = [] := by
  simp [stored, BdSpace.new]

theorem stored_clear (s : BdSpace mFns) : s.clear.stored = [] := by
  simp [stored, clear]

theorem mem_stored {s : BdSpace mFns} {id : BdId} :
    id ∈ s.stored ↔ ∃ entries ∈ s.buckets, ∃ p ∈ entries, p.mPeerId = id := by
  rw [stored, List.mem_map]
  constructor
  · rintro ⟨p, hp, rfl⟩
    rcases List.mem_flatten.1 hp with ⟨entries, hentries, hp⟩
    exact ⟨entries, hentries, p, hp, rfl⟩
  · rintro ⟨entries, hentries, p, hp, rfl⟩
    exact ⟨p, List.mem_flatten.2 ⟨entries, hentries, hp⟩, rfl⟩

theorem mem_stored_addPeer {s : BdSpace mFns} {ts : Int} {id : BdId} {peerflags : UInt32}
    {x : BdId} (hx : x ∈ (s.addPeer ts id peerflags).1.stored) : x = id ∨ x ∈ s.stored := by
  rcases mem_stored.1 hx with ⟨entries, hentries, p, hp, rfl⟩
  rcases List.mem_or_eq_of_mem_set hentries with hold | rfl
  · exact .inr (mem_stored.2 ⟨entries, hold, p, hp, rfl⟩)
  · rcases mem_addToBucket hp with hid | ⟨q, hq, hqp⟩
    · exact .inl hid
    · -- the bucket of the peer is one of the table, as it has an entry
      rw [List.getD_eq_getElem?_getD] at hq
      rcases hbucket : s.buckets[bucketOf mFns s.mOwnId id.id]? with _ | bucket
      · rw [hbucket] at hq
        cases hq
      · rw [hbucket] at hq
        exact .inr (mem_stored.2 ⟨bucket, List.mem_of_getElem? hbucket, q, hq, hqp⟩)

theorem mem_nearest {s : BdSpace mFns} {id : BdNodeId} {number : Nat} {l : List BdId}
    (h : s.Nearest id number l) {x : BdId} (hx : x ∈ l) : x ∈ s.stored := by
  rcases h.least with ⟨rest, hperm, _⟩
  exact hperm.subset (List.mem_append_left rest hx)

end BdSpace

/-! ## Queries -/

/-- What a query knows: whoever is in `mClosest` was heard from, and also the peer that a successful
search was for. -/
structure BdQuery.Knows (heard told : BdId → Prop) (q : BdQuery) : Prop where
  closest : ∀ e ∈ q.mClosest.entries, heard e.2.mPeerId
  potential : ∀ e ∈ q.mPotentialClosest.entries, told e.2.mPeerId
  success : q.mState = .success → ∃ id, heard id ∧ id.id = q.mId

/-- The peers that a call of a query brings. -/
def QueryOp.Known (heard told : BdId → Prop) : QueryOp → Prop
  | .addPeer id _ => heard id
  | .addPotentialPeer id _ => told id
  | .nextQuery _ _ => True

theorem finalState_success {q : BdQuery} {endId : BdNodeId} (h : q.finalState endId = .success) :
    ∃ e ∈ q.mClosest.entries, e.2.mPeerId.id = q.mId := by
  rw [BdQuery.finalState] at h
  split at h
  · cases h
  · rename_i e rest hentries
    split_ifs at h with hself
    exact ⟨e, by rw [hentries]; exact List.mem_cons_self, hself⟩

namespace BdQuery.Knows

variable {q : BdQuery}

theorem mono {heard' told' : BdId → Prop} (h : q.Knows heard told)
    (hheard : ∀ id, heard id → heard' id) (htold : ∀ id, told id → told' id) :
    q.Knows heard' told' := by
  refine ⟨fun e he => hheard _ (h.closest e he), fun e he => htold _ (h.potential e he), ?_⟩
  intro hstate
  rcases h.success hstate with ⟨id, hid, heq⟩
  exact ⟨id, hheard id hid, heq⟩

theorem new (now : Int) (id : BdNodeId) {startList : List BdId} (h : ∀ it ∈ startList, heard it)
    (queryFlags : UInt32) : (BdQuery.new mFns now id startList queryFlags).Knows heard told := by
  refine ⟨?_, fun e he => absurd he List.not_mem_nil, fun hstate => nomatch hstate⟩
  intro e he
  have hperm := new_entries_perm mFns now id startList queryFlags
  rcases List.mem_map.1 (hperm.mem_iff.1 he) with ⟨it, hit, rfl⟩
  exact h it hit

/-- What `mClosest` can be after a call has no new peers but the one of the call. -/
theorem closestStep (h : q.Knows heard told) {op : Int × QueryOp} (hop : op.2.Known heard told)
    {m : Multimap BdMetric BdPeer} (hstep : ClosestStep mFns q op m) :
    ∀ e ∈ m.entries, heard e.2.mPeerId := by
  intro e he
  cases hstep with
  | same => exact h.closest e he
  | noted ts id mode =>
      rcases Multimap.mem_updateEntry he with he | ⟨e', he', _, rfl⟩
      · exact h.closest e he
      · rw [mPeerId_noteReply]
        exact h.closest e' he'
  | added mode hcloser hnew =>
      rcases Multimap.mem_insert.1 he with rfl | he
      · rw [newClosest, mPeerId_noteReply]
        exact hop
      · exact h.closest e ((keptPeers_sublist q _ _).subset he)
  | asked hfind hanswer =>
      rcases Multimap.mem_updateEntry he with he | ⟨e', he', _, rfl⟩
      · exact h.closest e he
      · exact h.closest e' he'

theorem potentialStep (h : q.Knows heard told) {op : Int × QueryOp}
    (hop : op.2.Known heard told) {m : Multimap BdMetric BdPeer} (hstep : PotentialStep mFns q op m) :
    ∀ e ∈ m.entries, told e.2.mPeerId := by
  intro e he
  cases hstep with
  | same => exact h.potential e he
  | noted ts id mode =>
      rcases Multimap.mem_updateEntry he with he | ⟨e', he', _, rfl⟩
      · exact h.potential e he
      · rw [mPeerId_noteReply]
        exact h.potential e' he'
  | added ts mode hroom hnew =>
      rcases Multimap.mem_insert.1 he with rfl | he
      · exact hop
      · exact h.potential e (List.mem_of_mem_take he)

theorem step (h : q.Knows heard told) (op : Int × QueryOp) (hop : op.2.Known heard told) :
    (queryStep mFns q op).Knows heard told := by
  refine ⟨h.closestStep hop (queryStep_closest q op),
    h.potentialStep hop (queryStep_potential q op), ?_⟩
  intro hstate
  rcases @queryStep_eq mFns q op with ⟨_, _, _, _, state, hrun, hcases⟩
  rw [hrun] at hstate ⊢
  rcases hcases with rfl | ⟨endId, rfl⟩
  · exact h.success hstate
  · rcases finalState_success hstate with ⟨e, he, hid⟩
    exact ⟨e.2.mPeerId, h.closest e he, hid⟩

end BdQuery.Knows

/-! ## Nodes -/

/-- What a node knows. -/
structure Knows (heard told : BdId → Prop) (s : BdNode mFns) : Prop where
  space : ∀ id ∈ s.mNodeSpace.stored, heard id
  queries : ∀ q ∈ s.mLocalQueries, q.Knows heard told
  remote : ∀ q ∈ s.mRemoteQueries, heard q.mId ∧ q.mTransId.len ≤ bitdhtTokenMaxLen
  addrs : ∀ id addr, s.mPeerAddrs.find id = some addr → heard ⟨addr, id⟩

/-- The peers that a change brings. -/
def NodeEffect.Known (heard told : BdId → Prop) : NodeEffect → Prop
  | .addPeer _ id _ => heard id
  | .checkPotentialPeer _ id => told id
  | .queueQuery _ id _ transId _ => heard id ∧ transId.len ≤ bitdhtTokenMaxLen
  | .mRemoteQueries queue => ∀ q ∈ queue, heard q.mId ∧ q.mTransId.len ≤ bitdhtTokenMaxLen
  | .connect id _ => heard id
  | _ => True

/-- What a `msgout_` function changes. -/
theorem MsgoutCall.queued_eq (s : BdNode mFns) (c : MsgoutCall) : ∃ tokens rand,
    c.queued s = { s with mOutgoingMsgs := s.mOutgoingMsgs ++ [c.packet s],
                          mRandomTokenArray := tokens, rand := rand } := by
  rw [queued]
  split_ifs
  · exact ⟨_, _, rfl⟩
  · exact ⟨s.mRandomTokenArray, s.rand, rfl⟩

namespace Knows

variable {s s' : BdNode mFns}

theorem new (ownId : BdNodeId) (dhtVersion : List UInt8) (store : List BdPeer)
    (rand : Nat → UInt32) : Knows heard told (BdNode.new ownId dhtVersion store rand : BdNode mFns) where
  space := by
    intro id hid
    rw [BdNode.new, BdSpace.stored_new] at hid
    exact absurd hid List.not_mem_nil
  queries := fun _ hq => absurd hq List.not_mem_nil
  remote := fun _ hq => absurd hq List.not_mem_nil
  addrs := fun _ _ h => nomatch h

theorem mono {heard' told' : BdId → Prop} (h : Knows heard told s)
    (hheard : ∀ id, heard id → heard' id) (htold : ∀ id, told id → told' id) :
    Knows heard' told' s where
  space := fun id hid => hheard id (h.space id hid)
  queries := fun q hq => (h.queries q hq).mono hheard htold
  remote := fun q hq => ⟨hheard _ (h.remote q hq).1, (h.remote q hq).2⟩
  addrs := fun id addr hfind => hheard _ (h.addrs id addr hfind)

/-- A call on every query. -/
theorem queries_map (h : Knows heard told s) (op : Int × QueryOp) (hop : op.2.Known heard told) :
    ∀ q ∈ s.mLocalQueries.map (fun q => queryStep mFns q op), q.Knows heard told := by
  intro q' hq'
  rcases List.mem_map.1 hq' with ⟨q, hq, rfl⟩
  exact (h.queries q hq).step op hop

/-- A change that brings known peers. -/
theorem apply (h : Knows heard told s) {e : NodeEffect} (he : e.Known heard told) :
    Knows heard told (e.apply s) := by
  cases e with
  | send c =>
      rcases c.queued_eq s with ⟨tokens, rand, hqueued⟩
      rw [NodeEffect.apply, hqueued]
      exact ⟨h.space, h.queries, h.remote, h.addrs⟩
  | addPeer now id peerflags =>
      refine ⟨?_, h.queries_map (now, .addPeer id peerflags) he, h.remote, h.addrs⟩
      intro x hx
      rcases BdSpace.mem_stored_addPeer hx with rfl | hx
      · exact he
      · exact h.space x hx
  | checkPotentialPeer now id =>
      have hqueries := h.queries_map (now, .addPotentialPeer id 0) he
      refine ⟨h.space, ?_, h.remote, h.addrs⟩
      intro q hq
      rw [NodeEffect.apply, BdNode.checkPotentialPeer, List.map_map] at hq
      exact hqueries q hq
  | queueQuery now id query transId queryType =>
      refine ⟨h.space, h.queries, ?_, h.addrs⟩
      intro q hq
      rcases List.mem_append.1 hq with hq | hq
      · exact h.remote q hq
      · rw [List.mem_singleton.1 hq]
        exact he
  | mRemoteQueries queue => exact ⟨h.space, h.queries, he, h.addrs⟩
  | nextQuery bdRandomMidId now endId =>
      rw [NodeEffect.apply, BdNode.turn]
      split
      · exact h
      · rename_i query queries hqueries
        refine ⟨h.space, ?_, h.remote, h.addrs⟩
        intro q hq
        have hold := h.queries
        rw [hqueries] at hold
        rcases List.mem_append.1 hq with hq | hq
        · exact hold q (List.mem_cons_of_mem query hq)
        · rw [List.mem_singleton.1 hq]
          exact (hold query List.mem_cons_self).step (now, .nextQuery bdRandomMidId endId) trivial
  | outOfDatePeer now =>
      refine ⟨?_, h.queries, h.remote, h.addrs⟩
      intro id hid
      rw [NodeEffect.apply, BdSpace.stored_outOfDatePeer] at hid
      exact h.space id hid
  | connect id other =>
      refine ⟨h.space, h.queries, h.remote, ?_⟩
      intro x addr hfind
      by_cases hx : x = id.id
      · subst hx
        rw [NodeEffect.apply, OrdMap.find_assign_self, Option.some.injEq] at hfind
        rw [← hfind]
        exact he
      · rw [NodeEffect.apply, OrdMap.find_assign_ne _ hx] at hfind
        exact h.addrs x addr hfind
  | newTransId | mPotentialPeers | onRecvCallback | addMyIp | addPunching =>
      exact ⟨h.space, h.queries, h.remote, h.addrs⟩

theorem effects {Cause : NodeEffect → Prop} (h : Knows heard told s) (hrun : Effects Cause s s')
    (hcause : ∀ e, Cause e → e.Known heard told) : Knows heard told s' :=
  hrun.inv (fun hs he => hs.apply (hcause _ he)) h

end Knows

/-! ## Calls -/

namespace MsgIn

/-- The sender of a message whose handler notes it. -/
def src : MsgIn → Option SrcId
  | .ping id _ => some id
  | .pong id _ _ => some id
  | .findNode id _ _ => some id
  | .replyFindNode id _ _ => some id
  | .getHash id _ _ => some id
  | .broadcastConn id _ _ _ => some id
  | _ => none

/-- The peers that the message lists. -/
def listed : MsgIn → List BdId
  | .replyFindNode _ _ nodes => nodes
  | _ => []

theorem src_of_peer {c : MsgIn} {id : SrcId} (h : c.peer = some id) : c.src = some id := by
  cases c
  case ping | pong | findNode | replyFindNode => exact h
  all_goals cases h

/-- A handler notes the sender and the peers of its message. -/
theorem Causes.known {s : BdNode mFns} {now : Int} {junk : Junk} {c : MsgIn} {e : NodeEffect}
    (h : c.Causes s now junk e) (hsrc : ∀ id, c.src = some id → heard (id.bdId junk))
    (hlisted : ∀ it ∈ c.listed, told it) : e.Known heard told := by
  cases h with
  | peer hid peerflags => exact hsrc _ (src_of_peer hid)
  | findNode id hlen query => exact ⟨hsrc id rfl, hlen⟩
  | getHash id hlen infoHash => exact ⟨hsrc id rfl, hlen⟩
  | nodes id transId hit => exact hlisted _ hit
  | connect hparty => exact hsrc _ rfl
  | newTransId | callback | pong | replyAskMyip | myIp | askConn | punching => trivial

end MsgIn

/-- The calls that send bring no peers. -/
theorem NodeCall.Causes.known {s : BdNode mFns} (h : Knows heard told s) {now : Int} {c : NodeCall}
    {e : NodeEffect} (he : c.Causes s now e) : e.Known heard told := by
  cases he with
  | queue hqueue => exact fun q hq => h.remote q (hqueue.subset hq)
  | newTransId | pop | pingPotential | turn | findNode | reply | outOfDate | pingOutOfDate | askMyip
  | broadcastConn | punch => trivial

namespace Knows

variable {s s' : BdNode mFns}

theorem addQuery (h : Knows heard told s) (now : Int) (id : BdNodeId) (qflags : UInt32) :
    Knows heard told (s.addQuery now id qflags) := by
  refine ⟨h.space, ?_, h.remote, h.addrs⟩
  intro q hq
  rcases List.mem_append.1 hq with hq | hq
  · exact h.queries q hq
  · rw [List.mem_singleton.1 hq]
    have hnearest := s.mNodeSpace.nearest_findNearestNodes id BdNode.bitdhtQueryStartPeers.toNat
    exact .new now id (fun it hit => h.space it (BdSpace.mem_nearest hnearest hit)) qflags

theorem shutdownNode (h : Knows heard told s) : Knows heard told s.shutdownNode := by
  refine ⟨?_, fun _ hq => absurd hq List.not_mem_nil, fun _ hq => absurd hq List.not_mem_nil,
    h.addrs⟩
  intro id hid
  rw [BdNode.shutdownNode, BdSpace.stored_clear] at hid
  exact absurd hid List.not_mem_nil

/-- A call that is none of a packet comes back and brings no peers. -/
theorem callStep (h : Knows heard told s) {c : NodeCall}
    (hc : ∀ junk word msg addr, c ≠ .recvPkt junk word msg addr) (now : Int) :
    ∃ s', callStep s (now, c) = .ok s' ∧ Knows heard told s' := by
  by_cases hsends : c.Sends
  · rcases callStep_effects (fun q hq => (h.remote q hq).2) hsends now with ⟨s', hrun, heffects⟩
    exact ⟨s', hrun, h.effects heffects (fun e he => he.known h)⟩
  · cases c with
    | recvPkt junk word msg addr => exact absurd rfl (hc junk word msg addr)
    | addQuery id qflags => exact ⟨_, rfl, h.addQuery now id qflags⟩
    | clearQuery rmId =>
        exact ⟨_, rfl, h.space, fun q hq => h.queries q (List.mem_of_mem_filter hq), h.remote,
          h.addrs⟩
    | shutdownNode => exact ⟨_, rfl, h.shutdownNode⟩
    | addConnReq | addPotentialPeer | reloadStore | outgoingMsg =>
        exact ⟨_, rfl, h.space, h.queries, h.remote, h.addrs⟩
    | pingPotential | askQueries | processRemoteQuery | pingOutOfDate | broadcastTo | punch =>
        exact absurd trivial hsends

theorem of_callStep (h : Knows heard told s) {c : NodeCall}
    (hc : ∀ junk word msg addr, c ≠ .recvPkt junk word msg addr) {now : Int}
    (hrun : BitDht.callStep s (now, c) = .ok s') : Knows heard told s' := by
  rcases h.callStep hc now with ⟨s₁, hs₁, h₁⟩
  rw [hs₁, Except.ok.injEq] at hrun
  exact hrun ▸ h₁

/-- A handler, called with tokens that fit. -/
theorem msgin (h : Knows heard told s) {c : MsgIn} {junk : Junk}
    (htokens : ∀ tok ∈ c.tokens, tok.len ≤ bitdhtTokenMaxLen)
    (hsrc : ∀ id, c.src = some id → heard (id.bdId junk)) (hlisted : ∀ it ∈ c.listed, told it)
    (now : Int) : ∃ s', s.msgin now junk c = .ok s' ∧ Knows heard told s' := by
  rcases s.msgin_effects htokens with ⟨s', hrun, heffects⟩
  exact ⟨s', hrun, h.effects heffects (fun e he => he.known hsrc hlisted)⟩

theorem addBlackList (h : Knows heard told s) (addr : SockaddrIn) :
    Knows heard told (s.addBlackList addr) := by
  rw [BdNode.addBlackList]
  split_ifs
  · exact h
  · exact ⟨h.space, h.queries, h.remote, h.addrs⟩

end Knows

/-- The node knows whomever, and the transaction ids that wait fit. -/
def Fits (s : BdNode mFns) : Prop := Knows (fun _ => True) (fun _ => True) s

theorem Fits.len_le {s : BdNode mFns} (h : Fits s) :
    ∀ q ∈ s.mRemoteQueries, q.mTransId.len ≤ bitdhtTokenMaxLen :=
  fun q hq => (h.remote q hq).2

end BitDht
