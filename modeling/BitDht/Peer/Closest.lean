import BitDht.Container.Least
import BitDht.Peer.QueryMaps

/-!
# Closest — the search keeps the closest peers

As long as no peer is asked, `mClosest` is the list of the `bdNodesPerBucket()` peers closest to the
target among all that were offered, in whatever order they came (`addPeer_closest`).
-/

namespace BitDht

open Container

variable {mFns : BdDhtFunctions}

/-! ## Offers -/

/-- A call of `addPeer`: its time, the peer and the mode. -/
abbrev PeerOffer := Int × BdId × UInt32

/-- The query after the calls. -/
def offerPeers (mFns : BdDhtFunctions) (q : BdQuery) (calls : List PeerOffer) : BdQuery :=
  calls.foldl (fun q call => (q.addPeer mFns call.1 call.2.1 call.2.2).1) q

/-- All peers that the query was offered. -/
def offered (startList : List BdId) (calls : List PeerOffer) : List BdId :=
  startList ++ calls.map (fun call => call.2.1)

/-- The peers that stand in `mClosest`. -/
def BdQuery.closestIds (q : BdQuery) : List BdId :=
  q.mClosest.entries.map (fun e => e.2.mPeerId)

/-- `held` lists the `n` peers closest to `target` among `offers`, or all if there are fewer. -/
structure ClosestPeers (n : Nat) (target : BdNodeId) (offers held : List BdId) : Prop where
  offered : ∀ p ∈ held, p ∈ offers
  distinct : (held.map BdId.id).Nodup
  number : held.length = min n (offers.map BdId.id).toFinset.card
  closest : ∀ p ∈ held, ∀ o ∈ offers, o.id ∉ held.map BdId.id →
    bdStdDistance target p.id < bdStdDistance target o.id

/-- Offers in which a node id belongs to one peer, of which at most as many as there is room for
come with the query. -/
structure OffersOk (mFns : BdDhtFunctions) (startList : List BdId) (calls : List PeerOffer) :
    Prop where
  few : startList.length ≤ mFns.bdNodesPerBucket
  start : startList.Pairwise (fun a b => a.id ≠ b.id)
  same : ∀ a ∈ offered startList calls, ∀ b ∈ offered startList calls, a.id = b.id →
    bdIdEq a b = true

/-! ## The invariant -/

/-- The distances of the peers. -/
def distances (target : BdNodeId) (peers : List BdId) : Finset BdMetric :=
  (peers.map (fun p => bdStdDistance target p.id)).toFinset

/-- What holds of a query that was offered `offers` and has asked none of them. -/
structure ClosestInv (mFns : BdDhtFunctions) (offers : List BdId) (q : BdQuery) : Prop where
  least : Least mFns.bdNodesPerBucket (distances q.mId offers) (q.mClosest.entries.map Prod.fst)
  keyed : ∀ e ∈ q.mClosest.entries, e.1 = bdStdDistance q.mId e.2.mPeerId.id
  known : ∀ e ∈ q.mClosest.entries, e.2.mPeerId ∈ offers
  unasked : ∀ e ∈ q.mClosest.entries, e.2.mLastSendTime = 0

section offers

variable {offers : List BdId} {q : BdQuery}

theorem mem_distances {target : BdNodeId} {peers : List BdId} {dist : BdMetric} :
    dist ∈ distances target peers ↔ ∃ p ∈ peers, bdStdDistance target p.id = dist := by
  simp [distances]

theorem distances_snoc (target : BdNodeId) (peers : List BdId) (id : BdId) :
    distances target (peers ++ [id]) =
      insert (bdStdDistance target id.id) (distances target peers) := by
  ext dist
  simp [mem_distances, or_comm, eq_comm]

/-- Without a peer that was asked, all closer peers count. -/
theorem ClosestInv.countCloser_eq (h : ClosestInv mFns offers q) (ts : Int) (dist : BdMetric) :
    countCloser q ts dist = ((q.mClosest.entries.map Prod.fst).filter (· < dist)).length ∧
      keptPeers mFns q ts dist = q.mClosest.entries.take (mFns.bdNodesPerBucket - 1) := by
  have hnone : (q.mClosest.below dist).countP (fun e => unresponsive ts e.2) = 0 := by
    apply List.countP_eq_zero.2
    intro e he
    simp [unresponsive, h.unasked e (List.mem_filter.1 he).1]
  constructor
  · rw [countCloser, hnone, Nat.sub_zero, Multimap.below, List.filter_map, List.length_map]
    rfl
  · rw [keptPeers, hnone]
    rfl

/-- One offer keeps the closest peers. -/
theorem ClosestInv.addPeer (hxor : mFns.bdDistance = bdStdDistance)
    (h : ClosestInv mFns offers q) (ts : Int) {id : BdId} (mode : UInt32)
    (hsame : ∀ a ∈ offers, a.id = id.id → bdIdEq a id = true) :
    ClosestInv mFns (offers ++ [id]) (q.addPeer mFns ts id mode).1 := by
  rcases h.countCloser_eq ts (bdStdDistance q.mId id.id) with ⟨hcount, hkept⟩
  have hoffers : ∀ e ∈ q.mClosest.entries, e.2.mPeerId ∈ offers ++ [id] :=
    fun e he => List.mem_append_left _ (h.known e he)
  cases addPeer_cases mFns q ts id mode with
  | far hcloser hrun =>
      rw [hxor, hcount] at hcloser
      rw [hrun]
      refine ⟨?_, h.keyed, hoffers, h.unasked⟩
      rw [distances_snoc]
      exact h.least.insert_far hcloser
  | known hcloser hlisted hrun =>
      rw [hxor] at hlisted
      rcases hlisted with ⟨e₀, he₀, hdist, hid⟩
      rw [hrun]
      refine ⟨?_, ?_, ?_, ?_⟩
      · -- the distance was offered before
        have hmem : bdStdDistance q.mId id.id ∈ distances q.mId offers :=
          h.least.mem _ (List.mem_map.2 ⟨e₀, he₀, hdist⟩)
        rw [distances_snoc, Finset.insert_eq_of_mem hmem, Multimap.update,
          Multimap.map_fst_updateEntry]
        exact h.least
      · intro e he
        rcases Multimap.mem_updateEntry he with he | ⟨e', he', _, rfl⟩
        · exact h.keyed e he
        · rw [mPeerId_noteReply]
          exact h.keyed e' he'
      · intro e he
        rcases Multimap.mem_updateEntry he with he | ⟨e', he', _, rfl⟩
        · exact hoffers e he
        · rw [mPeerId_noteReply]
          exact hoffers e' he'
      · intro e he
        rcases Multimap.mem_updateEntry he with he | ⟨e', he', _, rfl⟩
        · exact h.unasked e he
        · rw [mLastSendTime_noteReply]
          exact h.unasked e' he'
  | added hcloser hnew hrun =>
      rw [hxor] at hcloser hnew
      rw [hcount] at hcloser
      have hpeer : (newClosest ts id mode).mPeerId = id := mPeerId_noteReply mode ts _
      -- an offered peer at this distance is the same one, and would be listed or have `k` below it
      have hfresh : bdStdDistance q.mId id.id ∉ distances q.mId offers := by
        intro hmem
        by_cases hkey : bdStdDistance q.mId id.id ∈ q.mClosest.entries.map Prod.fst
        · rcases List.mem_map.1 hkey with ⟨e, he, hdist⟩
          rw [h.keyed e he, bdStdDistance_inj] at hdist
          refine hnew ⟨e, he, ?_, hsame _ (h.known e he) hdist⟩
          rw [h.keyed e he, hdist]
        · rw [h.least.length_filter_of_not_mem hmem hkey] at hcloser
          exact lt_irrefl _ hcloser
      rw [hrun, hxor]
      refine ⟨?_, ?_, ?_, ?_⟩
      · rw [distances_snoc]
        refine h.least.insert_near hfresh hcloser ?_ (List.pairwise_map.2 (Multimap.sorted _))
        have hperm := (Multimap.insertEntry_perm (bdStdDistance q.mId id.id, newClosest ts id mode)
          (keptPeers mFns q ts (bdStdDistance q.mId id.id))).map Prod.fst
        have htake : (keptPeers mFns q ts (bdStdDistance q.mId id.id)).map Prod.fst =
            (q.mClosest.entries.map Prod.fst).take (mFns.bdNodesPerBucket - 1) := by
          rw [hkept, List.map_take]
        rw [List.map_cons, htake] at hperm
        exact hperm
      · intro e he
        rcases Multimap.mem_insert.1 he with rfl | he
        · rw [hpeer]
        · exact h.keyed e ((keptPeers_sublist q ts _).subset he)
      · intro e he
        rcases Multimap.mem_insert.1 he with rfl | he
        · rw [hpeer]
          exact List.mem_append_right _ (List.mem_singleton_self id)
        · exact hoffers e ((keptPeers_sublist q ts _).subset he)
      · intro e he
        rcases Multimap.mem_insert.1 he with rfl | he
        · exact mLastSendTime_noteReply mode ts _
        · exact h.unasked e ((keptPeers_sublist q ts _).subset he)

/-- A new query lists its start list. -/
theorem closestInv_new (hxor : mFns.bdDistance = bdStdDistance) {startList : List BdId}
    (hlen : startList.length ≤ mFns.bdNodesPerBucket)
    (hstart : startList.Pairwise (fun a b => a.id ≠ b.id)) (now : Int) (target : BdNodeId)
    (queryFlags : UInt32) :
    ClosestInv mFns startList (BdQuery.new mFns now target startList queryFlags) := by
  have hperm := new_entries_perm mFns now target startList queryFlags
  rw [hxor] at hperm
  have hentry : ∀ e ∈ (BdQuery.new mFns now target startList queryFlags).mClosest.entries,
      ∃ it ∈ startList, e = (bdStdDistance target it.id, startPeer now it) := by
    intro e he
    rcases List.mem_map.1 (hperm.mem_iff.1 he) with ⟨it, hit, rfl⟩
    exact ⟨it, hit, rfl⟩
  have hkeys : ((BdQuery.new mFns now target startList queryFlags).mClosest.entries.map
      Prod.fst).Perm (startList.map (fun it => bdStdDistance target it.id)) := by
    have hfst := hperm.map Prod.fst
    rwa [List.map_map] at hfst
  refine ⟨Least.of_card_le ?_ ?_ ?_, ?_, ?_, ?_⟩
  · -- distinct ids have distinct distances
    have hnodup : (startList.map (fun it => bdStdDistance target it.id)).Nodup := by
      refine List.pairwise_map.2 (hstart.imp ?_)
      intro a b hab heq
      exact hab (bdStdDistance_inj.1 heq)
    have hle : ((BdQuery.new mFns now target startList queryFlags).mClosest.entries.map
        Prod.fst).Pairwise (· ≤ ·) := List.pairwise_map.2 (Multimap.sorted _)
    exact (hle.and (hkeys.nodup_iff.2 hnodup)).imp (fun hab => lt_of_le_of_ne hab.1 hab.2)
  · intro dist
    rw [hkeys.mem_iff, distances, List.mem_toFinset]
    rfl
  · calc
      (distances target startList).card ≤ (startList.map _).length := List.toFinset_card_le _
      _ = startList.length := List.length_map _
      _ ≤ mFns.bdNodesPerBucket := hlen
  · intro e he
    rcases hentry e he with ⟨it, hit, rfl⟩
    rfl
  · intro e he
    rcases hentry e he with ⟨it, hit, rfl⟩
    exact hit
  · intro e he
    rcases hentry e he with ⟨it, hit, rfl⟩
    rfl

theorem ClosestInv.keys_eq (h : ClosestInv mFns offers q) : q.mClosest.entries.map Prod.fst =
    (q.closestIds.map BdId.id).map (bdStdDistance q.mId) := by
  rw [BdQuery.closestIds, List.map_map, List.map_map]
  exact List.map_congr_left h.keyed

/-- The invariant in terms of the peers. -/
theorem ClosestInv.closestPeers (h : ClosestInv mFns offers q) :
    ClosestPeers mFns.bdNodesPerBucket q.mId offers q.closestIds := by
  have hcard : (distances q.mId offers).card = (offers.map BdId.id).toFinset.card := by
    have himage : distances q.mId offers =
        (offers.map BdId.id).toFinset.image (bdStdDistance q.mId) := by
      ext dist
      simp [mem_distances]
    rw [himage, Finset.card_image_of_injective _ (fun a b hab => bdStdDistance_inj.1 hab)]
  have hleast := h.least
  rw [h.keys_eq] at hleast
  refine ⟨?_, ?_, ?_, ?_⟩
  · intro p hp
    rcases List.mem_map.1 hp with ⟨e, he, rfl⟩
    exact h.known e he
  · exact List.Nodup.of_map _ hleast.nodup
  · rw [← hcard, ← hleast.length, List.length_map, List.length_map]
  · intro p hp o ho hout
    refine hleast.least _ (List.mem_map_of_mem (List.mem_map_of_mem hp)) _
      (mem_distances.2 ⟨o, ho, rfl⟩) ?_
    intro hmem
    rcases List.mem_map.1 hmem with ⟨id, hid, heq⟩
    rw [bdStdDistance_inj.1 heq] at hid
    exact hout hid

theorem ClosestInv.run (hxor : mFns.bdDistance = bdStdDistance)
    (h : ClosestInv mFns offers q) {calls : List PeerOffer}
    (hsame : ∀ a ∈ offered offers calls, ∀ b ∈ offered offers calls, a.id = b.id →
      bdIdEq a b = true) :
    ClosestInv mFns (offered offers calls) (offerPeers mFns q calls) := by
  induction calls generalizing offers q with
  | nil =>
      rw [offered, List.map_nil, List.append_nil]
      exact h
  | cons call calls ih =>
      have hsplit : offered offers (call :: calls) = offered (offers ++ [call.2.1]) calls := by
        rw [offered, offered, List.map_cons, List.append_assoc, List.singleton_append]
      have hcall : call.2.1 ∈ offered offers (call :: calls) := by simp [offered]
      have hstep : ClosestInv mFns (offers ++ [call.2.1])
          (q.addPeer mFns call.1 call.2.1 call.2.2).1 :=
        h.addPeer hxor call.1 call.2.2 (fun a ha => hsame a (List.mem_append_left _ ha) _ hcall)
      rw [hsplit] at hsame ⊢
      exact ih hstep hsame

end offers

theorem offerPeers_mId (q : BdQuery) (calls : List PeerOffer) :
    (offerPeers mFns q calls).mId = q.mId := by
  induction calls generalizing q with
  | nil =>
      rfl
  | cons call calls ih =>
      exact (ih _).trans (queryStep_sameSearch q (call.1, .addPeer call.2.1 call.2.2)).mId

/-- Two queries for one target that were offered the same peers list the same ones. -/
theorem ClosestInv.ids_eq {offers offers' : List BdId} {q q' : BdQuery}
    (h : ClosestInv mFns offers q) (h' : ClosestInv mFns offers' q') (hid : q'.mId = q.mId)
    (hoffers : ∀ p, p ∈ offers ↔ p ∈ offers') :
    q.closestIds.map BdId.id = q'.closestIds.map BdId.id := by
  have hset : distances q'.mId offers' = distances q.mId offers := by
    ext dist
    simp only [mem_distances, hid, hoffers]
  have hleast' := h'.least
  rw [hset] at hleast'
  have hkeys := h.least.unique hleast'
  rw [h.keys_eq, h'.keys_eq, hid] at hkeys
  exact List.map_injective_iff.2 (fun a b hab => bdStdDistance_inj.1 hab) hkeys

/-- A query that is offered peers and asks none lists the closest of them, and which ones it lists
depends only on what was offered. -/
theorem addPeer_closest (hxor : mFns.bdDistance = bdStdDistance) (target : BdNodeId)
    {startList : List BdId} {calls : List PeerOffer} (hok : OffersOk mFns startList calls)
    (now : Int) (queryFlags : UInt32) :
    let q := offerPeers mFns (BdQuery.new mFns now target startList queryFlags) calls
    ClosestPeers mFns.bdNodesPerBucket target (offered startList calls) q.closestIds ∧
      ∀ startList' calls', OffersOk mFns startList' calls' →
        (∀ p, p ∈ offered startList calls ↔ p ∈ offered startList' calls') →
        ∀ now' queryFlags',
          (offerPeers mFns (BdQuery.new mFns now' target startList' queryFlags')
            calls').closestIds.map BdId.id = q.closestIds.map BdId.id := by
  intro q
  have hinv : ∀ {startList calls}, OffersOk mFns startList calls → ∀ now queryFlags,
      ClosestInv mFns (offered startList calls)
        (offerPeers mFns (BdQuery.new mFns now target startList queryFlags) calls) :=
    fun hok now queryFlags =>
      (closestInv_new hxor hok.few hok.start now target queryFlags).run hxor hok.same
  have hid : ∀ startList calls now queryFlags,
      (offerPeers mFns (BdQuery.new mFns now target startList queryFlags) calls).mId = target :=
    fun startList calls now queryFlags => offerPeers_mId _ calls
  have hq := hinv hok now queryFlags
  refine ⟨?_, ?_⟩
  · have hclosest := hq.closestPeers
    rwa [hid] at hclosest
  · intro startList' calls' hok' hsame now' queryFlags'
    have hids := hq.ids_eq (hinv hok' now' queryFlags') (by rw [hid, hid]) hsame
    exact hids.symm

/-- Thirteen peers that come nearer and nearer, and one of them again. -/
def nearerOffers : List PeerOffer :=
  (List.range 12).map (fun k => (.ofNat (5 + k), bytePeer (20 - k), 0)) ++ [(20, bytePeer 12, 2)]

theorem addPeer_closest_run :
    let q := offerPeers bdStdDht (BdQuery.new bdStdDht 4 bdZeroNodeId [bytePeer 21] 0) nearerOffers
    q.closestIds.map BdId.id = (List.range 10).map (fun k => byteId (9 + k)) ∧
      ClosestPeers bdStdDht.bdNodesPerBucket bdZeroNodeId (offered [bytePeer 21] nearerOffers)
        q.closestIds ∧
      ∀ startList' calls', OffersOk bdStdDht startList' calls' →
        (∀ p, p ∈ offered [bytePeer 21] nearerOffers ↔ p ∈ offered startList' calls') →
        ∀ now' queryFlags',
          (offerPeers bdStdDht (BdQuery.new bdStdDht now' bdZeroNodeId startList' queryFlags')
            calls').closestIds.map BdId.id = q.closestIds.map BdId.id :=
  ⟨by decide +kernel,
    addPeer_closest rfl bdZeroNodeId ⟨by decide, by decide, by decide +kernel⟩ 4 0⟩

end BitDht
