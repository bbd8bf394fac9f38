import BitDht.Container.Ordered
import BitDht.Exec.Outcome
import BitDht.Peer.StdDht
import Mathlib.Data.List.Forall2

/-!
# Space — the routing table of `bdpeer.cc`

`addPeer`, `outOfDatePeer` and `clear` are the operations of `bdSpace`.  `SpaceInv` is what holds of
a table between them: peers stand in their bucket, buckets are small and sorted by the time of the
last packet, and no peer stands twice in the whole table.
-/

namespace BitDht

open Container Outcome

/-! ## Peers and buckets -/

/-- `operator==` on `bdId`. -/
def bdIdEq (a b : BdId) : Bool :=
  a.id.data == b.id.data && a.addr.sAddr == b.addr.sAddr && a.addr.sinPort == b.addr.sinPort

/-- `bdPeer` -/
structure BdPeer where
  mPeerId : BdId
  mPeerFlags : UInt32
  mLastSendTime : Int
  mLastRecvTime : Int
  mFoundTime : Int
  deriving DecidableEq

/-- The entries of a `bdBucket`. -/
abbrev BdBucket := List BdPeer

/-- `bdSpace` over the functions `mFns`. -/
structure BdSpace (mFns : BdDhtFunctions) where
  mOwnId : BdNodeId
  buckets : List BdBucket
  size : buckets.length = mFns.bdNumBuckets

def bitdhtMaxSendPeriod : Int := 600

def bitdhtMaxRecvPeriod : Int := 1500

variable {mFns : BdDhtFunctions}

/-- The constructor of `bdSpace`. -/
def BdSpace.new (ownId : BdNodeId) : BdSpace mFns where
  mOwnId := ownId
  buckets := List.replicate mFns.bdNumBuckets []
  size := by simp

/-- The bucket of an id in a table of the peer `ownId`. -/
def bucketOf (mFns : BdDhtFunctions) (ownId id : BdNodeId) : Nat :=
  mFns.bdBucketDistance (mFns.bdDistance ownId id)

/-! ## `add_peer` -/

/-- The score found by the loop over a bucket that does not hold the new peer. -/
def minScore (peerflags : UInt32) (entries : BdBucket) : UInt32 :=
  entries.foldl (fun score it => if it.mPeerFlags < score then it.mPeerFlags else score) peerflags

def newPeer (ts : Int) (id : BdId) (peerflags : UInt32) : BdPeer where
  mPeerId := id
  mPeerFlags := peerflags
  mLastSendTime := ts
  mLastRecvTime := ts
  mFoundTime := 0

/-- What `add_peer` does to a bucket that does not hold the new peer: the entries that stay, if the
peer is to be added. -/
def makeRoom (mFns : BdDhtFunctions) (ts : Int) (peerflags : UInt32) (entries : BdBucket) :
    Option BdBucket :=
  if entries.length < mFns.bdNodesPerBucket then
    some entries
  else
    match entries with
    | [] => none
    | peer :: rest =>
        -- the peer at the front, with the two times subtracted this way round
        if peer.mLastRecvTime - ts > bitdhtMaxRecvPeriod then
          some rest
        else
          let score := minScore peerflags entries
          if peerflags > score then
            -- find one to drop
            if entries.any (fun it => it.mPeerFlags == score) then
              some (entries.eraseP (fun it => it.mPeerFlags == score))
            else
              none
          else
            none

/-- `add_peer` on its bucket: the entries afterwards and the returned flag. -/
def addToBucket (mFns : BdDhtFunctions) (ts : Int) (id : BdId) (peerflags : UInt32)
    (entries : BdBucket) : BdBucket × Bool :=
  match entries.find? (fun it => bdIdEq id it.mPeerId) with
  | some peer =>
      (entries.eraseP (fun it => bdIdEq id it.mPeerId) ++
        [{ peer with mLastRecvTime := ts, mPeerFlags := peer.mPeerFlags ||| peerflags }], true)
  | none =>
      match makeRoom mFns ts peerflags entries with
      | some rest => (rest ++ [newPeer ts id peerflags], true)
      | none => (entries, false)

/-- `bdSpace::add_peer` -/
def BdSpace.addPeer (s : BdSpace mFns) (ts : Int) (id : BdId) (peerflags : UInt32) :
    BdSpace mFns × Bool :=
  let bucket := bucketOf mFns s.mOwnId id.id
  let r := addToBucket mFns ts id peerflags (s.buckets.getD bucket [])
  ({ s with buckets := s.buckets.set bucket r.1, size := by simp [s.size] }, r.2)

/-! ## `out_of_date_peer` and `clear` -/

/-- The inner loop of `out_of_date_peer`: the peer it returns, and the bucket with the time set. -/
def outOfDateEntry (ts : Int) : BdBucket → Option (BdId × BdBucket)
  | [] => none
  | eit :: entries =>
      if ts - eit.mLastSendTime > bitdhtMaxSendPeriod then
        some (eit.mPeerId, { eit with mLastSendTime := ts } :: entries)
      else
        (outOfDateEntry ts entries).map (fun r => (r.1, eit :: r.2))

/-- The outer loop of `out_of_date_peer`. -/
def outOfDateBucket (ts : Int) : List BdBucket → Option (BdId × List BdBucket)
  | [] => none
  | it :: buckets =>
      match outOfDateEntry ts it with
      | some r => some (r.1, r.2 :: buckets)
      | none => (outOfDateBucket ts buckets).map (fun r => (r.1, it :: r.2))

/-- One entry of a bucket with another `mLastSendTime`. -/
def SendTimeOnly (entries entries' : BdBucket) : Prop :=
  List.Forall₂ (fun p q => q = { p with mLastSendTime := q.mLastSendTime }) entries entries'

theorem sendTimeOnly_refl (entries : BdBucket) : SendTimeOnly entries entries :=
  List.forall₂_same.2 (fun _ _ => rfl)

theorem outOfDateEntry_sendTimeOnly {ts : Int} {entries : BdBucket} {r : BdId × BdBucket}
    (h : outOfDateEntry ts entries = some r) : SendTimeOnly entries r.2 := by
  induction entries generalizing r with
  | nil =>
      cases h
  | cons eit entries ih =>
      simp only [outOfDateEntry] at h
      split at h
      · cases h
        exact .cons rfl (sendTimeOnly_refl entries)
      · rcases Option.map_eq_some_iff.1 h with ⟨r', hr', rfl⟩
        exact .cons rfl (ih hr')

theorem outOfDateBucket_sendTimeOnly {ts : Int} {buckets : List BdBucket}
    {r : BdId × List BdBucket} (h : outOfDateBucket ts buckets = some r) :
    List.Forall₂ SendTimeOnly buckets r.2 := by
  induction buckets generalizing r with
  | nil =>
      cases h
  | cons it buckets ih =>
      simp only [outOfDateBucket] at h
      split at h
      · rename_i r' hr'
        cases h
        exact .cons (outOfDateEntry_sendTimeOnly hr')
          (List.forall₂_same.2 (fun b _ => sendTimeOnly_refl b))
      · rcases Option.map_eq_some_iff.1 h with ⟨r', hr', rfl⟩
        exact .cons (sendTimeOnly_refl it) (ih hr')

/-- `bdSpace::out_of_date_peer`: the table afterwards and the peer, if it returns 1. -/
def BdSpace.outOfDatePeer (s : BdSpace mFns) (ts : Int) : BdSpace mFns × Option BdId :=
  match h : outOfDateBucket ts s.buckets with
  | some (id, buckets) =>
      ({ s with buckets := buckets,
                size := by rw [← s.size, (outOfDateBucket_sendTimeOnly h).length_eq] }, some id)
  | none => (s, none)

/-- `bdSpace::clear` -/
def BdSpace.clear (s : BdSpace mFns) : BdSpace mFns where
  mOwnId := s.mOwnId
  buckets := s.buckets.map (fun _ => [])
  size := by simp [s.size]

/-- `bdSpace::calcSpaceSize` -/
def BdSpace.calcSpaceSize (s : BdSpace mFns) : Nat :=
  (s.buckets.map List.length).sum

/-! ### The peers that are out of date -/

/-- The test of `out_of_date_peer`. -/
def outOfDate (ts : Int) (peer : BdPeer) : Bool :=
  decide (ts - peer.mLastSendTime > bitdhtMaxSendPeriod)

/-- The number of peers that `out_of_date_peer` could return. -/
def BdSpace.outOfDateCount (s : BdSpace mFns) (ts : Int) : Nat :=
  s.buckets.flatten.countP (outOfDate ts)

theorem countP_outOfDateEntry {ts : Int} {entries : BdBucket} {r : BdId × BdBucket}
    (h : outOfDateEntry ts entries = some r) :
    r.2.countP (outOfDate ts) + 1 = entries.countP (outOfDate ts) := by
  induction entries generalizing r with
  | nil =>
      cases h
  | cons eit entries ih =>
      rw [outOfDateEntry] at h
      split_ifs at h with hold
      · cases h
        -- the peer that is returned is not out of date any more
        have hnew : outOfDate ts { eit with mLastSendTime := ts } = false := by
          simp [outOfDate, bitdhtMaxSendPeriod]
        have heit : outOfDate ts eit = true := decide_eq_true hold
        rw [List.countP_cons, List.countP_cons, hnew, heit]
        simp
      · rcases Option.map_eq_some_iff.1 h with ⟨r', hr', rfl⟩
        rw [List.countP_cons, List.countP_cons, ← ih hr']
        omega

theorem countP_outOfDateBucket {ts : Int} {buckets : List BdBucket} {r : BdId × List BdBucket}
    (h : outOfDateBucket ts buckets = some r) :
    r.2.flatten.countP (outOfDate ts) + 1 = buckets.flatten.countP (outOfDate ts) := by
  induction buckets generalizing r with
  | nil =>
      cases h
  | cons it buckets ih =>
      rw [outOfDateBucket] at h
      split at h
      · rename_i r' hr'
        cases h
        have hentry := countP_outOfDateEntry hr'
        rw [List.flatten_cons, List.flatten_cons, List.countP_append, List.countP_append]
        omega
      · rcases Option.map_eq_some_iff.1 h with ⟨r', hr', rfl⟩
        have hrest := ih hr'
        rw [List.flatten_cons, List.flatten_cons, List.countP_append, List.countP_append]
        omega

/-- Each call that returns a peer leaves one less. -/
theorem outOfDateCount_outOfDatePeer {s space : BdSpace mFns} {ts : Int} {id : BdId}
    (h : s.outOfDatePeer ts = (space, some id)) :
    space.outOfDateCount ts + 1 = s.outOfDateCount ts := by
  rw [BdSpace.outOfDatePeer] at h
  split at h
  · rename_i id' buckets hout
    cases h
    exact countP_outOfDateBucket hout
  · cases h

theorem outOfDateCount_le (s : BdSpace mFns) (ts : Int) :
    s.outOfDateCount ts ≤ s.calcSpaceSize := by
  rw [BdSpace.calcSpaceSize, ← List.length_flatten]
  exact List.countP_le_length

/-! ## `find_nearest_nodes` -/

/-- `bdSpace::find_nearest_nodes`: what the call adds to `nearest`. -/
def BdSpace.findNearestNodes (s : BdSpace mFns) (id : BdNodeId) (number : Int)
    (nearest : Multimap BdMetric BdId) : Multimap BdMetric BdId :=
  -- iterate through the buckets, and sort by distance
  let closest := s.buckets.flatten.foldl
    (fun closest eit => closest.insert (mFns.bdDistance id eit.mPeerId.id) eit.mPeerId)
    (Multimap.empty : Multimap BdMetric BdId)
  -- take the first number of nodes
  (closest.entries.take number.toNat).foldl (fun nearest mit => nearest.insert mit.1 mit.2) nearest

/-- No more entries are added than were asked for. -/
theorem length_findNearestNodes_le (s : BdSpace mFns) (id : BdNodeId) (number : Int) :
    (s.findNearestNodes id number Multimap.empty).entries.length ≤ number.toNat := by
  rw [BdSpace.findNearestNodes, Multimap.length_foldl_insert, List.length_take]
  have hempty : (Multimap.empty : Multimap BdMetric BdId).entries.length = 0 := rfl
  -- `take` bounds the number of insertions
  omega

/-! ## One bucket -/

theorem bdIdEq_iff {a b : BdId} : bdIdEq a b = true ↔
    a.id = b.id ∧ a.addr.sAddr = b.addr.sAddr ∧ a.addr.sinPort = b.addr.sinPort := by
  have hid : a.id.data = b.id.data ↔ a.id = b.id :=
    ⟨BdNodeId.ext_data, fun h => congrArg BdNodeId.data h⟩
  simp [bdIdEq, hid, and_assoc]

theorem bdIdEq_comm (a b : BdId) : bdIdEq a b = bdIdEq b a := by
  rw [Bool.eq_iff_iff, bdIdEq_iff, bdIdEq_iff]
  -- the three comparisons are equalities
  tauto

theorem bdIdEq_trans {a b c : BdId} (hab : bdIdEq a b = true) (hbc : bdIdEq b c = true) :
    bdIdEq a c = true := by
  rw [bdIdEq_iff] at hab hbc ⊢
  exact ⟨hab.1.trans hbc.1, hab.2.1.trans hbc.2.1, hab.2.2.trans hbc.2.2⟩

/-- What holds of bucket `k` in a table of the peer `ownId` at the time `now`. -/
structure BucketInv (mFns : BdDhtFunctions) (ownId : BdNodeId) (now : Int) (k : Nat)
    (entries : BdBucket) : Prop where
  placed : ∀ p ∈ entries, bucketOf mFns ownId p.mPeerId.id = k
  full : entries.length ≤ mFns.bdNodesPerBucket
  distinct : entries.Pairwise (fun p q => bdIdEq p.mPeerId q.mPeerId = false)
  sorted : entries.Pairwise (fun p q => p.mLastRecvTime ≤ q.mLastRecvTime)
  recent : ∀ p ∈ entries, p.mLastRecvTime ≤ now

section bucket

variable {ownId : BdNodeId} {now : Int} {k : Nat} {entries : BdBucket}

theorem BucketInv.nil (mFns : BdDhtFunctions) (ownId : BdNodeId) (now : Int) (k : Nat) :
    BucketInv mFns ownId now k [] := by
  refine ⟨by simp, Nat.zero_le _, .nil, .nil, by simp⟩

/-- Entries are dropped and one that was just heard of is added at the back. -/
theorem BucketInv.push (h : BucketInv mFns ownId now k entries) {rest : BdBucket}
    (hrest : rest.Sublist entries) (hlen : rest.length < mFns.bdNodesPerBucket) {p : BdPeer}
    (hp : bucketOf mFns ownId p.mPeerId.id = k)
    (hnew : ∀ q ∈ rest, bdIdEq q.mPeerId p.mPeerId = false) (hnow : p.mLastRecvTime = now) :
    BucketInv mFns ownId now k (rest ++ [p]) := by
  refine ⟨?_, ?_, ?_, ?_, ?_⟩
  · intro q hq
    rcases List.mem_append.1 hq with hq | hq
    · exact h.placed q (hrest.subset hq)
    · rw [List.mem_singleton.1 hq]
      exact hp
  -- one entry more than the rest
  · rw [List.length_append, List.length_singleton]
    omega
  · refine List.pairwise_append.2 ⟨h.distinct.sublist hrest, List.pairwise_singleton _ _, ?_⟩
    intro q hq x hx
    rw [List.mem_singleton.1 hx]
    exact hnew q hq
  · refine List.pairwise_append.2 ⟨h.sorted.sublist hrest, List.pairwise_singleton _ _, ?_⟩
    intro q hq x hx
    rw [List.mem_singleton.1 hx, hnow]
    exact h.recent q (hrest.subset hq)
  · intro q hq
    rcases List.mem_append.1 hq with hq | hq
    · exact h.recent q (hrest.subset hq)
    · rw [List.mem_singleton.1 hq, hnow]

theorem makeRoom_some {ts : Int} {peerflags : UInt32} {rest : BdBucket}
    (hfull : entries.length ≤ mFns.bdNodesPerBucket)
    (h : makeRoom mFns ts peerflags entries = some rest) :
    rest.Sublist entries ∧ rest.length < mFns.bdNodesPerBucket := by
  -- in each of the branches that let the peer in an entry short of full is left
  unfold makeRoom at h
  split at h
  · rename_i hlt
    cases h
    exact ⟨List.Sublist.refl _, hlt⟩
  · split at h
    · cases h
    · split at h
      · cases h
        refine ⟨List.sublist_cons_self _ _, ?_⟩
        rw [List.length_cons] at hfull
        omega
      · simp only at h
        split at h
        · split at h
          · rename_i hany
            -- the entry with the least score is there, and it is erased
            rcases List.any_eq_true.1 hany with ⟨it, hmem, hit⟩
            cases h
            refine ⟨List.eraseP_sublist, ?_⟩
            rw [List.length_eraseP_of_mem hmem hit]
            simp only [List.length_cons] at hfull ⊢
            omega
          · cases h
        · cases h

theorem addToBucket_inv (h : BucketInv mFns ownId now k entries) {id : BdId}
    (hid : bucketOf mFns ownId id.id = k) (peerflags : UInt32) :
    BucketInv mFns ownId now k (addToBucket mFns now id peerflags entries).1 := by
  rw [addToBucket]
  split
  · rename_i peer hfind
    -- the peer is there: its entry moves to the back
    rcases List.find?_eq_some_iff_append.1 hfind with ⟨heq, as, bs, hsplit, hbefore⟩
    have herase : entries.eraseP (fun it => bdIdEq id it.mPeerId) = as ++ bs := by
      have has : ∀ x ∈ as, ¬ bdIdEq id x.mPeerId = true := by
        intro x hx
        simpa using hbefore x hx
      calc
        entries.eraseP (fun it => bdIdEq id it.mPeerId)
            = as ++ (peer :: bs).eraseP (fun it => bdIdEq id it.mPeerId) := by
              rw [hsplit, List.eraseP_append_right _ has]
        _ = as ++ bs := by simp [heq]
    have hpeer : peer ∈ entries := by simp [hsplit]
    have hdistinct := h.distinct
    rw [hsplit] at hdistinct
    have hmiddle := List.pairwise_append.1 hdistinct
    have htail := List.pairwise_cons.1 hmiddle.2.1
    rw [herase]
    refine h.push ?_ ?_ (h.placed peer hpeer) ?_ rfl
    · rw [hsplit]
      exact List.Sublist.append (List.Sublist.refl _) (List.sublist_cons_self _ _)
    · have hfull := h.full
      rw [hsplit] at hfull
      simp only [List.length_append, List.length_cons] at hfull ⊢
      omega
    · intro q hq
      rcases List.mem_append.1 hq with hq | hq
      · exact hmiddle.2.2 q hq peer (by simp)
      · rw [bdIdEq_comm]
        exact htail.1 q hq
  · rename_i hfind
    split
    · rename_i rest hroom
      -- the peer is new, and the scan found no entry equal to it
      rcases makeRoom_some h.full hroom with ⟨hsub, hlen⟩
      refine h.push hsub hlen hid ?_ rfl
      intro q hq
      have hne := List.find?_eq_none.1 hfind q (hsub.subset hq)
      have hcomm : bdIdEq q.mPeerId id = false := by
        rw [bdIdEq_comm]
        simpa using hne
      exact hcomm
    · exact h

theorem SendTimeOnly.map_eq {entries' : BdBucket} (h : SendTimeOnly entries entries') {α : Type}
    {f : BdPeer → α} (hf : ∀ p t, f { p with mLastSendTime := t } = f p) :
    entries'.map f = entries.map f := by
  induction h with
  | nil =>
      rfl
  | @cons p q entries entries' hpq _ ih =>
      have hq : f q = f p := by
        rw [hpq, hf]
      rw [List.map_cons, List.map_cons, hq, ih]

theorem SendTimeOnly.inv {entries' : BdBucket} (h : SendTimeOnly entries entries')
    (hinv : BucketInv mFns ownId now k entries) : BucketInv mFns ownId now k entries' := by
  -- no part of the invariant speaks of the send time, so it can be read off the other fields
  have hids : entries'.map BdPeer.mPeerId = entries.map BdPeer.mPeerId := h.map_eq (fun _ _ => rfl)
  have htimes : entries'.map BdPeer.mLastRecvTime = entries.map BdPeer.mLastRecvTime :=
    h.map_eq (fun _ _ => rfl)
  refine ⟨?_, ?_, ?_, ?_, ?_⟩
  · intro p hp
    have hmem : p.mPeerId ∈ entries.map BdPeer.mPeerId := by
      rw [← hids]
      exact List.mem_map_of_mem hp
    rcases List.mem_map.1 hmem with ⟨q, hq, hqp⟩
    rw [← hqp]
    exact hinv.placed q hq
  · rw [← h.length_eq]
    exact hinv.full
  · have hpairs : (entries.map BdPeer.mPeerId).Pairwise (fun a b => bdIdEq a b = false) :=
      List.pairwise_map.2 hinv.distinct
    rw [← hids] at hpairs
    exact List.pairwise_map.1 hpairs
  · have hpairs : (entries.map BdPeer.mLastRecvTime).Pairwise (fun a b => a ≤ b) :=
      List.pairwise_map.2 hinv.sorted
    rw [← htimes] at hpairs
    exact List.pairwise_map.1 hpairs
  · intro p hp
    have hmem : p.mLastRecvTime ∈ entries.map BdPeer.mLastRecvTime := by
      rw [← htimes]
      exact List.mem_map_of_mem hp
    rcases List.mem_map.1 hmem with ⟨q, hq, hqp⟩
    rw [← hqp]
    exact hinv.recent q hq

end bucket

/-! ## The whole table -/

/-- Every bucket keeps its invariant. -/
def TableInv (now : Int) (s : BdSpace mFns) : Prop :=
  ∀ k entries, s.buckets[k]? = some entries → BucketInv mFns s.mOwnId now k entries

/-- The calls that change a table. -/
inductive SpaceOp
  | addPeer (id : BdId) (peerflags : UInt32)
  | outOfDatePeer
  | clear

/-- One call at the time that `time(NULL)` returns in it. -/
def spaceStep (s : BdSpace mFns) : Int × SpaceOp → BdSpace mFns
  | (ts, .addPeer id peerflags) => (s.addPeer ts id peerflags).1
  | (ts, .outOfDatePeer) => (s.outOfDatePeer ts).1
  | (_, .clear) => s.clear

theorem tableInv_new (ownId : BdNodeId) (now : Int) :
    TableInv now (BdSpace.new ownId : BdSpace mFns) := by
  intro k entries h
  have hentries : entries = [] := by
    rcases List.getElem?_eq_some_iff.1 h with ⟨hk, rfl⟩
    simp [BdSpace.new]
  rw [hentries]
  exact .nil mFns ownId now k

theorem tableInv_mono {now now' : Int} (hle : now ≤ now') {s : BdSpace mFns}
    (h : TableInv now s) : TableInv now' s := by
  intro k entries hk
  have hinv := h k entries hk
  exact { hinv with recent := fun p hp => (hinv.recent p hp).trans hle }

theorem addPeer_inv {now : Int} {s : BdSpace mFns} (h : TableInv now s) (id : BdId)
    (peerflags : UInt32) : TableInv now (s.addPeer now id peerflags).1 := by
  intro k entries hk
  simp only [BdSpace.addPeer, List.getElem?_set] at hk
  split at hk
  · rename_i hkb
    split at hk
    · rename_i hlt
      cases hk
      -- only the bucket of the id is written
      have hget : s.buckets[bucketOf mFns s.mOwnId id.id]? =
          some (s.buckets.getD (bucketOf mFns s.mOwnId id.id) []) := by
        rw [List.getD_eq_getElem?_getD, List.getElem?_eq_getElem hlt, Option.getD_some]
      exact addToBucket_inv (hkb ▸ h _ _ hget) hkb peerflags
    · cases hk
  · exact h k entries hk

theorem outOfDatePeer_inv {now : Int} {s : BdSpace mFns} (h : TableInv now s) (ts : Int) :
    TableInv now (s.outOfDatePeer ts).1 := by
  rw [BdSpace.outOfDatePeer]
  split
  · rename_i id buckets hout
    have hall := outOfDateBucket_sendTimeOnly hout
    intro k entries hk
    rcases List.getElem?_eq_some_iff.1 hk with ⟨hlt, rfl⟩
    have hlt' : k < s.buckets.length := by rwa [hall.length_eq]
    have hsend : SendTimeOnly s.buckets[k] buckets[k] := hall.get hlt' hlt
    exact hsend.inv (h k _ (List.getElem?_eq_getElem hlt'))
  · exact h

theorem clear_inv {now : Int} (s : BdSpace mFns) : TableInv now s.clear := by
  intro k entries hk
  have hentries : entries = [] := by
    rcases List.getElem?_eq_some_iff.1 hk with ⟨hlt, rfl⟩
    simp [BdSpace.clear]
  rw [hentries]
  exact .nil mFns s.mOwnId now k

/-- One call keeps every bucket in order. -/
theorem spaceStep_inv {now : Int} {s : BdSpace mFns} (h : TableInv now s) (op : SpaceOp) :
    TableInv now (spaceStep s (now, op)) := by
  cases op with
  | addPeer id peerflags =>
      exact addPeer_inv h id peerflags
  | outOfDatePeer =>
      exact outOfDatePeer_inv h now
  | clear =>
      exact clear_inv s

/-- What holds of a whole table. -/
structure SpaceInv (s : BdSpace mFns) : Prop where
  /-- every entry of bucket `k` has its distance to the own id in bucket `k` -/
  placed : ∀ k entries, s.buckets[k]? = some entries → k < mFns.bdNumBuckets ∧
    ∀ p ∈ entries, mFns.bdBucketDistance (mFns.bdDistance s.mOwnId p.mPeerId.id) = k
  full : ∀ entries ∈ s.buckets, entries.length ≤ mFns.bdNodesPerBucket
  /-- no peer stands twice in the whole table -/
  distinct : s.buckets.flatten.Pairwise (fun p q => bdIdEq p.mPeerId q.mPeerId = false)
  sorted : ∀ entries ∈ s.buckets,
    entries.Pairwise (fun p q => p.mLastRecvTime ≤ q.mLastRecvTime)

/-- That no peer stands in two buckets follows from where the peers stand. -/
theorem TableInv.space {now : Int} {s : BdSpace mFns} (h : TableInv now s) : SpaceInv s := by
  have hbucket : ∀ entries ∈ s.buckets, ∃ k, BucketInv mFns s.mOwnId now k entries := by
    intro entries hmem
    rcases List.mem_iff_getElem?.1 hmem with ⟨k, hk⟩
    exact ⟨k, h k entries hk⟩
  refine ⟨?_, ?_, ?_, ?_⟩
  · intro k entries hk
    rcases List.getElem?_eq_some_iff.1 hk with ⟨hlt, _⟩
    rw [s.size] at hlt
    exact ⟨hlt, (h k entries hk).placed⟩
  · intro entries hmem
    rcases hbucket entries hmem with ⟨k, hk⟩
    exact hk.full
  · refine List.pairwise_flatten.2 ⟨?_, ?_⟩
    · intro entries hmem
      rcases hbucket entries hmem with ⟨k, hk⟩
      exact hk.distinct
    · apply List.pairwise_iff_getElem.2
      intro i j hi hj hij p hp q hq
      -- equal ids have one distance to the own id, so their buckets are one
      have hpi := (h i _ (List.getElem?_eq_getElem hi)).placed p hp
      have hqj := (h j _ (List.getElem?_eq_getElem hj)).placed q hq
      cases heq : bdIdEq p.mPeerId q.mPeerId with
      | false =>
          rfl
      | true =>
          rw [(bdIdEq_iff.1 heq).1, hqj] at hpi
          omega
  · intro entries hmem
    rcases hbucket entries hmem with ⟨k, hk⟩
    exact hk.sorted

theorem tableInv_run (mFns : BdDhtFunctions) (ownId : BdNodeId) {ops : List (Int × SpaceOp)}
    (hclock : ops.Pairwise (fun a b => a.1 ≤ b.1)) {now : Int} (hnow : ∀ o ∈ ops, o.1 ≤ now) :
    TableInv now (ops.foldl spaceStep (BdSpace.new ownId : BdSpace mFns)) :=
  foldl_timed_inv (tableInv_new ownId) (fun hle h => tableInv_mono hle h)
    (fun h => spaceStep_inv h _) hclock hnow

/-- After any calls under a clock that does not go back, the table keeps its four invariants. -/
theorem space_invariant (ownId : BdNodeId) {ops : List (Int × SpaceOp)}
    (hclock : ops.Pairwise (fun a b => a.1 ≤ b.1)) :
    SpaceInv (ops.foldl spaceStep (BdSpace.new ownId : BdSpace bdStdDht)) := by
  rcases ops.eq_nil_or_concat' with rfl | ⟨before, o, rfl⟩
  · exact (tableInv_new ownId 0).space
  -- the last call is the latest
  · have hlast : ∀ x ∈ before ++ [o], x.1 ≤ o.1 := by
      intro x hx
      rcases List.mem_append.1 hx with hx | hx
      · exact (List.pairwise_append.1 hclock).2.2 x hx o (by simp)
      · rw [List.mem_singleton.1 hx]
    exact (tableInv_run bdStdDht ownId hclock hlast).space

/-- Twelve peers of one bucket and one of another; later the first is asked for, and one comes back. -/
def fillSpace : List (Int × SpaceOp) :=
  (List.range 12).map (fun k => (.ofNat k, .addPeer (bytePeer (128 + k)) 1)) ++
    [(13, .addPeer (bytePeer 1) 3), (700, .outOfDatePeer), (800, .addPeer (bytePeer 130) 1)]

theorem space_invariant_run :
    let s : BdSpace bdStdDht := fillSpace.foldl spaceStep (BdSpace.new (byteId 0))
    s.calcSpaceSize = 11 ∧ SpaceInv s :=
  ⟨by decide +kernel, space_invariant (byteId 0) (by decide)⟩

end BitDht
