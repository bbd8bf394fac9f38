import BitDht.Peer.Nearest

/-!
# Placement — where the peers of a table stand

Which peers a table keeps depends on the times of their packets, but not where they stand: under any clock
each bucket has its own peers only, none of them twice and no more than there is room for, and so no peer
stands twice in the whole table.  And a peer that is added stays until its bucket is full (`Listed`).
-/

namespace BitDht

open Container Outcome

variable {mFns : BdDhtFunctions}

/-! ## One bucket -/

/-- Where there is room for one more, there was room before or one had to go. -/
theorem makeRoom_length {ts : Int} {peerflags : UInt32} {entries rest : BdBucket}
    (h : makeRoom mFns ts peerflags entries = some rest) :
    rest = entries ∨ mFns.bdNodesPerBucket ≤ entries.length ∧ rest.length + 1 = entries.length := by
  unfold makeRoom at h
  split at h
  · cases h
    exact .inl rfl
  · rename_i hfull
    split at h
    · cases h
    · dsimp only at h
      split_ifs at h with hstale hflags hany
      · cases h
        exact .inr ⟨Nat.not_lt.1 hfull, rfl⟩
      · cases h
        rcases List.any_eq_true.1 hany with ⟨it, hit, hscore⟩
        refine .inr ⟨Nat.not_lt.1 hfull, ?_⟩
        rw [List.length_eraseP_of_mem hit hscore]
        exact Nat.sub_add_cancel (List.length_pos_of_mem hit)

/-- What adding a peer can do to a bucket. -/
inductive AddToBucket (mFns : BdDhtFunctions) (ts : Int) (id : BdId) (peerflags : UInt32)
    (entries entries' : BdBucket) : Prop
  /-- the peer is there, and goes to the back -/
  | found (peer : BdPeer) (hpeer : peer ∈ entries ∧ bdIdEq id peer.mPeerId = true)
      (hperm : (entries'.map BdPeer.mPeerId).Perm (entries.map BdPeer.mPeerId))
  | added (rest : BdBucket) (hnew : ∀ p ∈ entries, bdIdEq id p.mPeerId = false)
      (hroom : makeRoom mFns ts peerflags entries = some rest)
      (heq : entries' = rest ++ [newPeer ts id peerflags])
  | refused (hnew : ∀ p ∈ entries, bdIdEq id p.mPeerId = false)
      (hroom : makeRoom mFns ts peerflags entries = none) (heq : entries' = entries)

theorem addToBucket_cases (mFns : BdDhtFunctions) (ts : Int) (id : BdId) (peerflags : UInt32)
    (entries : BdBucket) :
    AddToBucket mFns ts id peerflags entries (addToBucket mFns ts id peerflags entries).1 := by
  rw [addToBucket]
  split
  · rename_i peer hfind
    rcases List.find?_eq_some_iff_append.1 hfind with ⟨heq, as, bs, rfl, hbefore⟩
    have has : ∀ x ∈ as, ¬ bdIdEq id x.mPeerId = true := by
      intro x hx
      simpa using hbefore x hx
    have hperm : ((as ++ peer :: bs).map BdPeer.mPeerId).Perm
        ((as ++ bs).map BdPeer.mPeerId ++ [peer.mPeerId]) := by
      rw [List.map_append, List.map_cons, List.map_append, List.append_assoc]
      exact (List.perm_append_singleton _ _).symm.append_left _
    have herase : (as ++ peer :: bs).eraseP (fun it => bdIdEq id it.mPeerId) = as ++ bs := by
      rw [List.eraseP_append_right _ has]
      simp [heq]
    refine .found peer ⟨List.mem_append_right _ List.mem_cons_self, heq⟩ ?_
    rw [herase, List.map_append]
    exact hperm.symm
  · rename_i hfind
    have hnew : ∀ p ∈ entries, bdIdEq id p.mPeerId = false :=
      fun p hp => Bool.eq_false_of_not_eq_true (List.find?_eq_none.1 hfind p hp)
    split
    · rename_i rest hroom
      exact .added rest hnew hroom rfl
    · rename_i hroom
      exact .refused hnew hroom rfl

/-- The ids of the peers in bucket `k` of a table of the peer `ownId`. -/
structure Tidy (mFns : BdDhtFunctions) (ownId : BdNodeId) (k : Nat) (ids : List BdId) : Prop where
  placed : ∀ id ∈ ids, bucketOf mFns ownId id.id = k
  full : ids.length ≤ mFns.bdNodesPerBucket
  distinct : ids.Pairwise (fun a b => bdIdEq a b = false)

namespace Tidy

variable {ownId : BdNodeId} {k : Nat} {ids ids' : List BdId}

theorem nil (mFns : BdDhtFunctions) (ownId : BdNodeId) (k : Nat) : Tidy mFns ownId k [] where
  placed := fun _ hid => absurd hid List.not_mem_nil
  full := Nat.zero_le _
  distinct := .nil

theorem perm (h : Tidy mFns ownId k ids) (hperm : ids.Perm ids') : Tidy mFns ownId k ids' where
  placed := fun id hid => h.placed id (hperm.mem_iff.2 hid)
  full := hperm.length_eq ▸ h.full
  distinct := by
    refine hperm.pairwise h.distinct ?_
    intro a b hab
    rwa [bdIdEq_comm]

/-- Some of the peers stay, and one that was not there comes in. -/
theorem snoc (h : Tidy mFns ownId k ids) (hsub : ids'.Sublist ids)
    (hlen : ids'.length < mFns.bdNodesPerBucket) {id : BdId} (hid : bucketOf mFns ownId id.id = k)
    (hnew : ∀ x ∈ ids, bdIdEq x id = false) : Tidy mFns ownId k (ids' ++ [id]) where
  placed := by
    intro x hx
    rcases List.mem_append.1 hx with hx | hx
    · exact h.placed x (hsub.subset hx)
    · rw [List.mem_singleton.1 hx]
      exact hid
  full := by
    rw [List.length_append, List.length_singleton]
    omega
  distinct := by
    refine List.pairwise_append.2 ⟨h.distinct.sublist hsub, List.pairwise_singleton _ _, ?_⟩
    intro a ha b hb
    rw [List.mem_singleton.1 hb]
    exact hnew a (hsub.subset ha)

/-- A peer that is there goes to the back, and another one comes in where there is room. -/
theorem addToBucket {entries : BdBucket} (h : Tidy mFns ownId k (entries.map BdPeer.mPeerId))
    {id : BdId} (hid : bucketOf mFns ownId id.id = k) (ts : Int) (peerflags : UInt32) :
    Tidy mFns ownId k ((addToBucket mFns ts id peerflags entries).1.map BdPeer.mPeerId) := by
  cases addToBucket_cases mFns ts id peerflags entries with
  | found _ _ hperm => exact h.perm hperm.symm
  | added rest hnew hroom heq =>
      have hfull : entries.length ≤ mFns.bdNodesPerBucket := by
        rw [← List.length_map (f := BdPeer.mPeerId)]
        exact h.full
      rcases makeRoom_some hfull hroom with ⟨hsub, hlen⟩
      rw [heq, List.map_append]
      refine h.snoc (hsub.map _) (by rwa [List.length_map]) hid ?_
      intro x hx
      rcases List.mem_map.1 hx with ⟨p, hp, rfl⟩
      rw [bdIdEq_comm]
      exact hnew p hp
  | refused _ _ heq =>
      rw [heq]
      exact h

end Tidy

/-- The bucket has the peer, or it is full. -/
def HasOrFull (mFns : BdDhtFunctions) (id : BdId) (ids : List BdId) : Prop :=
  (∃ x ∈ ids, bdIdEq id x = true) ∨ mFns.bdNodesPerBucket ≤ ids.length

theorem hasOrFull_addToBucket (mFns : BdDhtFunctions) (ts : Int) (id : BdId) (peerflags : UInt32)
    (entries : BdBucket) : HasOrFull mFns id
      ((addToBucket mFns ts id peerflags entries).1.map BdPeer.mPeerId) := by
  cases addToBucket_cases mFns ts id peerflags entries with
  | found peer hpeer hperm =>
      exact .inl ⟨peer.mPeerId, hperm.mem_iff.2 (List.mem_map_of_mem hpeer.1), hpeer.2⟩
  | added rest _ _ heq =>
      refine .inl ⟨id, ?_, bdIdEq_iff.2 ⟨rfl, rfl, rfl⟩⟩
      rw [heq, List.map_append]
      exact List.mem_append_right _ List.mem_cons_self
  | refused _ hroom heq =>
      right
      rw [heq, List.length_map]
      -- with room left the peer would have come in
      by_contra hlt
      unfold makeRoom at hroom
      rw [if_pos (Nat.not_le.1 hlt)] at hroom
      cases hroom

/-- Who is there stays when another peer is added, or that one takes the last place. -/
theorem HasOrFull.addToBucket {id : BdId} {entries : BdBucket}
    (h : HasOrFull mFns id (entries.map BdPeer.mPeerId)) (ts : Int) (other : BdId)
    (peerflags : UInt32) : HasOrFull mFns id
      ((addToBucket mFns ts other peerflags entries).1.map BdPeer.mPeerId) := by
  cases addToBucket_cases mFns ts other peerflags entries with
  | found _ _ hperm =>
      rw [HasOrFull, hperm.length_eq]
      exact h.imp (fun ⟨x, hx, heq⟩ => ⟨x, hperm.mem_iff.2 hx, heq⟩) (fun hfull => hfull)
  | added rest _ hroom heq =>
      rw [heq, HasOrFull, List.length_map, List.length_append, List.length_singleton]
      rcases makeRoom_length hroom with rfl | ⟨hfull, hlen⟩
      · rcases h with ⟨x, hx, hxid⟩ | hfull
        · rw [List.map_append]
          exact .inl ⟨x, List.mem_append_left _ hx, hxid⟩
        · rw [List.length_map] at hfull
          exact .inr (by omega)
      · exact .inr (by omega)
  | refused _ _ heq =>
      rw [heq]
      exact h

/-! ## The whole table -/

namespace BdSpace

variable {s : BdSpace mFns}

/-- Every bucket is tidy. -/
def Tidy (s : BdSpace mFns) : Prop :=
  ∀ k entries, s.buckets[k]? = some entries →
    BitDht.Tidy mFns s.mOwnId k (entries.map BdPeer.mPeerId)

theorem tidy_of_empty (h : ∀ entries ∈ s.buckets, entries = []) : s.Tidy := by
  intro k entries hk
  rw [h entries (List.mem_of_getElem? hk)]
  exact .nil mFns s.mOwnId k

theorem tidy_new (ownId : BdNodeId) : (BdSpace.new ownId : BdSpace mFns).Tidy :=
  tidy_of_empty (fun _ hentries => List.eq_of_mem_replicate hentries)

theorem tidy_clear (s : BdSpace mFns) : s.clear.Tidy := by
  apply tidy_of_empty
  intro entries hentries
  rcases List.mem_map.1 hentries with ⟨_, _, rfl⟩
  rfl

theorem getElem?_bucketOf (s : BdSpace mFns) (id : BdNodeId) :
    s.buckets[bucketOf mFns s.mOwnId id]? = some (s.buckets.getD (bucketOf mFns s.mOwnId id) []) := by
  have hlt : bucketOf mFns s.mOwnId id < s.buckets.length := by
    rw [s.size]
    exact mFns.bucket_lt _
  rw [List.getD_eq_getElem?_getD, List.getElem?_eq_getElem hlt, Option.getD_some]

/-- Only the bucket of the peer is written. -/
theorem buckets_addPeer (s : BdSpace mFns) (ts : Int) (id : BdId) (peerflags : UInt32) (k : Nat) :
    (s.addPeer ts id peerflags).1.buckets[k]? =
      if k = bucketOf mFns s.mOwnId id.id then
        some (addToBucket mFns ts id peerflags
          (s.buckets.getD (bucketOf mFns s.mOwnId id.id) [])).1
      else s.buckets[k]? := by
  have hlt : bucketOf mFns s.mOwnId id.id < s.buckets.length := by
    rw [s.size]
    exact mFns.bucket_lt _
  simp only [BdSpace.addPeer]
  split_ifs with hk
  · rw [hk, List.getElem?_set_self hlt]
  · rw [List.getElem?_set_ne (Ne.symm hk)]

/-- The ids in each bucket stay as they are. -/
theorem ids_outOfDatePeer (s : BdSpace mFns) (ts : Int) (k : Nat) :
    (s.outOfDatePeer ts).1.buckets[k]?.map (List.map BdPeer.mPeerId) =
      s.buckets[k]?.map (List.map BdPeer.mPeerId) := by
  rw [BdSpace.outOfDatePeer]
  split
  · rename_i id buckets hout
    have hall := outOfDateBucket_sendTimeOnly hout
    rcases Nat.lt_or_ge k buckets.length with hlt | hge
    · have hlt' : k < s.buckets.length := by rwa [hall.length_eq]
      have hsend : SendTimeOnly s.buckets[k] buckets[k] := hall.get hlt' hlt
      have hids : buckets[k].map BdPeer.mPeerId = s.buckets[k].map BdPeer.mPeerId :=
        hsend.map_eq (fun _ _ => rfl)
      rw [List.getElem?_eq_getElem hlt, List.getElem?_eq_getElem hlt', Option.map_some,
        Option.map_some, hids]
    · rw [List.getElem?_eq_none hge, List.getElem?_eq_none (hall.length_eq ▸ hge)]
  · rfl

theorem Tidy.addPeer (h : s.Tidy) (ts : Int) (id : BdId) (peerflags : UInt32) :
    (s.addPeer ts id peerflags).1.Tidy := by
  intro k entries hk
  rw [s.buckets_addPeer] at hk
  split_ifs at hk with hkb
  · cases hk
    subst hkb
    exact (h _ _ (s.getElem?_bucketOf id.id)).addToBucket rfl ts peerflags
  · exact h k entries hk

theorem mOwnId_outOfDatePeer (s : BdSpace mFns) (ts : Int) :
    (s.outOfDatePeer ts).1.mOwnId = s.mOwnId := by
  rw [BdSpace.outOfDatePeer]
  split
  · rfl
  · rfl

theorem Tidy.outOfDatePeer (h : s.Tidy) (ts : Int) : (s.outOfDatePeer ts).1.Tidy := by
  intro k entries hk
  have hids := s.ids_outOfDatePeer ts k
  rw [hk, Option.map_some] at hids
  rcases hk' : s.buckets[k]? with _ | entries'
  · rw [hk'] at hids
    cases hids
  · rw [hk', Option.map_some, Option.some.injEq] at hids
    rw [hids, s.mOwnId_outOfDatePeer]
    exact h k entries' hk'

/-- The table has the peer, or the bucket for it is full. -/
def Listed (s : BdSpace mFns) (id : BdId) : Prop :=
  HasOrFull mFns id ((s.buckets.getD (bucketOf mFns s.mOwnId id.id) []).map BdPeer.mPeerId)

theorem listed_iff {id : BdId} : s.Listed id ↔
    ∀ entries, s.buckets[bucketOf mFns s.mOwnId id.id]? = some entries →
      HasOrFull mFns id (entries.map BdPeer.mPeerId) := by
  rw [Listed, s.getElem?_bucketOf]
  simp

theorem listed_addPeer (s : BdSpace mFns) (ts : Int) (id : BdId) (peerflags : UInt32) :
    (s.addPeer ts id peerflags).1.Listed id := by
  refine listed_iff.2 (fun entries hk => ?_)
  have hown : (s.addPeer ts id peerflags).1.mOwnId = s.mOwnId := rfl
  rw [hown, s.buckets_addPeer, if_pos rfl, Option.some.injEq] at hk
  rw [← hk]
  exact hasOrFull_addToBucket mFns ts id peerflags _

theorem Listed.addPeer {id : BdId} (h : s.Listed id) (ts : Int) (other : BdId)
    (peerflags : UInt32) : (s.addPeer ts other peerflags).1.Listed id := by
  refine listed_iff.2 (fun entries hk => ?_)
  rw [s.buckets_addPeer] at hk
  split_ifs at hk with hkb
  · cases hk
    rw [← show bucketOf mFns s.mOwnId id.id = bucketOf mFns s.mOwnId other.id from hkb]
    exact HasOrFull.addToBucket h ts other peerflags
  · exact listed_iff.1 h entries hk

theorem Listed.outOfDatePeer {id : BdId} (h : s.Listed id) (ts : Int) :
    (s.outOfDatePeer ts).1.Listed id := by
  refine listed_iff.2 (fun entries hk => ?_)
  rw [s.mOwnId_outOfDatePeer] at hk
  have hids := s.ids_outOfDatePeer ts (bucketOf mFns s.mOwnId id.id)
  rw [hk, s.getElem?_bucketOf, Option.map_some, Option.map_some, Option.some.injEq] at hids
  rw [hids]
  exact h

/-- No peer stands twice in the whole table, as each has its one bucket. -/
theorem Tidy.distinct (h : s.Tidy) : s.stored.Pairwise (fun a b => bdIdEq a b = false) := by
  rw [stored, List.pairwise_map]
  refine List.pairwise_flatten.2 ⟨?_, List.pairwise_iff_getElem.2 ?_⟩
  · intro entries hmem
    rcases List.mem_iff_getElem?.1 hmem with ⟨k, hk⟩
    exact List.pairwise_map.1 (h k entries hk).distinct
  · intro i j hi hj hij p hp q hq
    have hpi := (h i _ (List.getElem?_eq_getElem hi)).placed _ (List.mem_map_of_mem hp)
    have hqj := (h j _ (List.getElem?_eq_getElem hj)).placed _ (List.mem_map_of_mem hq)
    by_contra heq
    rw [Bool.not_eq_false] at heq
    rw [(bdIdEq_iff.1 heq).1, hqj] at hpi
    omega

theorem Tidy.nodup (h : s.Tidy) : s.stored.Nodup := by
  refine h.distinct.imp ?_
  rintro a _ hne rfl
  rw [bdIdEq_iff.2 ⟨rfl, rfl, rfl⟩] at hne
  cases hne

/-- There are no more peers in the table than there are to choose from. -/
theorem Tidy.calcSpaceSize_le (h : s.Tidy) {ι : Type} [Fintype ι] (f : ι → BdId)
    (hmem : ∀ id ∈ s.stored, ∃ i, f i = id) : s.calcSpaceSize ≤ Fintype.card ι := by
  classical
  rw [← length_stored]
  calc
    s.stored.length ≤ (Finset.univ.image f).toList.length := by
      refine h.nodup.length_le_of_subset (fun id hid => ?_)
      simpa using hmem id hid
    _ = (Finset.univ.image f).card := Finset.length_toList _
    _ ≤ Fintype.card ι := Finset.card_image_le

end BdSpace

end BitDht
