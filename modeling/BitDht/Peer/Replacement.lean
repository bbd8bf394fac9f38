import BitDht.Peer.Space

/-!
# Replacement — which peer makes room in a bucket

`Replaced` is the rule by which a bucket takes up a peer.  `add_peer` subtracts the two times of its
test for a stale peer the wrong way round, so in a table that was built under a clock the peer at the
front is never found stale, and the rule is kept as long as that makes no difference
(`followsPolicy_iff`).
-/

namespace BitDht

open Outcome

variable {mFns : BdDhtFunctions}

/-! ## The rule -/

/-- The last packet of the peer came more than `BITDHT_MAX_RECV_PERIOD` seconds ago. -/
def Stale (ts : Int) (peer : BdPeer) : Prop :=
  ts - peer.mLastRecvTime > bitdhtMaxRecvPeriod

def Absent (id : BdId) (entries : BdBucket) : Prop :=
  ∀ p ∈ entries, bdIdEq id p.mPeerId = false

/-- What becomes of the bucket `entries` when the peer `id` is added with the flags `peerflags` at
`ts`: the entries afterwards and the returned flag. -/
inductive Replaced (mFns : BdDhtFunctions) (ts : Int) (id : BdId) (peerflags : UInt32)
    (entries : BdBucket) : BdBucket → Bool → Prop
  | moved (front back : BdBucket) (peer : BdPeer) (hentries : entries = front ++ peer :: back)
      (hid : bdIdEq id peer.mPeerId = true) :
      Replaced mFns ts id peerflags entries
        (front ++ back ++
          [{ peer with mLastRecvTime := ts, mPeerFlags := peer.mPeerFlags ||| peerflags }]) true
  | appended (habsent : Absent id entries) (hroom : entries.length < mFns.bdNodesPerBucket) :
      Replaced mFns ts id peerflags entries (entries ++ [newPeer ts id peerflags]) true
  | stale (head : BdPeer) (rest : BdBucket) (hentries : entries = head :: rest)
      (habsent : Absent id entries) (hfull : mFns.bdNodesPerBucket ≤ entries.length)
      (hstale : Stale ts head) :
      Replaced mFns ts id peerflags entries (rest ++ [newPeer ts id peerflags]) true
  | outranked (front back : BdBucket) (peer : BdPeer) (hentries : entries = front ++ peer :: back)
      (habsent : Absent id entries) (hfull : mFns.bdNodesPerBucket ≤ entries.length)
      (hfresh : ∀ head ∈ entries.head?, ¬ Stale ts head)
      (hfront : ∀ p ∈ front, peer.mPeerFlags < p.mPeerFlags)
      (hback : ∀ p ∈ back, peer.mPeerFlags ≤ p.mPeerFlags)
      (hexceeds : peer.mPeerFlags < peerflags) :
      Replaced mFns ts id peerflags entries (front ++ back ++ [newPeer ts id peerflags]) true
  | kept (habsent : Absent id entries) (hfull : mFns.bdNodesPerBucket ≤ entries.length)
      (hfresh : ∀ head ∈ entries.head?, ¬ Stale ts head)
      (hleast : ∀ p ∈ entries, peerflags ≤ p.mPeerFlags) :
      Replaced mFns ts id peerflags entries entries false

/-- `add_peer` follows the rule in the bucket of the peer and leaves the other ones alone. -/
def FollowsPolicy (s : BdSpace mFns) (ts : Int) (id : BdId) (peerflags : UInt32) : Prop :=
  ∃ entries', Replaced mFns ts id peerflags
      (s.buckets.getD (bucketOf mFns s.mOwnId id.id) []) entries' (s.addPeer ts id peerflags).2 ∧
    (s.addPeer ts id peerflags).1.buckets =
      s.buckets.set (bucketOf mFns s.mOwnId id.id) entries'

/-- If the bucket is full of other peers, the one at the front is not stale, or it is the one that
has to go for its flags as well. -/
def FrontSettled (mFns : BdDhtFunctions) (ts : Int) (id : BdId) (peerflags : UInt32)
    (entries : BdBucket) : Prop :=
  Absent id entries → mFns.bdNodesPerBucket ≤ entries.length →
    ∀ head rest, entries = head :: rest → Stale ts head →
      head.mPeerFlags < peerflags ∧ ∀ p ∈ rest, head.mPeerFlags ≤ p.mPeerFlags

/-! ## What the code does -/

theorem minScore_cons (peerflags : UInt32) (it : BdPeer) (entries : BdBucket) :
    minScore peerflags (it :: entries) =
      minScore (if it.mPeerFlags < peerflags then it.mPeerFlags else peerflags) entries := rfl

/-- The least of the flags of the entries and the new ones. -/
theorem minScore_spec (peerflags : UInt32) (entries : BdBucket) :
    minScore peerflags entries ≤ peerflags ∧
      (∀ p ∈ entries, minScore peerflags entries ≤ p.mPeerFlags) ∧
      (minScore peerflags entries = peerflags ∨
        ∃ p ∈ entries, p.mPeerFlags = minScore peerflags entries) := by
  induction entries generalizing peerflags with
  | nil =>
      exact ⟨UInt32.le_refl _, by simp, .inl rfl⟩
  | cons it entries ih =>
      rw [minScore_cons]
      by_cases hlt : it.mPeerFlags < peerflags
      · rw [if_pos hlt]
        rcases ih it.mPeerFlags with ⟨hle, hall, hmem⟩
        refine ⟨UInt32.le_trans hle (UInt32.le_of_lt hlt), ?_, .inr ?_⟩
        · intro p hp
          rcases List.mem_cons.1 hp with rfl | hp
          · exact hle
          · exact hall p hp
        · rcases hmem with heq | ⟨p, hp, heq⟩
          · exact ⟨it, List.mem_cons_self .., heq.symm⟩
          · exact ⟨p, List.mem_cons_of_mem it hp, heq⟩
      · rw [if_neg hlt]
        rcases ih peerflags with ⟨hle, hall, hmem⟩
        refine ⟨hle, ?_, ?_⟩
        · intro p hp
          rcases List.mem_cons.1 hp with rfl | hp
          · exact UInt32.le_trans hle (UInt32.not_lt.1 hlt)
          · exact hall p hp
        · rcases hmem with heq | ⟨p, hp, heq⟩
          · exact .inl heq
          · exact .inr ⟨p, List.mem_cons_of_mem it hp, heq⟩

/-- A full bucket makes room for flags above its least ones: the first entry with these goes. -/
inductive RoomByFlags (peerflags : UInt32) (entries : BdBucket) : Option BdBucket → Prop
  | dropped (front back : BdBucket) (peer : BdPeer) (hentries : entries = front ++ peer :: back)
      (hfront : ∀ p ∈ front, peer.mPeerFlags < p.mPeerFlags)
      (hback : ∀ p ∈ back, peer.mPeerFlags ≤ p.mPeerFlags)
      (hexceeds : peer.mPeerFlags < peerflags) :
      RoomByFlags peerflags entries (some (front ++ back))
  | none (hleast : ∀ p ∈ entries, peerflags ≤ p.mPeerFlags) : RoomByFlags peerflags entries none

theorem roomByFlags_eraseP {peerflags : UInt32} {entries : BdBucket}
    (h : minScore peerflags entries < peerflags) :
    entries.any (fun it => it.mPeerFlags == minScore peerflags entries) = true ∧
      RoomByFlags peerflags entries
        (some (entries.eraseP (fun it => it.mPeerFlags == minScore peerflags entries))) := by
  rcases minScore_spec peerflags entries with ⟨_, hall, hmem⟩
  have hany : ∃ p ∈ entries, p.mPeerFlags = minScore peerflags entries :=
    hmem.resolve_left (fun heq => UInt32.lt_irrefl _ (heq ▸ h))
  rcases hany with ⟨p, hp, hscore⟩
  refine ⟨List.any_eq_true.2 ⟨p, hp, beq_iff_eq.2 hscore⟩, ?_⟩
  rcases List.exists_of_eraseP hp (p := fun it => it.mPeerFlags == minScore peerflags entries)
    (beq_iff_eq.2 hscore) with ⟨peer, front, back, hfront, hpeer, hentries, herase⟩
  have hflags : peer.mPeerFlags = minScore peerflags entries := beq_iff_eq.1 hpeer
  rw [herase]
  refine .dropped front back peer hentries ?_ ?_ (hflags ▸ h)
  · intro q hq
    have hne : q.mPeerFlags ≠ minScore peerflags entries := by
      intro heq
      exact hfront q hq (beq_iff_eq.2 heq)
    have hle := hall q (by rw [hentries]; exact List.mem_append_left _ hq)
    rw [hflags]
    exact UInt32.lt_of_le_of_ne hle hne.symm
  · intro q hq
    rw [hflags]
    exact hall q (by rw [hentries]; exact List.mem_append_right _ (List.mem_cons_of_mem _ hq))

/-- No entry of a table that was built under a clock was last heard of in the future, so only the
flags make room in a full bucket. -/
theorem makeRoom_full {ts : Int} (peerflags : UInt32) {entries : BdBucket}
    (hfull : mFns.bdNodesPerBucket ≤ entries.length)
    (hrecent : ∀ p ∈ entries, p.mLastRecvTime ≤ ts) :
    RoomByFlags peerflags entries (makeRoom mFns ts peerflags entries) := by
  unfold makeRoom
  rw [if_neg (Nat.not_lt.2 hfull)]
  cases entries with
  | nil =>
      exact .none (by simp)
  | cons head rest =>
      have hhead : ¬ head.mLastRecvTime - ts > bitdhtMaxRecvPeriod := by
        have hle := hrecent head (List.mem_cons_self ..)
        rw [bitdhtMaxRecvPeriod]
        omega
      simp only [if_neg hhead]
      split_ifs with hexceeds hany
      · exact (roomByFlags_eraseP hexceeds).2
      · exact absurd (roomByFlags_eraseP hexceeds).1 hany
      · refine .none ?_
        intro p hp
        exact UInt32.le_trans (UInt32.not_lt.1 hexceeds) ((minScore_spec peerflags _).2.1 p hp)

/-- A present peer moves to the back. -/
theorem addToBucket_moved {ts : Int} {id : BdId} {peerflags : UInt32} {entries : BdBucket}
    (h : ¬ Absent id entries) :
    Replaced mFns ts id peerflags entries (addToBucket mFns ts id peerflags entries).1
      (addToBucket mFns ts id peerflags entries).2 := by
  have hfind : (entries.find? (fun it => bdIdEq id it.mPeerId)).isSome = true := by
    rw [Absent] at h
    push Not at h
    rcases h with ⟨p, hp, hid⟩
    exact List.find?_isSome.2 ⟨p, hp, by simpa using hid⟩
  rcases Option.isSome_iff_exists.1 hfind with ⟨peer, hpeer⟩
  rcases List.find?_eq_some_iff_append.1 hpeer with ⟨hid, front, back, hentries, hfront⟩
  have herase : entries.eraseP (fun it => bdIdEq id it.mPeerId) = front ++ back := by
    have hnot : ∀ p ∈ front, ¬ bdIdEq id p.mPeerId = true := by
      intro p hp
      simpa using hfront p hp
    rw [hentries, List.eraseP_append_right _ hnot]
    simp [hid]
  rw [addToBucket, hpeer, herase]
  exact .moved front back peer hentries hid

theorem addToBucket_absent {ts : Int} {id : BdId} {peerflags : UInt32} {entries : BdBucket}
    (h : Absent id entries) :
    addToBucket mFns ts id peerflags entries =
      match makeRoom mFns ts peerflags entries with
      | some rest => (rest ++ [newPeer ts id peerflags], true)
      | none => (entries, false) := by
  have hfind : entries.find? (fun it => bdIdEq id it.mPeerId) = none := by
    refine List.find?_eq_none.2 ?_
    intro p hp
    simpa using h p hp
  cases hroom : makeRoom mFns ts peerflags entries with
  | none =>
      simp only [addToBucket, hfind, hroom]
  | some rest =>
      simp only [addToBucket, hfind, hroom]

/-! ## Where the rule is kept -/

section bucket

variable {ownId : BdNodeId} {ts : Int} {k : Nat} {entries : BdBucket} {id : BdId}
  {peerflags : UInt32}

theorem replaced_of_frontSettled (hrecent : ∀ p ∈ entries, p.mLastRecvTime ≤ ts)
    (h : FrontSettled mFns ts id peerflags entries) :
    Replaced mFns ts id peerflags entries (addToBucket mFns ts id peerflags entries).1
      (addToBucket mFns ts id peerflags entries).2 := by
  by_cases habsent : Absent id entries
  · rw [addToBucket_absent habsent]
    by_cases hroom : entries.length < mFns.bdNodesPerBucket
    · have hall : makeRoom mFns ts peerflags entries = some entries := if_pos hroom
      rw [hall]
      exact .appended habsent hroom
    · have hfull := Nat.not_lt.1 hroom
      have hflags := makeRoom_full peerflags hfull hrecent
      generalize makeRoom mFns ts peerflags entries = room at hflags
      by_cases hstale : ∃ head rest, entries = head :: rest ∧ Stale ts head
      · -- the stale peer at the front is the first one with the least flags
        rcases hstale with ⟨head, rest, rfl, hstale⟩
        rcases h habsent hfull head rest rfl hstale with ⟨hexceeds, hrest⟩
        cases hflags with
        | none hleast =>
            exact absurd hexceeds (UInt32.not_lt.2 (hleast head (List.mem_cons_self ..)))
        | dropped front back peer hentries hfront _ _ =>
            cases front with
            | nil =>
                rw [List.nil_append, List.cons.injEq] at hentries
                rw [List.nil_append, ← hentries.2]
                exact .stale head rest rfl habsent hfull hstale
            | cons p front =>
                rw [List.cons_append, List.cons.injEq] at hentries
                have hless := hfront p (List.mem_cons_self ..)
                rw [← hentries.1] at hless
                have hle := hrest peer (by rw [hentries.2]; simp)
                exact absurd hless (UInt32.not_lt.2 hle)
      · have hfresh : ∀ head ∈ entries.head?, ¬ Stale ts head := by
          intro head hhead hold
          rcases List.head?_eq_some_iff.1 hhead with ⟨rest, hentries⟩
          exact hstale ⟨head, rest, hentries, hold⟩
        cases hflags with
        | dropped front back peer hentries hfront hback hexceeds =>
            exact .outranked front back peer hentries habsent hfull hfresh hfront hback hexceeds
        | none hleast =>
            exact .kept habsent hfull hfresh hleast
  · exact addToBucket_moved habsent

/-- A stale peer at the front stays where its flags do not make it go. -/
theorem frontSettled_of_replaced (h : BucketInv mFns ownId ts k entries)
    (hreplaced : Replaced mFns ts id peerflags entries
      (addToBucket mFns ts id peerflags entries).1 (addToBucket mFns ts id peerflags entries).2) :
    FrontSettled mFns ts id peerflags entries := by
  intro habsent hfull head rest hentries hstale
  have hflags := makeRoom_full peerflags hfull h.recent
  rw [addToBucket_absent habsent] at hreplaced
  -- the rule asks for the peer at the front to go
  have hrule : ∀ {entries' flag}, Replaced mFns ts id peerflags entries entries' flag →
      entries' = rest ++ [newPeer ts id peerflags] ∧ flag = true := by
    intro entries' flag hrule
    have hnotFresh : ¬ ∀ head ∈ entries.head?, ¬ Stale ts head := by
      intro hfresh
      exact hfresh head (by rw [hentries]; rfl) hstale
    cases hrule with
    | moved front back peer hsplit hid =>
        have hmem : peer ∈ entries := by simp [hsplit]
        rw [habsent peer hmem] at hid
        cases hid
    | appended _ hroom =>
        exact absurd hroom (Nat.not_lt.2 hfull)
    | stale head' rest' hsplit =>
        rw [hentries, List.cons.injEq] at hsplit
        rw [hsplit.2]
        exact ⟨rfl, rfl⟩
    | outranked _ _ _ _ _ _ hfresh =>
        exact absurd hfresh hnotFresh
    | kept _ _ hfresh =>
        exact absurd hfresh hnotFresh
  cases hroom : makeRoom mFns ts peerflags entries with
  | none =>
      rw [hroom] at hreplaced
      cases (hrule hreplaced).2
  | some room =>
      rw [hroom] at hreplaced hflags
      have hrest : room = rest := List.append_cancel_right (hrule hreplaced).1
      cases hflags with
      | dropped front back peer hsplit hfront hback hexceeds =>
          cases front with
          | nil =>
              rw [hentries, List.nil_append, List.cons.injEq] at hsplit
              rw [hsplit.1, hsplit.2]
              exact ⟨hexceeds, hback⟩
          | cons p front =>
              -- the peer at the front would stand in the bucket twice
              rw [hentries, List.cons_append, List.cons.injEq] at hsplit
              have hmem : head ∈ rest := by
                rw [← hrest, hsplit.1]
                exact List.mem_cons_self ..
              have hdistinct := h.distinct
              rw [hentries] at hdistinct
              have hne := (List.pairwise_cons.1 hdistinct).1 head hmem
              rw [bdIdEq_iff.2 ⟨rfl, rfl, rfl⟩] at hne
              cases hne

end bucket

/-- In a table that was built under a clock the rule is kept exactly where the peer at the front is
settled. -/
theorem followsPolicy_iff {s : BdSpace mFns} {ts : Int} (h : TableInv ts s) (id : BdId)
    (peerflags : UInt32) :
    FollowsPolicy s ts id peerflags ↔
      FrontSettled mFns ts id peerflags (s.buckets.getD (bucketOf mFns s.mOwnId id.id) []) := by
  have hlt : bucketOf mFns s.mOwnId id.id < s.buckets.length := by
    rw [s.size]
    exact mFns.bucket_lt _
  have hinv : BucketInv mFns s.mOwnId ts (bucketOf mFns s.mOwnId id.id)
      (s.buckets.getD (bucketOf mFns s.mOwnId id.id) []) := by
    refine h _ _ ?_
    rw [List.getD_eq_getElem?_getD, List.getElem?_eq_getElem hlt, Option.getD_some]
  constructor
  · rintro ⟨entries', hreplaced, hbuckets⟩
    have hentries : (addToBucket mFns ts id peerflags
        (s.buckets.getD (bucketOf mFns s.mOwnId id.id) [])).1 = entries' := by
      have hget := congrArg (fun l => l[bucketOf mFns s.mOwnId id.id]?) hbuckets
      simpa [BdSpace.addPeer, hlt] using hget
    rw [← hentries] at hreplaced
    exact frontSettled_of_replaced hinv hreplaced
  · intro hsettled
    exact ⟨_, replaced_of_frontSettled hinv.recent hsettled, rfl⟩

/-- Whatever was called before under a clock that does not go back, `add_peer` follows the rule
exactly where the bucket is not full of other peers with a stale one at the front, or that one has to
go for its flags as well. -/
theorem addPeer_followsPolicy_iff (ownId : BdNodeId) {ops : List (Int × SpaceOp)}
    (hclock : ops.Pairwise (fun a b => a.1 ≤ b.1)) {ts : Int} (hts : ∀ o ∈ ops, o.1 ≤ ts)
    (id : BdId) (peerflags : UInt32) :
    let s := ops.foldl spaceStep (BdSpace.new ownId : BdSpace mFns)
    FollowsPolicy s ts id peerflags ↔
      FrontSettled mFns ts id peerflags (s.buckets.getD (bucketOf mFns s.mOwnId id.id) []) :=
  followsPolicy_iff (tableInv_run mFns ownId hclock hts) id peerflags

/-- The peer of the address `k` in the bucket of the ids that begin with a one. -/
def farPeer (k : Nat) : BdId where
  addr := ⟨afInet, UInt32.ofNat k, 1⟩
  id := ⟨128 :: List.replicate 19 0, rfl⟩

/-- Ten peers are added at once. -/
def fillBucket : List (Int × SpaceOp) :=
  (List.range 10).map (fun k => (0, .addPeer (farPeer k) 0))

/-- An eleventh peer after the ten. -/
theorem addPeer_followsPolicy_iff_filled :
    let s := fillBucket.foldl spaceStep (BdSpace.new ⟨List.replicate 20 0, rfl⟩ : BdSpace bdStdDht)
    FollowsPolicy s 5 (farPeer 10) 1 ↔ FrontSettled bdStdDht 5 (farPeer 10) 1
      (s.buckets.getD (bucketOf bdStdDht s.mOwnId (farPeer 10).id) []) :=
  addPeer_followsPolicy_iff ⟨List.replicate 20 0, rfl⟩ (by decide) (by decide) (farPeer 10) 1

/-- Ten peers that were last heard of at 0 are all kept at 1501. -/
theorem not_followsPolicy_stale :
    ¬ FollowsPolicy
      (fillBucket.foldl spaceStep (BdSpace.new ⟨List.replicate 20 0, rfl⟩ : BdSpace bdStdDht))
      1501 (farPeer 10) 0 := by
  have hinv : TableInv 1501 (fillBucket.foldl spaceStep
      (BdSpace.new ⟨List.replicate 20 0, rfl⟩ : BdSpace bdStdDht)) :=
    tableInv_run bdStdDht ⟨List.replicate 20 0, rfl⟩ (by decide) (by decide)
  have hbucket : (fillBucket.foldl spaceStep
      (BdSpace.new ⟨List.replicate 20 0, rfl⟩ : BdSpace bdStdDht)).buckets.getD
        (bucketOf bdStdDht ⟨List.replicate 20 0, rfl⟩ (farPeer 10).id) [] =
      (List.range 10).map (fun k => newPeer 0 (farPeer k) 0) := by
    decide +kernel
  have hown : (fillBucket.foldl spaceStep
      (BdSpace.new ⟨List.replicate 20 0, rfl⟩ : BdSpace bdStdDht)).mOwnId =
        ⟨List.replicate 20 0, rfl⟩ := by
    decide +kernel
  rw [followsPolicy_iff hinv, hown, hbucket]
  intro hsettled
  have habsent : Absent (farPeer 10) ((List.range 10).map (fun k => newPeer 0 (farPeer k) 0)) := by
    unfold Absent
    decide
  have hstale : Stale 1501 (newPeer 0 (farPeer 0) 0) := by
    unfold Stale
    decide
  have hless := hsettled habsent (by decide) (newPeer 0 (farPeer 0) 0) _ rfl hstale
  exact absurd hless.1 (by decide)

end BitDht
