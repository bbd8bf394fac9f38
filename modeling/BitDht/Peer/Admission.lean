import BitDht.Peer.Anchored

/-!
# Admission — whom a query lets in

`addPeer_admission` says when `addPeer` turns a new peer away, and what it leaves of `mClosest` when
it does not; `addPotentialPeer_zero_iff` says when `addPotentialPeer` finds that a peer need not be
tried.
-/

namespace BitDht

open Container

variable {mFns : BdDhtFunctions}

/-- The entry is strictly closer to the target of the query than the peer `p`. -/
def CloserThan (mFns : BdDhtFunctions) (q : BdQuery) (p : BdId) (e : BdMetric × BdPeer) : Prop :=
  mFns.bdDistance q.mId e.2.mPeerId.id < mFns.bdDistance q.mId p.id

instance (q : BdQuery) (p : BdId) (e : BdMetric × BdPeer) : Decidable (CloserThan mFns q p e) :=
  inferInstanceAs (Decidable (_ < _))

/-- In a list that is keyed by the distance an equal peer stands at its distance. -/
theorem listed_iff_of_keyed {target : BdNodeId} {m : Multimap BdMetric BdPeer}
    (h : ∀ e ∈ m.entries, e.1 = mFns.bdDistance target e.2.mPeerId.id) {p : BdId} :
    Listed m (mFns.bdDistance target p.id) p ↔
      ∃ e ∈ m.entries, bdIdEq e.2.mPeerId p = true := by
  constructor
  · rintro ⟨e, he, -, heq⟩
    exact ⟨e, he, heq⟩
  · rintro ⟨e, he, heq⟩
    exact ⟨e, he, by rw [h e he, (bdIdEq_iff.1 heq).1], heq⟩

/-! ## `addPotentialPeer` -/

/-- `mPotentialClosest` is in order whatever list the query began with. -/
theorem run_potential {q : BdQuery} (h : MapInv mFns q.mId q.mPotentialClosest)
    (ops : List (Int × QueryOp)) :
    MapInv mFns (ops.foldl (queryStep mFns) q).mId
      (ops.foldl (queryStep mFns) q).mPotentialClosest := by
  induction ops generalizing q with
  | nil =>
      exact h
  | cons op ops ih =>
      have hsame : SameSearch q (queryStep mFns q op) := queryStep_sameSearch q op
      apply ih
      rw [hsame.mId]
      exact h.potentialStep (queryStep_potential q op)

/-- All entries stand below a distance just when the entries below it are as many. -/
theorem length_below_eq_size {q : BdQuery} (h : Anchored mFns q) (p : BdId) :
    (q.mClosest.below (mFns.bdDistance q.mId p.id)).length = q.mClosest.size ↔
      ∀ e ∈ q.mClosest.entries, CloserThan mFns q p e := by
  rw [Multimap.below, Multimap.size, List.length_filter_eq_length_iff]
  apply forall₂_congr
  intro e he
  rw [decide_eq_true_iff, h.keyed e he]
  rfl

/-- A list that is full below the distance of a peer does not hold the peer. -/
theorem MapInv.not_listed {target : BdNodeId} {m : Multimap BdMetric BdPeer}
    (h : MapInv mFns target m) {p : BdId}
    (hfull : mFns.bdNodesPerBucket ≤ (m.below (mFns.bdDistance target p.id)).length) :
    ¬ Listed m (mFns.bdDistance target p.id) p := by
  rintro ⟨e, he, hkey, -⟩
  have hall : (m.below (mFns.bdDistance target p.id)).length = m.entries.length :=
    le_antisymm (List.length_filter_le _ _) (h.full.trans hfull)
  rw [Multimap.below, List.length_filter_eq_length_iff] at hall
  have hlt := of_decide_eq_true (hall e he)
  rw [hkey] at hlt
  exact lt_irrefl _ hlt

/-- `addPotentialPeer` looks at a distance count before it looks for the peer, but a peer that is
there is not beyond that count. -/
theorem addPotentialPeer_zero {q : BdQuery} (hq : Anchored mFns q)
    (hpotential : MapInv mFns q.mId q.mPotentialClosest) (ts : Int) (p : BdId) :
    ((q.addPotentialPeer mFns ts p 0).2 = 0 ↔
      (∃ e ∈ q.mClosest.entries, bdIdEq e.2.mPeerId p = true) ∨
      (mFns.bdNodesPerBucket ≤ q.mClosest.size ∧
        ∀ e ∈ q.mClosest.entries, CloserThan mFns q p e) ∨
      ∃ e ∈ q.mPotentialClosest.entries, bdIdEq e.2.mPeerId p = true) ∧
    (q.addPotentialPeer mFns ts p 0).1.mClosest = q.mClosest := by
  rw [← listed_iff_of_keyed hq.keyed, ← listed_iff_of_keyed hpotential.keyed,
    ← length_below_eq_size hq]
  by_cases hpass : Listed q.mClosest (mFns.bdDistance q.mId p.id) p ∨
      (q.mClosest.below (mFns.bdDistance q.mId p.id)).length = q.mClosest.size ∧
        mFns.bdNodesPerBucket ≤ q.mClosest.size
  · rw [BdQuery.addPotentialPeer, if_pos (passedOver_iff.2 hpass)]
    refine ⟨iff_of_true rfl ?_, rfl⟩
    rcases hpass with hknown | hfar
    · exact .inl hknown
    · exact .inr (.inl hfar.symm)
  -- neither in `mClosest` nor too far away
  have hnot := not_or.1 hpass
  by_cases hfull : mFns.bdNodesPerBucket ≤
      (q.mPotentialClosest.below (mFns.bdDistance q.mId p.id)).length
  · rw [BdQuery.addPotentialPeer, if_neg (fun h => hpass (passedOver_iff.1 h)),
      if_pos (by omega)]
    refine ⟨iff_of_false Nat.one_ne_zero ?_, rfl⟩
    rintro (hknown | hfar | hlisted)
    · exact hnot.1 hknown
    · exact hnot.2 hfar.symm
    · exact hpotential.not_listed hfull hlisted
  by_cases hlisted : Listed q.mPotentialClosest (mFns.bdDistance q.mId p.id) p
  · rw [BdQuery.addPotentialPeer, if_neg (fun h => hpass (passedOver_iff.1 h)),
      if_neg (by omega), if_pos (listed_iff.2 hlisted)]
    exact ⟨iff_of_true rfl (.inr (.inr hlisted)), rfl⟩
  · rw [BdQuery.addPotentialPeer, if_neg (fun h => hpass (passedOver_iff.1 h)),
      if_neg (by omega), if_neg (fun h => hlisted (listed_iff.1 h))]
    refine ⟨iff_of_false Nat.one_ne_zero ?_, rfl⟩
    rintro (hknown | hfar | hthere)
    · exact hnot.1 hknown
    · exact hnot.2 hfar.symm
    · exact hlisted hthere

/-- In every state of a query `addPotentialPeer` returns 0 just for the peers that are in one of the
lists, and for those that are too far away for a full `mClosest`. -/
theorem addPotentialPeer_zero_iff (now : Int) (id : BdNodeId) (startList : List BdId)
    (queryFlags : UInt32) (ops : List (Int × QueryOp)) (ts : Int) (p : BdId) :
    let q := ops.foldl (queryStep mFns) (BdQuery.new mFns now id startList queryFlags)
    ((q.addPotentialPeer mFns ts p 0).2 = 0 ↔
      (∃ e ∈ q.mClosest.entries, bdIdEq e.2.mPeerId p = true) ∨
      (mFns.bdNodesPerBucket ≤ q.mClosest.size ∧
        ∀ e ∈ q.mClosest.entries, CloserThan mFns q p e) ∨
      ∃ e ∈ q.mPotentialClosest.entries, bdIdEq e.2.mPeerId p = true) ∧
    (q.addPotentialPeer mFns ts p 0).1.mClosest = q.mClosest :=
  addPotentialPeer_zero (run_anchored (anchored_new now id startList queryFlags) ops)
    (run_potential (MapInv.empty mFns id) ops) ts p

/-! ## `addPeer` -/

theorem dropUnresponsive_cons {ts : Int} {e : BdMetric × BdPeer} (h : unresponsive ts e.2 = false)
    (toDrop : Nat) (l : List (BdMetric × BdPeer)) :
    dropUnresponsive ts toDrop (e :: l) = e :: dropUnresponsive ts toDrop l := by
  induction toDrop generalizing l with
  | zero =>
      rfl
  | succ toDrop ih =>
      rw [dropUnresponsive, List.eraseP_cons_of_neg (by simp [h]), ih, dropUnresponsive]

/-- The rescans from the front find just the entries that were counted. -/
theorem dropUnresponsive_below {l : List (BdMetric × BdPeer)}
    (h : l.Pairwise (fun a b => a.1 ≤ b.1)) (ts : Int) (dist : BdMetric) :
    dropUnresponsive ts ((l.filter (fun e => e.1 < dist)).countP (fun e => unresponsive ts e.2)) l =
      l.filter (fun e => !(decide (e.1 < dist) && unresponsive ts e.2)) := by
  induction l with
  | nil =>
      rfl
  | cons e l ih =>
      rcases List.pairwise_cons.1 h with ⟨he, hl⟩
      have htail := ih hl
      by_cases hlt : e.1 < dist
      · rw [List.filter_cons_of_pos (by simpa using hlt)]
        by_cases hun : unresponsive ts e.2 = true
        -- it is counted, and it is the first one that a rescan finds
        · rw [List.countP_cons_of_pos (by simpa using hun), dropUnresponsive,
            List.eraseP_cons_of_pos (by simpa using hun), htail,
            List.filter_cons_of_neg (by simp [hlt, hun])]
        · rw [Bool.not_eq_true] at hun
          rw [List.countP_cons_of_neg (by simp [hun]), dropUnresponsive_cons hun, htail,
            List.filter_cons_of_pos (by simp [hun])]
      -- from here on nothing is counted, and nothing is dropped
      · have hge : ∀ x ∈ e :: l, ¬ x.1 < dist := by
          intro x hx
          rcases List.mem_cons.1 hx with rfl | hx
          · exact hlt
          · exact not_lt.2 ((not_lt.1 hlt).trans (he x hx))
        have hnone : (e :: l).filter (fun e => e.1 < dist) = [] :=
          List.filter_eq_nil_iff.2 (fun x hx => by simpa using hge x hx)
        rw [hnone, List.countP_nil, dropUnresponsive]
        refine (List.filter_eq_self.2 ?_).symm
        intro x hx
        simp [hge x hx]

theorem countCloser_eq (q : BdQuery) (ts : Int) (dist : BdMetric) :
    countCloser q ts dist =
      q.mClosest.entries.countP (fun e => decide (e.1 < dist) && !unresponsive ts e.2) := by
  have hsplit := List.length_eq_countP_add_countP
    (fun e : BdMetric × BdPeer => unresponsive ts e.2) (l := q.mClosest.below dist)
  have hrest : (q.mClosest.below dist).countP (fun e => !unresponsive ts e.2) =
      q.mClosest.entries.countP (fun e => decide (e.1 < dist) && !unresponsive ts e.2) := by
    rw [Multimap.below, List.countP_filter]
    congr 1
    funext e
    exact Bool.and_comm _ _
  rw [countCloser, ← hrest]
  simp only [Bool.not_eq_true, Bool.decide_eq_false] at hsplit
  omega

/-- An entry that makes room for `p`: it is closer, but does not reply. -/
def MakesRoom (mFns : BdDhtFunctions) (q : BdQuery) (ts : Int) (p : BdId)
    (e : BdMetric × BdPeer) : Bool :=
  decide (CloserThan mFns q p e) && unresponsive ts e.2

/-- An entry that stands before `p`: it is closer, and may still reply. -/
def StandsBefore (mFns : BdDhtFunctions) (q : BdQuery) (ts : Int) (p : BdId)
    (e : BdMetric × BdPeer) : Bool :=
  decide (CloserThan mFns q p e) && !unresponsive ts e.2

/-- What `mClosest` is after `p` has come in: the entries that made room for it are gone; of the
others the nearest have stayed, as many as there is room for, among them all that stand before `p`. -/
def Admitted (mFns : BdDhtFunctions) (q q' : BdQuery) (ts : Int) (p : BdId) (mode : UInt32) : Prop :=
  ∃ kept dropped,
    q.mClosest.entries.filter (fun e => !MakesRoom mFns q ts p e) = kept ++ dropped ∧
    kept.length = min (mFns.bdNodesPerBucket - 1) (kept ++ dropped).length ∧
    (∀ a ∈ kept, ∀ b ∈ dropped, mFns.bdDistance q.mId a.2.mPeerId.id ≤
      mFns.bdDistance q.mId b.2.mPeerId.id) ∧
    (∀ e ∈ q.mClosest.entries, StandsBefore mFns q ts p e = true → e ∈ kept) ∧
    q'.mClosest.entries.Perm ((mFns.bdDistance q.mId p.id, newClosest ts p mode) :: kept)

section admission

variable {q : BdQuery} (hq : Anchored mFns q) (ts : Int) (p : BdId)

include hq

omit ts in
theorem closerThan_iff {e : BdMetric × BdPeer} (he : e ∈ q.mClosest.entries) :
    CloserThan mFns q p e ↔ e.1 < mFns.bdDistance q.mId p.id := by
  rw [hq.keyed e he]
  rfl

theorem countCloser_eq_countP :
    countCloser q ts (mFns.bdDistance q.mId p.id) =
      q.mClosest.entries.countP (StandsBefore mFns q ts p) := by
  rw [countCloser_eq]
  apply List.countP_congr
  intro e he
  simp only [StandsBefore, closerThan_iff hq p he]

theorem keptPeers_eq :
    keptPeers mFns q ts (mFns.bdDistance q.mId p.id) =
      (q.mClosest.entries.filter (fun e => !MakesRoom mFns q ts p e)).take
        (mFns.bdNodesPerBucket - 1) := by
  rw [keptPeers, trimBack, Multimap.below, dropUnresponsive_below q.mClosest.sorted]
  congr 1
  apply List.filter_congr
  intro e he
  simp only [MakesRoom, closerThan_iff hq p he]

/-- The trim takes no entry that stands before `p`. -/
theorem mem_keptPeers
    (hroom : countCloser q ts (mFns.bdDistance q.mId p.id) < mFns.bdNodesPerBucket)
    {e : BdMetric × BdPeer} (he : e ∈ q.mClosest.entries)
    (hbefore : StandsBefore mFns q ts p e = true) :
    e ∈ keptPeers mFns q ts (mFns.bdDistance q.mId p.id) := by
  rw [StandsBefore, Bool.and_eq_true, decide_eq_true_iff, Bool.not_eq_true'] at hbefore
  rw [keptPeers_eq hq]
  have hmem : e ∈ q.mClosest.entries.filter (fun e => !MakesRoom mFns q ts p e) :=
    List.mem_filter.2 ⟨he, by simp [MakesRoom, hbefore.2]⟩
  -- the entries that are left and closer are those that were counted
  have hcount : ((q.mClosest.erase (List.filter_sublist (p := fun e =>
      !MakesRoom mFns q ts p e))).below (mFns.bdDistance q.mId p.id)).length ≤
        mFns.bdNodesPerBucket - 1 := by
    refine le_of_eq_of_le ?_ (Nat.le_sub_one_of_lt hroom)
    rw [countCloser_eq, Multimap.below, Multimap.erase, List.filter_filter,
      ← List.countP_eq_length_filter]
    apply List.countP_congr
    intro x hx
    simp only [MakesRoom, closerThan_iff hq p hx]
    cases decide (x.1 < mFns.bdDistance q.mId p.id) <;> simp
  have hlt := (closerThan_iff hq p he).1 hbefore.1
  exact Multimap.mem_take_of_below hcount hmem hlt

/-- `addPeer` turns away a peer that is not there exactly when enough entries stand before it. -/
theorem addPeer_of_absent (mode : UInt32)
    (habsent : ∀ e ∈ q.mClosest.entries, bdIdEq e.2.mPeerId p = false) :
    ((q.addPeer mFns ts p mode).2 = 0 ∧ (q.addPeer mFns ts p mode).1.mClosest = q.mClosest ↔
      mFns.bdNodesPerBucket ≤ q.mClosest.entries.countP (StandsBefore mFns q ts p)) ∧
    (¬ mFns.bdNodesPerBucket ≤ q.mClosest.entries.countP (StandsBefore mFns q ts p) →
      (q.addPeer mFns ts p mode).2 = 1 ∧
        Admitted mFns q (q.addPeer mFns ts p mode).1 ts p mode) := by
  rw [← countCloser_eq_countP hq]
  cases addPeer_cases mFns q ts p mode with
  | far hcloser hrun =>
      rw [hrun]
      exact ⟨iff_of_true ⟨rfl, rfl⟩ hcloser, fun h => absurd hcloser h⟩
  | known _ hlisted _ =>
      rcases (listed_iff_of_keyed hq.keyed).1 hlisted with ⟨e, he, heq⟩
      rw [habsent e he] at heq
      cases heq
  | added hcloser _ hrun =>
      rw [hrun]
      refine ⟨iff_of_false (fun h => Nat.one_ne_zero h.1) (not_le.2 hcloser), fun _ => ⟨rfl, ?_⟩⟩
      have hkept := keptPeers_eq hq ts p
      have hsplit : q.mClosest.entries.filter (fun e => !MakesRoom mFns q ts p e) =
          keptPeers mFns q ts (mFns.bdDistance q.mId p.id) ++
            (q.mClosest.entries.filter (fun e => !MakesRoom mFns q ts p e)).drop
              (mFns.bdNodesPerBucket - 1) := by
        rw [hkept, List.take_append_drop]
      refine ⟨_, _, hsplit, ?_, ?_, ?_, ?_⟩
      · rw [← hsplit, hkept, List.length_take]
      · intro a ha b hb
        have hsorted : (q.mClosest.entries.filter (fun e => !MakesRoom mFns q ts p e)).Pairwise
            (fun a b => a.1 ≤ b.1) := q.mClosest.sorted.sublist List.filter_sublist
        rw [hsplit] at hsorted
        have hle := (List.pairwise_append.1 hsorted).2.2 a ha b hb
        have hbmem : b ∈ q.mClosest.entries :=
          (List.mem_filter.1 (List.mem_of_mem_drop hb)).1
        rwa [hq.keyed a ((keptPeers_sublist q ts _).subset ha), hq.keyed b hbmem] at hle
      · intro e he hbefore
        exact mem_keptPeers hq ts p hcloser he hbefore
      · exact Multimap.insertEntry_perm _ _

end admission

/-- In every state of a query, a new peer is turned away exactly when enough entries stand before
it; otherwise it comes in. -/
theorem addPeer_admission (now : Int) (id : BdNodeId) (startList : List BdId) (queryFlags : UInt32)
    (ops : List (Int × QueryOp)) (ts : Int) (p : BdId) (mode : UInt32)
    (habsent : ∀ e ∈ (ops.foldl (queryStep mFns)
        (BdQuery.new mFns now id startList queryFlags)).mClosest.entries,
      bdIdEq e.2.mPeerId p = false) :
    let q := ops.foldl (queryStep mFns) (BdQuery.new mFns now id startList queryFlags)
    ((q.addPeer mFns ts p mode).2 = 0 ∧ (q.addPeer mFns ts p mode).1.mClosest = q.mClosest ↔
      mFns.bdNodesPerBucket ≤ q.mClosest.entries.countP (StandsBefore mFns q ts p)) ∧
    (¬ mFns.bdNodesPerBucket ≤ q.mClosest.entries.countP (StandsBefore mFns q ts p) →
      (q.addPeer mFns ts p mode).2 = 1 ∧
        Admitted mFns q (q.addPeer mFns ts p mode).1 ts p mode) :=
  addPeer_of_absent (run_anchored (anchored_new now id startList queryFlags) ops) ts p mode habsent

/-- A third peer comes in, and the first one, which does not reply, makes room for it. -/
theorem addPeer_admission_run :
    let q := [(7, .nextQuery (fun a _ => a) bdZeroNodeId)].foldl (queryStep bdStdDht)
      (BdQuery.new bdStdDht 4 bdZeroNodeId [⟨⟨afInet, 1, 1⟩, ⟨List.replicate 20 1, rfl⟩⟩,
        ⟨⟨afInet, 2, 1⟩, ⟨List.replicate 20 2, rfl⟩⟩] 0)
    (q.addPeer bdStdDht 40 ⟨⟨afInet, 3, 1⟩, ⟨List.replicate 20 3, rfl⟩⟩ 2).2 = 1 ∧
      Admitted bdStdDht q
        (q.addPeer bdStdDht 40 ⟨⟨afInet, 3, 1⟩, ⟨List.replicate 20 3, rfl⟩⟩ 2).1 40
        ⟨⟨afInet, 3, 1⟩, ⟨List.replicate 20 3, rfl⟩⟩ 2 :=
  (addPeer_admission 4 bdZeroNodeId _ 0 _ 40 ⟨⟨afInet, 3, 1⟩, ⟨List.replicate 20 3, rfl⟩⟩ 2
    (by decide)).2 (by decide)

end BitDht
