import BitDht.Peer.Admission

/-!
# Asking — whom a query asks

`nextQuery` takes the first entry that is marked as never asked, and marks it.  `nextQuery_run` says
that over whole runs this asks the nearest peers first and none of them twice, and what they are
asked for.
-/

namespace BitDht

open Container

variable {mFns : BdDhtFunctions}

/-- The peer that a call gives out to be asked. -/
def askedPeer (mFns : BdDhtFunctions) (q : BdQuery) : Int × QueryOp → Option BdId
  | (now, .nextQuery bdRandomMidId endId) =>
      (q.nextQuery mFns bdRandomMidId now endId).2.map Prod.fst
  | _ => none

/-! ## One call -/

/-- A query that is not idle looks for the first entry that was never asked. -/
theorem nextQuery_answer {q : BdQuery} (hflags : doIdle q.mQueryFlags = false)
    {bdRandomMidId : BdNodeId → BdNodeId → BdNodeId} {now : Int} {endId : BdNodeId} {p : BdId}
    {target : BdNodeId}
    (h : (q.nextQuery mFns bdRandomMidId now endId).2 = some (p, target)) :
    ∃ e, q.mClosest.entries.find? (fun e => e.2.mLastSendTime == 0) = some e ∧
      e.2.mPeerId = p ∧
      target = if q.mQueryFlags &&& bitdhtQflagsDisguise ≠ 0 then bdRandomMidId q.mId p.id
        else q.mId := by
  rcases updateRetryPeriod_eq q now with ⟨period, hperiod⟩
  rw [BdQuery.nextQuery, hperiod] at h
  by_cases hdone : q.mState ≠ .querying ∧ doIdle q.mQueryFlags = false
  · rw [if_pos hdone] at h
    cases h
  · rw [if_neg hdone] at h
    simp only [BdQuery.queryPeer, hflags, Bool.false_and, Bool.or_false] at h
    cases hfind : q.mClosest.entries.find? (fun e => e.2.mLastSendTime == 0) with
    | none =>
        simp only [hfind] at h
        split_ifs at h
    | some e =>
        simp only [hfind, Option.some_inj, Prod.mk.injEq] at h
        exact ⟨e, rfl, h.1, by rw [← h.2, h.1]⟩

/-- The peer that is asked, and what for. -/
structure AsksNearest (mFns : BdDhtFunctions) (q : BdQuery) (p : BdId) (target : BdNodeId) :
    Prop where
  unasked : ∃ e ∈ q.mClosest.entries, e.2.mPeerId = p ∧ e.2.mLastSendTime = 0
  closerAsked : ∀ e ∈ q.mClosest.entries, CloserThan mFns q p e → e.2.mLastSendTime ≠ 0
  target : target = q.mId ∨ q.mQueryFlags &&& bitdhtQflagsDisguise ≠ 0 ∧
    bdStdDistance q.mId target < bdStdDistance q.mId p.id

theorem nextQuery_asksNearest {q : BdQuery} (hq : Anchored mFns q)
    (hflags : doIdle q.mQueryFlags = false) {midId endId : BdNodeId} {now : Int} {p : BdId}
    {target : BdNodeId}
    (h : (q.nextQuery mFns (bdStdRandomMidId midId) now endId).2 = some (p, target)) :
    AsksNearest mFns q p target := by
  rcases nextQuery_answer hflags h with ⟨e, hfind, rfl, htarget⟩
  have hmem := List.mem_of_find?_eq_some hfind
  rcases List.find?_eq_some_iff_append.1 hfind with ⟨hsend, before, behind, hsplit, hbefore⟩
  refine ⟨⟨e, hmem, rfl, by simpa using hsend⟩, ?_, ?_⟩
  · intro e' he' hcloser
    have hlt := (closerThan_iff hq e.2.mPeerId he').1 hcloser
    rw [← hq.keyed e hmem] at hlt
    -- what is closer stands in front of the entry that was found
    have hsorted := q.mClosest.sorted
    rw [hsplit] at he' hsorted
    rcases List.mem_append.1 he' with he' | he'
    · simpa using hbefore e' he'
    · rcases List.mem_cons.1 he' with rfl | he'
      · exact absurd hlt (lt_irrefl _)
      · have hle := (List.pairwise_cons.1 (List.pairwise_append.1 hsorted).2.1).1 e' he'
        exact absurd hlt (not_lt.2 hle)
  · rw [htarget]
    split_ifs with hdisguise
    · rcases bdStdRandomMidId_closer midId q.mId e.2.mPeerId.id with heq | hlt
      · exact .inl heq
      · exact .inr ⟨hdisguise, hlt⟩
    · exact .inl rfl

/-- An entry that is marked was marked before, or is the one that the call gives out. -/
theorem queryStep_marked (q : BdQuery) (op : Int × QueryOp) :
    ∀ e ∈ (queryStep mFns q op).mClosest.entries, e.2.mLastSendTime ≠ 0 →
      (∃ e' ∈ q.mClosest.entries, e'.2.mPeerId = e.2.mPeerId ∧
        e'.2.mLastSendTime = e.2.mLastSendTime) ∨
      op.1 = e.2.mLastSendTime ∧ askedPeer mFns q op = some e.2.mPeerId := by
  have hstep : ClosestStep mFns q op (queryStep mFns q op).mClosest := queryStep_closest q op
  generalize (queryStep mFns q op).mClosest = m at hstep ⊢
  intro e he hsend
  cases hstep with
  | same =>
      exact .inl ⟨e, he, rfl, rfl⟩
  | noted =>
      rcases Multimap.mem_updateEntry he with he | ⟨e', he', -, rfl⟩
      · exact .inl ⟨e, he, rfl, rfl⟩
      · exact .inl ⟨e', he', (mPeerId_noteReply ..).symm, (mLastSendTime_noteReply ..).symm⟩
  | added =>
      rcases Multimap.mem_insert.1 he with rfl | he
      -- a new entry is not marked
      · exact absurd (mLastSendTime_noteReply ..) hsend
      · exact .inl ⟨e, (keptPeers_sublist q _ _).subset he, rfl, rfl⟩
  | asked hfind hanswer =>
      rcases Multimap.mem_updateEntry_find hfind he with he | rfl
      · exact .inl ⟨e, he, rfl, rfl⟩
      · exact .inr ⟨rfl, hanswer⟩

/-! ## Counting -/

/-- The entries of a peer. -/
def entriesFor (p : BdId) (q : BdQuery) : Nat :=
  q.mClosest.entries.countP (fun e => bdIdEq e.2.mPeerId p)

/-- The entries of a peer that are not marked. -/
def unaskedFor (p : BdId) (q : BdQuery) : Nat :=
  q.mClosest.entries.countP (fun e => bdIdEq e.2.mPeerId p && e.2.mLastSendTime == 0)

theorem unaskedFor_le (p : BdId) (q : BdQuery) : unaskedFor p q ≤ entriesFor p q :=
  List.countP_mono_left (fun _ _ h => (Bool.and_eq_true_iff.1 h).1)

/-- A call with which the peer is asked. -/
def asksFor (mFns : BdDhtFunctions) (p : BdId) (q : BdQuery) (op : Int × QueryOp) : Nat :=
  (askedPeer mFns q op).toList.countP (fun p' => bdIdEq p' p)

/-- How often the peer is asked in a run. -/
def asks (mFns : BdDhtFunctions) (p : BdId) : BdQuery → List (Int × QueryOp) → Nat
  | _, [] => 0
  | q, op :: ops => asksFor mFns p q op + asks mFns p (queryStep mFns q op) ops

/-- The peer has an entry in `mClosest`. -/
def InClosest (p : BdId) (q : BdQuery) : Prop :=
  ∃ e ∈ q.mClosest.entries, bdIdEq e.2.mPeerId p = true

/-- The peer has an entry in every state of a run. -/
def StaysInClosest (mFns : BdDhtFunctions) (p : BdId) (q : BdQuery) (ops : List (Int × QueryOp)) :
    Prop :=
  ∀ pre post, ops = pre ++ post → InClosest p (pre.foldl (queryStep mFns) q)

/-- `addPeer` does not add an entry for a peer that has one, and marks none as not asked. -/
theorem addPeer_unaskedFor {q : BdQuery} (hq : Anchored mFns q) {p : BdId} (hp : InClosest p q)
    (ts : Int) (id : BdId) (mode : UInt32) :
    unaskedFor p (q.addPeer mFns ts id mode).1 ≤ unaskedFor p q := by
  cases addPeer_cases mFns q ts id mode with
  | far _ hrun =>
      rw [hrun]
  | known _ _ hrun =>
      rw [hrun]
      apply le_of_eq
      have hmap := Multimap.map_updateEntry (samePeer (mFns.bdDistance q.mId id.id) id)
        (f := noteReply mode ts) (g := fun e => (e.2.mPeerId, e.2.mLastSendTime))
        (fun e => by rw [mPeerId_noteReply, mLastSendTime_noteReply]) q.mClosest.entries
      have hcount := congrArg
        (List.countP (fun b : BdId × Int => bdIdEq b.1 p && b.2 == 0)) hmap
      rw [List.countP_map, List.countP_map] at hcount
      exact hcount
  | added _ hnew hrun =>
      rw [hrun]
      -- the peer that comes in is another one
      have hother : bdIdEq (newClosest ts id mode).mPeerId p = false := by
        cases heq : bdIdEq (newClosest ts id mode).mPeerId p with
        | false =>
            rfl
        | true =>
            rcases hp with ⟨e, he, hep⟩
            have hid : (newClosest ts id mode).mPeerId = id := mPeerId_noteReply ..
            rw [hid, bdIdEq_comm] at heq
            exact absurd ((listed_iff_of_keyed hq.keyed).2 ⟨e, he, bdIdEq_trans hep heq⟩) hnew
      have hperm : ((q.mClosest.erase (@keptPeers_sublist mFns q ts
          (mFns.bdDistance q.mId id.id))).insert (mFns.bdDistance q.mId id.id)
            (newClosest ts id mode)).entries.Perm
          ((mFns.bdDistance q.mId id.id, newClosest ts id mode) ::
            keptPeers mFns q ts (mFns.bdDistance q.mId id.id)) := Multimap.insertEntry_perm _ _
      rw [unaskedFor, hperm.countP_eq, List.countP_cons_of_neg (by simp [hother])]
      exact (keptPeers_sublist q ts _).countP_le

/-- Each time a peer is asked one entry less is not marked. -/
theorem nextQuery_unaskedFor {q : BdQuery} (hflags : doIdle q.mQueryFlags = false) (p : BdId)
    (bdRandomMidId : BdNodeId → BdNodeId → BdNodeId) {now : Int} (hnow : 0 < now)
    (endId : BdNodeId) :
    asksFor mFns p q (now, .nextQuery bdRandomMidId endId) +
        unaskedFor p (q.nextQuery mFns bdRandomMidId now endId).1 ≤ unaskedFor p q := by
  rcases updateRetryPeriod_eq q now with ⟨period, hperiod⟩
  rw [asksFor, askedPeer]
  cases nextQuery_cases mFns bdRandomMidId q now endId with
  | done _ _ hrun =>
      rw [hrun]
      simp
  | asked _ hfind hrun =>
      rename_i e _
      rcases hrun with ⟨targetNodeId, hrun⟩
      have hsend : e.2.mLastSendTime = 0 := by
        have hquery := List.find?_some hfind
        rw [hperiod, BdQuery.queryPeer] at hquery
        simpa [hflags] using hquery
      have hcount := Multimap.countP_updateEntry hfind
        (f := fun peer => { peer with mLastSendTime := now })
        (fun e => bdIdEq e.2.mPeerId p && e.2.mLastSendTime == 0)
      have hmarked : (now == 0) = false := by simpa using hnow.ne'
      rw [List.countP_singleton, List.countP_singleton, hsend, hmarked, Bool.and_false] at hcount
      simp only [beq_self_eq_true, Bool.and_true, Bool.false_eq_true, if_false, Nat.add_zero]
        at hcount
      rw [hrun, Option.map_some, Option.toList_some, List.countP_singleton, Nat.add_comm]
      exact hcount.le
  | waiting _ hrun =>
      rw [hrun, hperiod]
      simp [unaskedFor]
  | finished _ _ _ _ hrun =>
      rw [hrun, hperiod]
      simp [unaskedFor]

/-- What one call does to the entries of a peer that has some. -/
theorem queryStep_unaskedFor {q : BdQuery} (hq : Anchored mFns q)
    (hflags : doIdle q.mQueryFlags = false) {p : BdId} (hp : InClosest p q) {op : Int × QueryOp}
    (hclock : 0 < op.1) :
    asksFor mFns p q op + unaskedFor p (queryStep mFns q op) ≤ unaskedFor p q := by
  rcases op with ⟨ts, op⟩
  cases op with
  | addPeer id mode =>
      have hnone : asksFor mFns p q (ts, .addPeer id mode) = 0 := rfl
      rw [hnone, Nat.zero_add]
      exact addPeer_unaskedFor hq hp ts id mode
  | addPotentialPeer id mode =>
      have hnone : asksFor mFns p q (ts, .addPotentialPeer id mode) = 0 := rfl
      rcases addPotentialPeer_eq q ts id mode with ⟨potential, hrun⟩
      rw [hnone, Nat.zero_add, queryStep, hrun, unaskedFor, unaskedFor]
  | nextQuery bdRandomMidId endId =>
      exact nextQuery_unaskedFor hflags p bdRandomMidId hclock endId

/-! ## Runs -/

/-- While a peer stays in `mClosest` it is asked once for each entry that was not marked. -/
theorem run_unaskedFor {q : BdQuery} (hq : Anchored mFns q)
    (hflags : doIdle q.mQueryFlags = false) {p : BdId} {ops : List (Int × QueryOp)}
    (hstays : StaysInClosest mFns p q ops) (hclock : ∀ op ∈ ops, 0 < op.1) :
    asks mFns p q ops + unaskedFor p (ops.foldl (queryStep mFns) q) ≤ unaskedFor p q := by
  induction ops generalizing q with
  | nil =>
      rw [asks, Nat.zero_add]
      exact le_rfl
  | cons op ops ih =>
      have hsame : SameSearch q (queryStep mFns q op) := queryStep_sameSearch q op
      have hstep := queryStep_unaskedFor hq hflags (hstays [] (op :: ops) rfl)
        (hclock op (List.mem_cons_self ..))
      have hrest := ih (queryStep_anchored q op hq) (by rw [hsame.mQueryFlags]; exact hflags)
        (fun pre post hops => hstays (op :: pre) post (by rw [hops, List.cons_append]))
        (fun o ho => hclock o (List.mem_cons_of_mem op ho))
      calc
        asks mFns p q (op :: ops) + unaskedFor p ((op :: ops).foldl (queryStep mFns) q) =
            asksFor mFns p q op + (asks mFns p (queryStep mFns q op) ops +
              unaskedFor p (ops.foldl (queryStep mFns) (queryStep mFns q op))) :=
          Nat.add_assoc ..
        _ ≤ asksFor mFns p q op + unaskedFor p (queryStep mFns q op) :=
          Nat.add_le_add_left hrest _
        _ ≤ unaskedFor p q := hstep

/-- In the run the peer is given out at the time `t`. -/
def AskedAt (mFns : BdDhtFunctions) (q : BdQuery) (ops : List (Int × QueryOp)) (t : Int)
    (p : BdId) : Prop :=
  ∃ pre op post, ops = pre ++ op :: post ∧ op.1 = t ∧
    askedPeer mFns (pre.foldl (queryStep mFns) q) op = some p

/-- An entry is marked with the time at which its peer was given out. -/
theorem run_marked {q : BdQuery} (hstart : ∀ e ∈ q.mClosest.entries, e.2.mLastSendTime = 0)
    (ops : List (Int × QueryOp)) :
    ∀ e ∈ (ops.foldl (queryStep mFns) q).mClosest.entries, e.2.mLastSendTime ≠ 0 →
      AskedAt mFns q ops e.2.mLastSendTime e.2.mPeerId := by
  induction ops using List.reverseRecOn with
  | nil =>
      intro e he hsend
      exact absurd (hstart e he) hsend
  | append_singleton ops op ih =>
      intro e he hsend
      rw [List.foldl_append, List.foldl_cons, List.foldl_nil] at he
      rcases queryStep_marked _ op e he hsend with ⟨e', he', hpeer, htime⟩ | ⟨htime, hasked⟩
      · rcases ih e' he' (by rwa [htime]) with ⟨pre, o, post, hops, ho, hasked⟩
        refine ⟨pre, o, post ++ [op], ?_, ho.trans htime, by rw [hasked, hpeer]⟩
        rw [hops, List.append_assoc, List.cons_append]
      · exact ⟨ops, op, [], rfl, htime, hasked⟩

/-- Without duplicates a peer has one entry. -/
theorem entriesFor_le_one {q : BdQuery} (h : QueryInv mFns q) (p : BdId) : entriesFor p q ≤ 1 := by
  have hdistinct := h.closest.distinct
  rw [entriesFor]
  generalize q.mClosest.entries = l at hdistinct
  induction l with
  | nil =>
      exact Nat.zero_le 1
  | cons e l ih =>
      rcases List.pairwise_cons.1 hdistinct with ⟨he, hl⟩
      by_cases hep : bdIdEq e.2.mPeerId p = true
      · have hnone : l.countP (fun e => bdIdEq e.2.mPeerId p) = 0 := by
          apply List.countP_eq_zero.2
          intro x hx hxp
          rw [bdIdEq_comm] at hxp
          have heq := bdIdEq_trans hep hxp
          rw [he x hx] at heq
          cases heq
        rw [List.countP_cons_of_pos (by simpa using hep), hnone]
      · rw [List.countP_cons_of_neg (by simpa using hep)]
        exact ih hl

/-- Over any run of a query that is not idle: the peer that is given out is the nearest one that is
not marked; a mark is the time at which the peer was given out; and while a peer stays in
`mClosest`, under a positive clock, it is given out at most once for each of its entries, of which
there is one if the query began without duplicates. -/
theorem nextQuery_run (now : Int) (id : BdNodeId) (startList : List BdId)
    {queryFlags : UInt32} (hflags : doIdle queryFlags = false) (ops : List (Int × QueryOp)) :
    let q₀ := BdQuery.new mFns now id startList queryFlags
    let q := ops.foldl (queryStep mFns) q₀
    (∀ midId now endId p target,
      (q.nextQuery mFns (bdStdRandomMidId midId) now endId).2 = some (p, target) →
        AsksNearest mFns q p target) ∧
    (∀ e ∈ q.mClosest.entries, e.2.mLastSendTime ≠ 0 →
      AskedAt mFns q₀ ops e.2.mLastSendTime e.2.mPeerId) ∧
    (∀ p more, StaysInClosest mFns p q more → (∀ op ∈ more, 0 < op.1) →
      asks mFns p q more + unaskedFor p (more.foldl (queryStep mFns) q) ≤ entriesFor p q) ∧
    (startList.length ≤ mFns.bdNodesPerBucket →
      startList.Pairwise (fun a b => bdIdEq a b = false) → ∀ p, entriesFor p q ≤ 1) := by
  intro q₀ q
  have hq : Anchored mFns q := run_anchored (anchored_new now id startList queryFlags) ops
  have hidle : doIdle q.mQueryFlags = false := by
    have hsame : SameSearch q₀ q := run_sameSearch q₀ ops
    rw [hsame.mQueryFlags]
    exact hflags
  refine ⟨?_, ?_, ?_, ?_⟩
  · intro midId now endId p target h
    exact nextQuery_asksNearest hq hidle h
  · refine run_marked ?_ ops
    intro e he
    rcases List.mem_map.1 ((new_entries_perm mFns now id startList queryFlags).mem_iff.1 he) with
      ⟨it, _, rfl⟩
    rfl
  · intro p more hstays hclock
    calc
      asks mFns p q more + unaskedFor p (more.foldl (queryStep mFns) q) ≤ unaskedFor p q :=
        run_unaskedFor hq hidle hstays hclock
      _ ≤ entriesFor p q := unaskedFor_le p q
  · intro hlen hdistinct p
    exact entriesFor_le_one (run_queryInv (queryInv_new hlen hdistinct now id queryFlags) ops) p

/-- The nearer of two peers is asked for an id that is nearer still. -/
theorem nextQuery_run_disguised :
    AsksNearest bdStdDht
      (BdQuery.new bdStdDht 4 bdZeroNodeId [⟨⟨afInet, 2, 1⟩, ⟨List.replicate 20 2, rfl⟩⟩,
        ⟨⟨afInet, 1, 1⟩, ⟨List.replicate 20 1, rfl⟩⟩] bitdhtQflagsDisguise)
      ⟨⟨afInet, 1, 1⟩, ⟨List.replicate 20 1, rfl⟩⟩
      (bdStdRandomMidId ⟨List.replicate 20 9, rfl⟩ bdZeroNodeId ⟨List.replicate 20 1, rfl⟩) :=
  (nextQuery_run 4 bdZeroNodeId [⟨⟨afInet, 2, 1⟩, ⟨List.replicate 20 2, rfl⟩⟩,
    ⟨⟨afInet, 1, 1⟩, ⟨List.replicate 20 1, rfl⟩⟩] (by decide) []).1
      ⟨List.replicate 20 9, rfl⟩ 7 bdZeroNodeId _ _ (by decide)

end BitDht
