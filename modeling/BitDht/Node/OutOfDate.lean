import BitDht.Node.Evolution
import BitDht.Node.Sending

/-!
# OutOfDate — the loop over the peers that are out of date

The loop of `iteration` around `out_of_date_peer`, with a reading of the clock in each call.  A call
returns an entry whose time lies more than `BITDHT_MAX_SEND_PERIOD` back and sets that time, so that the
entry is not returned again as long as the clock does not move on by more than that period: the
entries that are pinged are pinged once (`PingRun`), and the loop ends
(`pingOutOfDateAt_once`).
-/

namespace BitDht

open Container Outcome

variable {mFns : BdDhtFunctions}

/-! ## One call of `out_of_date_peer` -/

/-- The entries of all buckets, in the order in which they are looked at. -/
def BdSpace.entries (s : BdSpace mFns) : List BdPeer :=
  s.buckets.flatten

theorem length_entries (s : BdSpace mFns) : s.entries.length = s.calcSpaceSize := by
  rw [BdSpace.entries, List.length_flatten, BdSpace.calcSpaceSize]

theorem outOfDateEntry_cases (ts : Int) (entries : BdBucket) :
    (outOfDateEntry ts entries = none ∧ ∀ peer ∈ entries, outOfDate ts peer = false) ∨
    ∃ pre peer post, entries = pre ++ peer :: post ∧ outOfDate ts peer = true ∧
      outOfDateEntry ts entries =
        some (peer.mPeerId, pre ++ { peer with mLastSendTime := ts } :: post) := by
  induction entries with
  | nil =>
      exact .inl ⟨rfl, by simp⟩
  | cons eit entries ih =>
      by_cases hold : ts - eit.mLastSendTime > bitdhtMaxSendPeriod
      · refine .inr ⟨[], eit, entries, rfl, decide_eq_true hold, ?_⟩
        rw [outOfDateEntry, if_pos hold]
        rfl
      · rcases ih with ⟨hnone, hall⟩ | ⟨pre, peer, post, hentries, hpeer, hsome⟩
        · refine .inl ⟨?_, ?_⟩
          · rw [outOfDateEntry, if_neg hold, hnone]
            rfl
          · rw [List.forall_mem_cons]
            exact ⟨decide_eq_false hold, hall⟩
        · refine .inr ⟨eit :: pre, peer, post, by rw [hentries, List.cons_append], hpeer, ?_⟩
          rw [outOfDateEntry, if_neg hold, hsome]
          rfl

theorem outOfDateBucket_cases (ts : Int) (buckets : List BdBucket) :
    (outOfDateBucket ts buckets = none ∧ ∀ peer ∈ buckets.flatten, outOfDate ts peer = false) ∨
    ∃ pre peer post buckets', buckets.flatten = pre ++ peer :: post ∧ outOfDate ts peer = true ∧
      outOfDateBucket ts buckets = some (peer.mPeerId, buckets') ∧
      buckets'.flatten = pre ++ { peer with mLastSendTime := ts } :: post ∧
      buckets'.map List.length = buckets.map List.length := by
  induction buckets with
  | nil =>
      exact .inl ⟨rfl, by simp⟩
  | cons it buckets ih =>
      rcases outOfDateEntry_cases ts it with ⟨hnone, hall⟩ | ⟨pre, peer, post, hit, hpeer, hsome⟩
      · rcases ih with ⟨hnone', hall'⟩ |
          ⟨pre, peer, post, buckets', hflatten, hpeer, hsome, hflatten', hsizes⟩
        · refine .inl ⟨?_, ?_⟩
          · simp [outOfDateBucket, hnone, hnone']
          · rw [List.flatten_cons]
            intro peer hpeer
            exact (List.mem_append.1 hpeer).elim (hall peer) (hall' peer)
        · refine .inr ⟨it ++ pre, peer, post, it :: buckets', ?_, hpeer, ?_, ?_, ?_⟩
          · rw [List.flatten_cons, hflatten, List.append_assoc]
          · simp [outOfDateBucket, hnone, hsome]
          · rw [List.flatten_cons, hflatten', List.append_assoc]
          · rw [List.map_cons, List.map_cons, hsizes]
      · refine .inr ⟨pre, peer, post ++ buckets.flatten,
          (pre ++ { peer with mLastSendTime := ts } :: post) :: buckets, ?_, hpeer, ?_, ?_, ?_⟩
        · rw [List.flatten_cons, hit, List.append_assoc, List.cons_append]
        · simp [outOfDateBucket, hsome]
        · rw [List.flatten_cons, List.append_assoc, List.cons_append]
        · rw [List.map_cons, List.map_cons, hit]
          simp

/-- A call leaves the table and says that no entry is out of date, or returns an entry that is and sets
its time. -/
theorem outOfDatePeer_cases (s : BdSpace mFns) (ts : Int) :
    (s.outOfDatePeer ts = (s, none) ∧ ∀ peer ∈ s.entries, outOfDate ts peer = false) ∨
    ∃ n peer space, s.entries[n]? = some peer ∧ outOfDate ts peer = true ∧
      s.outOfDatePeer ts = (space, some peer.mPeerId) ∧
      space.entries = s.entries.set n { peer with mLastSendTime := ts } ∧
      space.buckets.map List.length = s.buckets.map List.length ∧ space.mOwnId = s.mOwnId := by
  rcases outOfDateBucket_cases ts s.buckets with ⟨hnone, hall⟩ |
    ⟨pre, peer, post, buckets', hflatten, hpeer, hsome, hflatten', hsizes⟩
  · refine .inl ⟨?_, hall⟩
    rw [BdSpace.outOfDatePeer]
    split
    · rename_i h
      rw [hnone] at h
      cases h
    · rfl
  · have hsize : buckets'.length = mFns.bdNumBuckets := by
      have hlen := congrArg List.length hsizes
      rw [List.length_map, List.length_map] at hlen
      exact hlen.trans s.size
    refine .inr ⟨pre.length, peer, { s with buckets := buckets', size := hsize }, ?_, hpeer, ?_, ?_,
      hsizes, rfl⟩
    · rw [BdSpace.entries, hflatten]
      simp
    · rw [BdSpace.outOfDatePeer]
      split
      · rename_i h
        rw [hsome] at h
        cases h
        rfl
      · rename_i h
        rw [hsome] at h
        cases h
    · rw [BdSpace.entries, BdSpace.entries, hflatten, hflatten']
      simp

/-! ## The loop -/

/-- The transaction id that is made of the counter `c`. -/
def transIdAt (c : UInt64) : BdToken where
  data := (BdNode.setw 2 c.toNat).take bitdhtTokenMaxLen

namespace BdNode

/-- The loop of `iteration` over the peers that are out of date, of which `i` have been returned, where
`clock` is what `time(NULL)` returns in each call of `out_of_date_peer`. -/
def pingOutOfDateAt (clock : Nat → Int) : Nat → Nat → BdNode mFns → Exec (BdNode mFns)
  | 0, _, _ => .error .outOfFuel
  | fuel + 1, i, s =>
      match s.mNodeSpace.outOfDatePeer (clock i) with
      | (space, none) => pure { s with mNodeSpace := space }
      | (space, some id) => do
          let s ← { s with mNodeSpace := space }.ping id
          pingOutOfDateAt clock fuel (i + 1) s

/-- A ping is queued whole. -/
theorem ping_eq (s : BdNode mFns) (id : BdId) :
    s.ping id = .ok { s with
      transIdCounter := s.transIdCounter + 1
      mOutgoingMsgs := s.mOutgoingMsgs ++
        [{ data := bencode (Msg.ping (transIdAt s.transIdCounter) s.mOwnId).tree, addr := id.addr }] } :=
  msgout_eq (Msg.ping_short s.len_genNewTransId_le) s.genNewTransId.2 id.addr

/-- On a clock that stands still the loop is that of `iterate`. -/
theorem pingOutOfDateAt_const {now : Int} {fuel i : Nat} {s : BdNode mFns}
    (h : s.mNodeSpace.outOfDateCount now ≤ fuel) :
    pingOutOfDateAt (fun _ => now) (fuel + 1) i s = pingOutOfDate now fuel s := by
  induction fuel generalizing s i with
  | zero =>
      rcases outOfDatePeer_cases s.mNodeSpace now with ⟨hnone, -⟩ |
        ⟨n, peer, space, -, -, hsome, -⟩
      · rw [pingOutOfDateAt, hnone]
        rfl
      · have hless := outOfDateCount_outOfDatePeer hsome
        omega
  | succ fuel ih =>
      rw [pingOutOfDateAt, pingOutOfDate]
      rcases outOfDatePeer_cases s.mNodeSpace now with ⟨hnone, -⟩ |
        ⟨n, peer, space, -, -, hsome, -⟩
      · rw [hnone]
      · have hless := outOfDateCount_outOfDatePeer hsome
        rw [hsome]
        dsimp only
        rw [ping_eq, ok_bind, ok_bind]
        apply ih
        dsimp only
        omega

end BdNode

/-! ## Runs of the loop -/

/-- The pings with the transaction ids from the counter `c` on. -/
def pingMsgs (ownId : BdNodeId) : UInt64 → List BdId → List BdNodeNetMsg
  | _, [] => []
  | c, id :: ids =>
      { data := bencode (Msg.ping (transIdAt c) ownId).tree, addr := id.addr } ::
        pingMsgs ownId (c + 1) ids

theorem pingMsgs_append (ownId : BdNodeId) (c : UInt64) (ids ids' : List BdId) :
    pingMsgs ownId c (ids ++ ids') =
      pingMsgs ownId c ids ++ pingMsgs ownId (c + UInt64.ofNat ids.length) ids' := by
  induction ids generalizing c with
  | nil =>
      simp [pingMsgs]
  | cons id ids ih =>
      have hcounter : c + 1 + UInt64.ofNat ids.length = c + UInt64.ofNat (ids.length + 1) := by
        rw [UInt64.ofNat_add, UInt64.add_assoc, UInt64.add_comm 1]
        rfl
      rw [List.cons_append, pingMsgs, ih, pingMsgs, List.cons_append, hcounter, List.length_cons]

/-- The peers at some places of a table. -/
def peersAt (entries : List BdPeer) (places : List Nat) : List BdId :=
  places.filterMap (fun n => entries[n]?.map BdPeer.mPeerId)

theorem length_peersAt {entries : List BdPeer} {places : List Nat}
    (h : ∀ n ∈ places, ∃ peer, entries[n]? = some peer) :
    (peersAt entries places).length = places.length := by
  induction places with
  | nil =>
      rfl
  | cons n places ih =>
      rw [List.forall_mem_cons] at h
      rcases h with ⟨⟨peer, hpeer⟩, hplaces⟩
      have hrest := ih hplaces
      rw [peersAt] at hrest
      rw [peersAt, List.filterMap_cons, hpeer]
      simp [hrest]

/-- The node `s'` is what `s` becomes when the entries at the places `pinged` are pinged, each once, and
their time is set to one not before `start`.  Nothing else has changed. -/
structure PingRun (start : Int) (s : BdNode mFns) (pinged : List Nat) (s' : BdNode mFns) : Prop where
  nodup : pinged.Nodup
  sizes : s'.mNodeSpace.buckets.map List.length = s.mNodeSpace.buckets.map List.length
  entry : ∀ n ∈ pinged, ∃ peer t, s.mNodeSpace.entries[n]? = some peer ∧ start ≤ t ∧
    s'.mNodeSpace.entries[n]? = some { peer with mLastSendTime := t }
  other : ∀ n, n ∉ pinged → s'.mNodeSpace.entries[n]? = s.mNodeSpace.entries[n]?
  sent : s'.mOutgoingMsgs = s.mOutgoingMsgs ++
    pingMsgs s.mOwnId s.transIdCounter (peersAt s.mNodeSpace.entries pinged)
  counter : s'.transIdCounter = s.transIdCounter + UInt64.ofNat pinged.length
  space : s'.mNodeSpace.mOwnId = s.mNodeSpace.mOwnId
  rest : s' = { s with
    mNodeSpace := s'.mNodeSpace
    mOutgoingMsgs := s'.mOutgoingMsgs
    transIdCounter := s'.transIdCounter }

namespace PingRun

variable {start : Int} {s s' : BdNode mFns} {pinged : List Nat}

theorem nil (start : Int) (s : BdNode mFns) : PingRun start s [] s where
  nodup := List.nodup_nil
  sizes := rfl
  entry := by simp
  other := fun _ _ => rfl
  sent := by simp [peersAt, pingMsgs]
  counter := by simp
  space := rfl
  rest := rfl

/-- There are no more pings than entries. -/
theorem length_le (h : PingRun start s pinged s') :
    pinged.length ≤ s.mNodeSpace.calcSpaceSize := by
  have hsub : pinged ⊆ List.range s.mNodeSpace.calcSpaceSize := by
    intro n hn
    rcases h.entry n hn with ⟨peer, t, hpeer, -⟩
    rw [List.mem_range, ← length_entries]
    exact (List.getElem?_eq_some_iff.1 hpeer).1
  have hle := (h.nodup.subperm hsub).length_le
  rwa [List.length_range] at hle

/-- An entry that is out of date within the period has not been pinged. -/
theorem notMem (h : PingRun start s pinged s') {ts : Int} (hts : ts ≤ start + bitdhtMaxSendPeriod)
    {n : Nat} {peer : BdPeer} (hpeer : s'.mNodeSpace.entries[n]? = some peer)
    (hold : outOfDate ts peer = true) : n ∉ pinged := by
  intro hn
  rcases h.entry n hn with ⟨peer', t, -, ht, hpeer'⟩
  rw [hpeer, Option.some_inj] at hpeer'
  subst hpeer'
  have hlate : ts - t > bitdhtMaxSendPeriod := of_decide_eq_true hold
  omega

/-- One more round. -/
theorem visit (h : PingRun start s pinged s') {ts : Int} (hstart : start ≤ ts)
    (hts : ts ≤ start + bitdhtMaxSendPeriod) {n : Nat} {peer : BdPeer} {space : BdSpace mFns}
    (hpeer : s'.mNodeSpace.entries[n]? = some peer) (hold : outOfDate ts peer = true)
    (hspace : space.entries = s'.mNodeSpace.entries.set n { peer with mLastSendTime := ts })
    (hsizes : space.buckets.map List.length = s'.mNodeSpace.buckets.map List.length)
    (hown : space.mOwnId = s'.mNodeSpace.mOwnId) {s'' : BdNode mFns}
    (hping : { s' with mNodeSpace := space }.ping peer.mPeerId = .ok s'') :
    PingRun start s (pinged ++ [n]) s'' := by
  have hnew := h.notMem hts hpeer hold
  have horig : s.mNodeSpace.entries[n]? = some peer := (h.other n hnew).symm.trans hpeer
  have hlt : n < s'.mNodeSpace.entries.length := (List.getElem?_eq_some_iff.1 hpeer).1
  have hown' : s'.mOwnId = s.mOwnId := by rw [h.rest]
  rw [BdNode.ping_eq] at hping
  cases hping
  refine ⟨?_, hsizes.trans h.sizes, ?_, ?_, ?_, ?_, hown.trans h.space, ?_⟩
  · refine List.nodup_append.2 ⟨h.nodup, List.nodup_singleton n, ?_⟩
    intro m hm k hk heq
    rw [List.mem_singleton] at hk
    exact hnew (hk ▸ heq ▸ hm)
  · intro m hm
    dsimp only
    rw [hspace]
    rcases List.mem_append.1 hm with hm | hm
    · have hne : n ≠ m := fun heq => hnew (heq ▸ hm)
      rw [List.getElem?_set_ne hne]
      exact h.entry m hm
    · rw [List.mem_singleton] at hm
      subst hm
      exact ⟨peer, ts, horig, hstart, List.getElem?_set_self hlt⟩
  · intro m hm
    rw [List.mem_append, List.mem_singleton, not_or] at hm
    dsimp only
    rw [hspace, List.getElem?_set_ne (fun heq => hm.2 heq.symm)]
    exact h.other m hm.1
  · have hlen : (peersAt s.mNodeSpace.entries pinged).length = pinged.length := by
      refine length_peersAt (fun m hm => ?_)
      rcases h.entry m hm with ⟨peer', -, hpeer', -⟩
      exact ⟨peer', hpeer'⟩
    have hlast : peersAt s.mNodeSpace.entries (pinged ++ [n]) =
        peersAt s.mNodeSpace.entries pinged ++ [peer.mPeerId] := by
      simp [peersAt, List.filterMap_append, horig]
    dsimp only
    rw [hlast, pingMsgs_append, hlen, ← h.counter, ← List.append_assoc, ← h.sent, ← hown']
    rfl
  · dsimp only
    rw [h.counter, List.length_append, UInt64.ofNat_add, UInt64.add_assoc]
    rfl
  · dsimp only
    rw [h.rest]

end PingRun

/-- While the clock stays within the period the loop ends, and it pings all entries that are out of date
at its start and none twice. -/
theorem pingOutOfDateAt_once (s : BdNode mFns) {start : Int} {clock : Nat → Int}
    (hclock : ∀ i ≤ s.mNodeSpace.calcSpaceSize,
      start ≤ clock i ∧ clock i ≤ start + bitdhtMaxSendPeriod)
    {fuel : Nat} (hfuel : s.mNodeSpace.calcSpaceSize < fuel) :
    ∃ pinged s', BdNode.pingOutOfDateAt clock fuel 0 s = .ok s' ∧ PingRun start s pinged s' ∧
      ∀ n peer, s.mNodeSpace.entries[n]? = some peer → outOfDate start peer = true →
        n ∈ pinged := by
  have hloop : ∀ (fuel : Nat) (pinged : List Nat) (s₁ : BdNode mFns), PingRun start s pinged s₁ →
      s.mNodeSpace.calcSpaceSize < pinged.length + fuel →
      ∃ pinged' s', BdNode.pingOutOfDateAt clock fuel pinged.length s₁ = .ok s' ∧
        PingRun start s pinged' s' ∧
        ∀ n peer, s.mNodeSpace.entries[n]? = some peer → outOfDate start peer = true →
          n ∈ pinged' := by
    intro fuel
    induction fuel with
    | zero =>
        intro pinged s₁ hrun hlt
        exact absurd hrun.length_le (not_le.2 hlt)
    | succ fuel ih =>
        intro pinged s₁ hrun hlt
        rcases hclock pinged.length hrun.length_le with ⟨hstart, hend⟩
        rcases outOfDatePeer_cases s₁.mNodeSpace (clock pinged.length) with ⟨hnone, hall⟩ |
          ⟨n, peer, space, hpeer, hold, hsome, hentries, hsizes, hown⟩
        · refine ⟨pinged, s₁, ?_, hrun, ?_⟩
          · rw [BdNode.pingOutOfDateAt, hnone]
            rfl
          -- an entry that is still as it was is out of date now, too
          · intro n peer hpeer hold
            by_contra hn
            have hcur := (hrun.other n hn).trans hpeer
            have hfresh := hall peer (List.mem_of_getElem? hcur)
            have hbefore : start - peer.mLastSendTime > bitdhtMaxSendPeriod := of_decide_eq_true hold
            have hafter := of_decide_eq_false hfresh
            omega
        · rcases hping : BdNode.ping { s₁ with mNodeSpace := space } peer.mPeerId with e | s₂
          · rw [BdNode.ping_eq] at hping
            cases hping
          · have hvisit := hrun.visit hstart hend hpeer hold hentries hsizes hown hping
            have hlen : (pinged ++ [n]).length = pinged.length + 1 := by simp
            have hrest := ih (pinged ++ [n]) s₂ hvisit (by omega)
            rw [BdNode.pingOutOfDateAt, hsome]
            dsimp only
            rw [hping, ok_bind, ← hlen]
            exact hrest
  exact hloop fuel [] s (.nil start s) (by simpa using hfuel)

/-- A node that has heard of two peers at the time 0 and of a third one later. -/
def threePeersNode : BdNode bdStdDht :=
  (((BdNode.new bdZeroNodeId [] [] (fun _ => 0)).addPeer 0 (bytePeer 1) 1).addPeer 900
    (bytePeer 2) 1).addPeer 0 (bytePeer 128) 1

theorem pingOutOfDateAt_threePeers :
    threePeersNode.mNodeSpace.entries.map (outOfDate 1000) = [true, false, true] ∧
    (∀ i ≤ threePeersNode.mNodeSpace.calcSpaceSize,
      (1000 : Int) ≤ 1000 + 200 * i ∧ (1000 : Int) + 200 * i ≤ 1000 + bitdhtMaxSendPeriod) ∧
    threePeersNode.mNodeSpace.calcSpaceSize < 4 ∧
    ∃ pinged s', BdNode.pingOutOfDateAt (fun i => 1000 + 200 * i) 4 0 threePeersNode = .ok s' ∧
      PingRun 1000 threePeersNode pinged s' ∧
      ∀ n peer, threePeersNode.mNodeSpace.entries[n]? = some peer → outOfDate 1000 peer = true →
        n ∈ pinged := by
  have hsize : threePeersNode.mNodeSpace.calcSpaceSize = 3 := by
    decide +kernel
  have hclock : ∀ i ≤ threePeersNode.mNodeSpace.calcSpaceSize,
      (1000 : Int) ≤ 1000 + 200 * i ∧ (1000 : Int) + 200 * i ≤ 1000 + bitdhtMaxSendPeriod := by
    intro i hi
    rw [bitdhtMaxSendPeriod]
    omega
  have hfuel : threePeersNode.mNodeSpace.calcSpaceSize < 4 := by omega
  exact ⟨by decide +kernel, hclock, hfuel, pingOutOfDateAt_once threePeersNode hclock hfuel⟩

end BitDht
