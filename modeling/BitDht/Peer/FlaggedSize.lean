import BitDht.Peer.NetworkSize

/-!
# FlaggedSize — the two copies of the estimate

`calcNetworkSize` and `calcNetworkSizeWithFlag` are two copies of one loop in the source, and here each
stands as the source has it.  A pass of the second one over a bucket does to the variables that both
have what a pass of the first one does over the flagged peers of the bucket (`flaggedStep_erase`), so
the two stay in step over any table.
-/

namespace BitDht

variable {mFns : BdDhtFunctions}

/-! ## `calcNetworkSize` -/

/-- A pass of `calcNetworkSize` over the bucket `it`, which is the bucket `i`. -/
def calcNetworkSizeStep (bucketBitSize nodesPerBucket i : Nat) (l : NetSizeLoop UInt64 UInt32)
    (it : BdBucket) : NetSizeLoop UInt64 UInt32 :=
  let size := it.length
  let shift : Int := bitdhtKeyBitLen - i
  let toBig := decide (shift > bitdhtUllongBits - bucketBitSize - 1)
  let shift := if toBig then bitdhtUllongBits - bucketBitSize - 1 else shift
  let noNets : UInt64 := 1 <<< UInt64.ofNat shift.toNat
  -- use doPrint so it acts as a single switch
  let doAvg := if size ≠ 0 ∧ l.doAvg = false ∧ l.doPrint = false then true else l.doAvg
  let doPrint := if size ≠ 0 ∧ l.doPrint = false then true else l.doPrint
  -- reset counters - if empty slot - to discount outliers in average
  let sum := if size = 0 then 0 else l.sum
  let noPeers := if size = 0 then 0 else l.noPeers
  let count := if size = 0 then 0 else l.count
  let noPeers := if toBig then noPeers else noNets * UInt64.ofNat size
  if doPrint && doAvg && !toBig then
    -- last average
    let doAvg := if size = nodesPerBucket then false else doAvg
    if noPeers ≠ 0 then
      { sum := sum + noPeers, noPeers := noPeers, count := count + 1, doPrint := doPrint,
        doAvg := doAvg }
    else
      { sum := sum, noPeers := noPeers, count := count, doPrint := doPrint, doAvg := doAvg }
  else
    { sum := sum, noPeers := noPeers, count := count, doPrint := doPrint, doAvg := doAvg }

/-- The loop of `calcNetworkSize` over the buckets from the bucket `i` on. -/
def calcNetworkSizeLoop (bucketBitSize nodesPerBucket i : Nat) (l : NetSizeLoop UInt64 UInt32) :
    List BdBucket → NetSizeLoop UInt64 UInt32
  | [] => l
  | it :: buckets =>
      calcNetworkSizeLoop bucketBitSize nodesPerBucket (i + 1)
        (calcNetworkSizeStep bucketBitSize nodesPerBucket i l it) buckets

/-- `bdSpace::calcNetworkSize`, as the source writes it. -/
def BdSpace.netSizeByLoop (s : BdSpace mFns) (bucketBitSize : Nat) : UInt32 :=
  let l := calcNetworkSizeLoop bucketBitSize mFns.bdNodesPerBucket 0
    { sum := 0, noPeers := 0, count := 0, doPrint := false, doAvg := false } s.buckets
  if l.count ≠ 0 then (l.sum / l.count.toUInt64).toUInt32 else 0

/-! ## `calcNetworkSizeWithFlag` -/

/-- The local variables of `calcNetworkSizeWithFlag`, one more than those of the other function. -/
structure FlaggedSizeLoop extends NetSizeLoop UInt64 UInt32 where
  totalcount : UInt32

/-- The loop over the entries of a bucket. -/
def countFlagged (withFlag : UInt32) (size : Nat) : BdBucket → Nat
  | [] => size
  | lit :: entries =>
      countFlagged withFlag (if withFlag &&& lit.mPeerFlags ≠ 0 then size + 1 else size) entries

/-- A pass of `calcNetworkSizeWithFlag` over the bucket `it`, which is the bucket `i`. -/
def calcNetworkSizeWithFlagStep (withFlag : UInt32) (bucketBitSize nodesPerBucket i : Nat)
    (l : FlaggedSizeLoop) (it : BdBucket) : FlaggedSizeLoop :=
  let size := countFlagged withFlag 0 it
  let totalcount := l.totalcount + UInt32.ofNat size
  let shift : Int := bitdhtKeyBitLen - i
  let toBig := decide (shift > bitdhtUllongBits - bucketBitSize - 1)
  let shift := if toBig then bitdhtUllongBits - bucketBitSize - 1 else shift
  let noNets : UInt64 := 1 <<< UInt64.ofNat shift.toNat
  -- use doPrint so it acts as a single switch
  let doAvg := if size ≠ 0 ∧ l.doAvg = false ∧ l.doPrint = false then true else l.doAvg
  let doPrint := if size ≠ 0 ∧ l.doPrint = false then true else l.doPrint
  -- reset counters - if empty slot - to discount outliers in average
  let sum := if size = 0 then 0 else l.sum
  let noPeers := if size = 0 then 0 else l.noPeers
  let count := if size = 0 then 0 else l.count
  let noPeers := if toBig then noPeers else noNets * UInt64.ofNat size
  if doPrint && doAvg && !toBig then
    -- last average
    let doAvg := if size = nodesPerBucket then false else doAvg
    if noPeers ≠ 0 then
      { sum := sum + noPeers, noPeers := noPeers, count := count + 1, totalcount := totalcount,
        doPrint := doPrint, doAvg := doAvg }
    else
      { sum := sum, noPeers := noPeers, count := count, totalcount := totalcount,
        doPrint := doPrint, doAvg := doAvg }
  else
    { sum := sum, noPeers := noPeers, count := count, totalcount := totalcount,
      doPrint := doPrint, doAvg := doAvg }

/-- The loop of `calcNetworkSizeWithFlag` over the buckets from the bucket `i` on. -/
def calcNetworkSizeWithFlagLoop (withFlag : UInt32) (bucketBitSize nodesPerBucket i : Nat)
    (l : FlaggedSizeLoop) : List BdBucket → FlaggedSizeLoop
  | [] => l
  | it :: buckets =>
      calcNetworkSizeWithFlagLoop withFlag bucketBitSize nodesPerBucket (i + 1)
        (calcNetworkSizeWithFlagStep withFlag bucketBitSize nodesPerBucket i l it) buckets

/-- `bdSpace::calcNetworkSizeWithFlag`, as the source writes it. -/
def BdSpace.netSizeWithFlagByLoop (s : BdSpace mFns) (bucketBitSize : Nat) (withFlag : UInt32) :
    UInt32 :=
  let l := calcNetworkSizeWithFlagLoop withFlag bucketBitSize mFns.bdNodesPerBucket 0
    { sum := 0, noPeers := 0, count := 0, totalcount := 0, doPrint := false, doAvg := false }
    s.buckets
  if l.count ≠ 0 then (l.sum / l.count.toUInt64).toUInt32 else 0

/-! ## The flagged peers -/

/-- The peers of a bucket that share a bit with `withFlag`. -/
def flaggedEntries (withFlag : UInt32) (it : BdBucket) : BdBucket :=
  it.filter (fun lit => withFlag &&& lit.mPeerFlags ≠ 0)

/-- The table that keeps only those. -/
def BdSpace.keepFlagged (s : BdSpace mFns) (withFlag : UInt32) : BdSpace mFns :=
  { s with
    buckets := s.buckets.map (flaggedEntries withFlag)
    size := by rw [List.length_map, s.size] }

theorem flaggedEntries_cons (withFlag : UInt32) (lit : BdPeer) (entries : BdBucket) :
    flaggedEntries withFlag (lit :: entries) =
      if withFlag &&& lit.mPeerFlags ≠ 0 then lit :: flaggedEntries withFlag entries
      else flaggedEntries withFlag entries := by
  simp [flaggedEntries, List.filter_cons]

theorem countFlagged_eq (withFlag : UInt32) (size : Nat) (it : BdBucket) :
    countFlagged withFlag size it = size + (flaggedEntries withFlag it).length := by
  induction it generalizing size with
  | nil =>
      rfl
  | cons lit entries ih =>
      rw [countFlagged, ih, flaggedEntries_cons]
      by_cases h : withFlag &&& lit.mPeerFlags ≠ 0
      · rw [if_pos h, if_pos h, List.length_cons]
        omega
      · rw [if_neg h, if_neg h]

/-! ## In step -/

variable {withFlag : UInt32} {bucketBitSize nodesPerBucket : Nat}

/-- One bucket. -/
theorem flaggedStep_erase (i : Nat) (l : FlaggedSizeLoop) (it : BdBucket) :
    (calcNetworkSizeWithFlagStep withFlag bucketBitSize nodesPerBucket i l it).toNetSizeLoop =
      calcNetworkSizeStep bucketBitSize nodesPerBucket i l.toNetSizeLoop
        (flaggedEntries withFlag it) := by
  have hsize : countFlagged withFlag 0 it = (flaggedEntries withFlag it).length := by
    rw [countFlagged_eq, Nat.zero_add]
  simp only [calcNetworkSizeWithFlagStep, calcNetworkSizeStep, hsize]
  -- both branch on the average, and then on the estimate
  rw [apply_ite FlaggedSizeLoop.toNetSizeLoop, apply_ite FlaggedSizeLoop.toNetSizeLoop]

/-- All buckets. -/
theorem flaggedLoop_erase (i : Nat) (l : FlaggedSizeLoop) (buckets : List BdBucket) :
    (calcNetworkSizeWithFlagLoop withFlag bucketBitSize nodesPerBucket i l buckets).toNetSizeLoop =
      calcNetworkSizeLoop bucketBitSize nodesPerBucket i l.toNetSizeLoop
        (buckets.map (flaggedEntries withFlag)) := by
  induction buckets generalizing i l with
  | nil =>
      rfl
  | cons it buckets ih =>
      rw [calcNetworkSizeWithFlagLoop, ih, flaggedStep_erase, List.map_cons, calcNetworkSizeLoop]

/-! ## The shared loop -/

/-- A pass is that of the loop over any type of words. -/
theorem calcNetworkSizeStep_eq (i : Nat) (l : NetSizeLoop UInt64 UInt32) (it : BdBucket) :
    calcNetworkSizeStep bucketBitSize nodesPerBucket i l it =
      netSizeStep UInt64.ofNat UInt32.ofNat bucketBitSize nodesPerBucket l i it.length := by
  by_cases hempty : it.length = 0
  · simp only [calcNetworkSizeStep, netSizeStep, hempty, if_true]
    rfl
  · simp only [calcNetworkSizeStep, netSizeStep, hempty, if_false]
    rfl

/-- The loop over the buckets behind `before` goes on where the indexed loop has got to. -/
theorem calcNetworkSizeLoop_eq (before buckets : List BdBucket) :
    calcNetworkSizeLoop bucketBitSize nodesPerBucket before.length
        (machineLoop bucketBitSize nodesPerBucket ((before ++ buckets).map List.length)
          before.length) buckets =
      machineLoop bucketBitSize nodesPerBucket ((before ++ buckets).map List.length)
        (before ++ buckets).length := by
  induction buckets generalizing before with
  | nil =>
      rw [List.append_nil, calcNetworkSizeLoop]
  | cons it buckets ih =>
      have hnext := ih (before ++ [it])
      rw [List.append_assoc, List.singleton_append, List.length_append, List.length_singleton]
        at hnext
      have hsize : ((before ++ it :: buckets).map List.length).getD before.length 0 = it.length := by
        simp
      rw [calcNetworkSizeLoop, calcNetworkSizeStep_eq, ← hsize]
      exact hnext

theorem BdSpace.netSizeByLoop_eq (s : BdSpace mFns) (bucketBitSize : Nat) :
    s.netSizeByLoop bucketBitSize = s.calcNetworkSize bucketBitSize := by
  have hloop := @calcNetworkSizeLoop_eq bucketBitSize mFns.bdNodesPerBucket [] s.buckets
  rw [List.nil_append] at hloop
  have hlen : s.peerSizes.length = s.buckets.length := List.length_map _
  rw [calcNetworkSize, networkSize, hlen]
  exact congrArg (fun l : NetSizeLoop UInt64 UInt32 =>
    if l.count ≠ 0 then (l.sum / l.count.toUInt64).toUInt32 else 0) hloop

theorem BdSpace.peerSizes_keepFlagged (s : BdSpace mFns) (withFlag : UInt32) :
    (s.keepFlagged withFlag).peerSizes = s.flaggedSizes withFlag := by
  rw [peerSizes, keepFlagged, List.map_map, flaggedSizes]
  refine List.map_congr_left (fun it _ => ?_)
  rw [Function.comp_apply, flaggedEntries, List.countP_eq_length_filter]

/-! ## The estimates -/

/-- The second copy finds what the first one finds in the table of the flagged peers. -/
theorem BdSpace.netSizeWithFlagByLoop_eq (s : BdSpace mFns) (bucketBitSize : Nat)
    (withFlag : UInt32) :
    s.netSizeWithFlagByLoop bucketBitSize withFlag =
      (s.keepFlagged withFlag).netSizeByLoop bucketBitSize := by
  have hloop := @flaggedLoop_erase withFlag bucketBitSize mFns.bdNodesPerBucket 0
    { sum := 0, noPeers := 0, count := 0, totalcount := 0, doPrint := false, doAvg := false }
    s.buckets
  exact congrArg (fun l : NetSizeLoop UInt64 UInt32 =>
    if l.count ≠ 0 then (l.sum / l.count.toUInt64).toUInt32 else 0) hloop

/-- So it is of the shared loop. -/
theorem BdSpace.netSizeWithFlagByLoop_eq_shared (s : BdSpace mFns) (bucketBitSize : Nat)
    (withFlag : UInt32) : s.netSizeWithFlagByLoop bucketBitSize withFlag =
      s.calcNetworkSizeWithFlag bucketBitSize withFlag := by
  rw [s.netSizeWithFlagByLoop_eq, netSizeByLoop_eq, calcNetworkSize, s.peerSizes_keepFlagged,
    calcNetworkSizeWithFlag]

/-- The estimate with a flag is the estimate of the table that keeps only the flagged peers. -/
theorem BdSpace.calcNetworkSizeWithFlag_keepFlagged (s : BdSpace mFns) (bucketBitSize : Nat)
    (withFlag : UInt32) :
    s.netSizeWithFlagByLoop bucketBitSize withFlag =
        (s.keepFlagged withFlag).netSizeByLoop bucketBitSize ∧
      s.calcNetworkSizeWithFlag bucketBitSize withFlag =
        (s.keepFlagged withFlag).calcNetworkSize bucketBitSize := by
  constructor
  · exact s.netSizeWithFlagByLoop_eq bucketBitSize withFlag
  · rw [← s.netSizeWithFlagByLoop_eq_shared, s.netSizeWithFlagByLoop_eq,
      BdSpace.netSizeByLoop_eq]

end BitDht
