import BitDht.Peer.Space
import Mathlib.Algebra.BigOperators.Group.Finset.Basic
import Mathlib.Algebra.Order.BigOperators.Group.Finset
import Mathlib.Data.List.GetD

/-!
# NetworkSize — the estimates of `calcNetworkSize` and `calcNetworkSizeWithFlag`

Each bucket that is not empty gives an estimate, the number of its peers times the part of the id space
that it stands for, and the result is the mean over some of the buckets.  The loop is written over any
type of words, so that the machine's loop and the one over unbounded numbers are one definition.  The
two agree at every bucket (`stdMachineLoop_toNat`), and only the last conversion can lose something
(`networkSize_exact_iff`).
-/

namespace BitDht

open Finset

variable {mFns : BdDhtFunctions}

/-! ## The loop -/

/-- `BITDHT_ULLONG_BITS` -/
def bitdhtUllongBits : Int := 64

/-- `bdStdDht::bdBucketBitSize` -/
def bitdhtStandardBucketSizeBits : Nat := 5

/-- The local variables of the loop, over the words `W` and the counters `C`. -/
@[ext]
structure NetSizeLoop (W C : Type) where
  sum : W
  noPeers : W
  count : C
  doPrint : Bool
  doAvg : Bool

/-- The largest shift. -/
def shiftLimit (bucketBitSize : Nat) : Int :=
  bitdhtUllongBits - bucketBitSize - 1

/-- `toBig` for the bucket `i`. -/
def shiftTooBig (bucketBitSize i : Nat) : Bool :=
  (bitdhtKeyBitLen : Int) - i > shiftLimit bucketBitSize

/-- `shift` for the bucket `i`. -/
def netShift (bucketBitSize i : Nat) : Int :=
  if shiftTooBig bucketBitSize i then shiftLimit bucketBitSize else (bitdhtKeyBitLen : Int) - i

section loop

variable {W C : Type} [Add W] [Mul W] [ShiftLeft W] [DecidableEq W] [Add C]

/-- `no_nets` for the bucket `i`, where `word` makes words of numbers. -/
def noNets (word : Nat → W) (bucketBitSize i : Nat) : W :=
  word 1 <<< word (netShift bucketBitSize i).toNat

/-- The body of the loop for the bucket `i`, of which `size` peers count. -/
def netSizeStep (word : Nat → W) (number : Nat → C) (bucketBitSize nodesPerBucket : Nat)
    (l : NetSizeLoop W C) (i size : Nat) : NetSizeLoop W C :=
  let toBig := shiftTooBig bucketBitSize i
  -- use doPrint so it acts as a single switch
  let doAvg := if size ≠ 0 ∧ l.doAvg = false ∧ l.doPrint = false then true else l.doAvg
  let doPrint := if size ≠ 0 ∧ l.doPrint = false then true else l.doPrint
  -- reset counters - if empty slot - to discount outliers in average
  let l := if size = 0 then { l with sum := word 0, noPeers := word 0, count := number 0 } else l
  let noPeers := if toBig then l.noPeers else noNets word bucketBitSize i * word size
  if doPrint && doAvg && !toBig then
    -- last average
    let doAvg := if size = nodesPerBucket then false else doAvg
    if noPeers ≠ word 0 then
      { sum := l.sum + noPeers, noPeers := noPeers, count := l.count + number 1,
        doPrint := doPrint, doAvg := doAvg }
    else
      { l with noPeers := noPeers, doPrint := doPrint, doAvg := doAvg }
  else
    { l with noPeers := noPeers, doPrint := doPrint, doAvg := doAvg }

/-- The loop over the first buckets. -/
def netSizeLoop (word : Nat → W) (number : Nat → C) (bucketBitSize nodesPerBucket : Nat)
    (sizes : List Nat) : Nat → NetSizeLoop W C
  | 0 => { sum := word 0, noPeers := word 0, count := number 0, doPrint := false, doAvg := false }
  | i + 1 =>
      netSizeStep word number bucketBitSize nodesPerBucket
        (netSizeLoop word number bucketBitSize nodesPerBucket sizes i) i (sizes.getD i 0)

end loop

/-- The loop in `unsigned long long` and `uint32_t`. -/
def machineLoop (bucketBitSize nodesPerBucket : Nat) (sizes : List Nat) (n : Nat) :
    NetSizeLoop UInt64 UInt32 :=
  netSizeLoop UInt64.ofNat UInt32.ofNat bucketBitSize nodesPerBucket sizes n

/-- The loop in unbounded numbers. -/
def unboundedLoop (bucketBitSize nodesPerBucket : Nat) (sizes : List Nat) (n : Nat) :
    NetSizeLoop Nat Nat :=
  netSizeLoop id id bucketBitSize nodesPerBucket sizes n

/-- What `calcNetworkSize` and `calcNetworkSizeWithFlag` share: the result, for the number of peers
that count in each bucket. -/
def networkSize (bucketBitSize nodesPerBucket : Nat) (sizes : List Nat) : UInt32 :=
  let l := machineLoop bucketBitSize nodesPerBucket sizes sizes.length
  if l.count ≠ 0 then (l.sum / l.count.toUInt64).toUInt32 else 0

/-- The same computation in unbounded numbers. -/
def unboundedNetworkSize (bucketBitSize nodesPerBucket : Nat) (sizes : List Nat) : Nat :=
  let l := unboundedLoop bucketBitSize nodesPerBucket sizes sizes.length
  if l.count ≠ 0 then l.sum / l.count else 0

/-- The numbers of peers that `calcNetworkSize` counts. -/
def BdSpace.peerSizes (s : BdSpace mFns) : List Nat :=
  s.buckets.map List.length

/-- The numbers of peers that `calcNetworkSizeWithFlag` counts. -/
def BdSpace.flaggedSizes (s : BdSpace mFns) (withFlag : UInt32) : List Nat :=
  s.buckets.map (fun entries => entries.countP (fun lit => withFlag &&& lit.mPeerFlags ≠ 0))

/-- `bdSpace::calcNetworkSize`, where `bdBucketBitSize()` is `bucketBitSize`. -/
def BdSpace.calcNetworkSize (s : BdSpace mFns) (bucketBitSize : Nat) : UInt32 :=
  networkSize bucketBitSize mFns.bdNodesPerBucket s.peerSizes

/-- `bdSpace::calcNetworkSizeWithFlag` -/
def BdSpace.calcNetworkSizeWithFlag (s : BdSpace mFns) (bucketBitSize : Nat) (withFlag : UInt32) :
    UInt32 :=
  networkSize bucketBitSize mFns.bdNodesPerBucket (s.flaggedSizes withFlag)

/-! ## One bucket -/

/-- The loop still averages, or has not met a peer yet. -/
def NetSizeLoop.averaging {W C : Type} (l : NetSizeLoop W C) : Bool :=
  l.doAvg || !l.doPrint

section step

variable {W C : Type} [Add W] [Mul W] [ShiftLeft W] [DecidableEq W] [Add C]
  {word : Nat → W} {number : Nat → C} {bucketBitSize nodesPerBucket i size : Nat}

/-- An empty bucket resets the counters. -/
theorem netSizeStep_empty (hmul : ∀ w : W, w * word 0 = word 0) (hfull : 0 ≠ nodesPerBucket)
    (l : NetSizeLoop W C) :
    netSizeStep word number bucketBitSize nodesPerBucket l i 0 =
      { l with sum := word 0, noPeers := word 0, count := number 0 } := by
  simp [netSizeStep, hmul, hfull]

/-- A bucket whose estimate would be too big only sets the flags. -/
theorem netSizeStep_tooBig (hbig : shiftTooBig bucketBitSize i = true) (hsize : size ≠ 0)
    (l : NetSizeLoop W C) :
    netSizeStep word number bucketBitSize nodesPerBucket l i size =
      { l with doPrint := true, doAvg := l.averaging } := by
  rcases l with ⟨sum, noPeers, count, doPrint, doAvg⟩
  cases doPrint with
  | false =>
      cases doAvg with
      | false =>
          simp [netSizeStep, NetSizeLoop.averaging, hbig, hsize]
      | true =>
          simp [netSizeStep, NetSizeLoop.averaging, hbig, hsize]
  | true =>
      cases doAvg with
      | false =>
          simp [netSizeStep, NetSizeLoop.averaging, hbig, hsize]
      | true =>
          simp [netSizeStep, NetSizeLoop.averaging, hbig, hsize]

/-- The estimate of another bucket is counted while the loop averages, which a full bucket ends. -/
theorem netSizeStep_counted (hbig : shiftTooBig bucketBitSize i = false) (hsize : size ≠ 0)
    (hpeers : noNets word bucketBitSize i * word size ≠ word 0) (l : NetSizeLoop W C) :
    netSizeStep word number bucketBitSize nodesPerBucket l i size =
      { sum := if l.averaging then l.sum + noNets word bucketBitSize i * word size else l.sum,
        noPeers := noNets word bucketBitSize i * word size,
        count := if l.averaging then l.count + number 1 else l.count,
        doPrint := true,
        doAvg := l.averaging && decide (size ≠ nodesPerBucket) } := by
  rcases l with ⟨sum, noPeers, count, doPrint, doAvg⟩
  cases doPrint with
  | false =>
      cases doAvg with
      | false =>
          simp [netSizeStep, NetSizeLoop.averaging, hbig, hsize, hpeers]
      | true =>
          simp [netSizeStep, NetSizeLoop.averaging, hbig, hsize, hpeers]
  | true =>
      cases doAvg with
      | false =>
          simp [netSizeStep, NetSizeLoop.averaging, hbig, hsize]
      | true =>
          simp [netSizeStep, NetSizeLoop.averaging, hbig, hsize, hpeers]

end step

/-! ## The shifts of the standard table -/

theorem shiftTooBig_iff {i : Nat} :
    shiftTooBig bitdhtStandardBucketSizeBits i = true ↔ i < 102 := by
  rw [shiftTooBig, decide_eq_true_iff, shiftLimit, bitdhtKeyBitLen, bitdhtUllongBits,
    bitdhtStandardBucketSizeBits]
  omega

theorem netShift_range {i : Nat} (hi : i < 160) :
    1 ≤ netShift bitdhtStandardBucketSizeBits i ∧ netShift bitdhtStandardBucketSizeBits i ≤ 58 := by
  rw [netShift]
  split
  · decide
  · rename_i hbig
    rw [shiftTooBig_iff, not_lt] at hbig
    rw [bitdhtKeyBitLen]
    omega

theorem netShift_of_le {i : Nat} (hi : 102 ≤ i) :
    netShift bitdhtStandardBucketSizeBits i = 160 - i := by
  rw [netShift, if_neg]
  · rfl
  · rw [shiftTooBig_iff, not_lt]
    exact hi

theorem noNets_unbounded {i : Nat} (hi : 102 ≤ i) :
    noNets id bitdhtStandardBucketSizeBits i = 2 ^ (160 - i) := by
  have hshift : (netShift bitdhtStandardBucketSizeBits i).toNat = 160 - i := by
    rw [netShift_of_le hi]
    omega
  rw [noNets, hshift, id, id, Nat.one_shiftLeft]

/-- No shift loses the bit that it shifts. -/
theorem noNets_toNat {i : Nat} (hi : i < 160) :
    (noNets UInt64.ofNat bitdhtStandardBucketSizeBits i).toNat =
      noNets id bitdhtStandardBucketSizeBits i := by
  have hrange := netShift_range hi
  have hshift : (netShift bitdhtStandardBucketSizeBits i).toNat ≤ 58 := by omega
  rw [noNets, noNets]
  generalize (netShift bitdhtStandardBucketSizeBits i).toNat = k at hshift
  have hpow : 2 ^ k ≤ 2 ^ 58 := Nat.pow_le_pow_right (by decide) hshift
  have hk : (UInt64.ofNat k).toNat % 64 = k := by
    rw [UInt64.toNat_ofNat']
    omega
  rw [UInt64.toNat_shiftLeft, hk, id, id, Nat.one_shiftLeft]
  change 1 <<< k % 2 ^ 64 = 2 ^ k
  rw [Nat.one_shiftLeft]
  exact Nat.mod_eq_of_lt (hpow.trans_lt (by decide))

/-! ## The buckets that are counted -/

/-- No bucket before `n` whose estimate is not too big is full. -/
def NoneFull (sizes : List Nat) (n : Nat) : Prop :=
  ∀ k < n, 102 ≤ k → sizes.getD k 0 ≠ 10

instance (sizes : List Nat) (n : Nat) : Decidable (NoneFull sizes n) :=
  inferInstanceAs (Decidable (∀ k < n, 102 ≤ k → sizes.getD k 0 ≠ 10))

/-- The buckets before `n` whose estimates are in the sum: none of those from it on is empty, and none
before it is full. -/
def countedBuckets (sizes : List Nat) (n : Nat) : Finset Nat :=
  (Finset.range n).filter
    (fun j => 102 ≤ j ∧ NoneFull sizes j ∧ ∀ k < n, j ≤ k → sizes.getD k 0 ≠ 0)

theorem noneFull_succ {sizes : List Nat} {n : Nat} :
    NoneFull sizes (n + 1) ↔ NoneFull sizes n ∧ (102 ≤ n → sizes.getD n 0 ≠ 10) := by
  constructor
  · intro h
    exact ⟨fun k hk hlow => h k (by omega) hlow, fun hlow => h n (Nat.lt_succ_self n) hlow⟩
  · rintro ⟨hbefore, hself⟩ k hk hlow
    rcases Nat.lt_succ_iff_lt_or_eq.1 hk with hk | rfl
    · exact hbefore k hk hlow
    · exact hself hlow

theorem mem_countedBuckets {sizes : List Nat} {n j : Nat} : j ∈ countedBuckets sizes n ↔
    j < n ∧ 102 ≤ j ∧ NoneFull sizes j ∧ ∀ k < n, j ≤ k → sizes.getD k 0 ≠ 0 := by
  rw [countedBuckets, Finset.mem_filter, Finset.mem_range]

/-- Behind an empty bucket counting starts again. -/
theorem countedBuckets_empty {sizes : List Nat} {n : Nat} (h : sizes.getD n 0 = 0) :
    countedBuckets sizes (n + 1) = ∅ := by
  refine Finset.eq_empty_of_forall_notMem (fun j hj => ?_)
  rcases mem_countedBuckets.1 hj with ⟨hlt, -, -, hsizes⟩
  exact hsizes n (Nat.lt_succ_self n) (Nat.lt_succ_iff.1 hlt) h

/-- A bucket that is not empty is counted itself, if at all, and leaves those before it. -/
theorem mem_countedBuckets_succ {sizes : List Nat} {n j : Nat} (h : sizes.getD n 0 ≠ 0) :
    j ∈ countedBuckets sizes (n + 1) ↔
      j ∈ countedBuckets sizes n ∨ j = n ∧ 102 ≤ n ∧ NoneFull sizes n := by
  rw [mem_countedBuckets, mem_countedBuckets]
  constructor
  · rintro ⟨hj, hlow, hfull, hsizes⟩
    rcases Nat.lt_succ_iff_lt_or_eq.1 hj with hj | rfl
    · exact .inl ⟨hj, hlow, hfull, fun k hk => hsizes k (by omega)⟩
    · exact .inr ⟨rfl, hlow, hfull⟩
  · rintro (⟨hj, hlow, hfull, hsizes⟩ | ⟨rfl, hlow, hfull⟩)
    · refine ⟨by omega, hlow, hfull, ?_⟩
      intro k hk hjk
      rcases Nat.lt_succ_iff_lt_or_eq.1 hk with hk | rfl
      · exact hsizes k hk hjk
      · exact h
    · refine ⟨Nat.lt_succ_self j, hlow, hfull, ?_⟩
      intro k hk hjk
      rw [show k = j by omega]
      exact h

theorem notMem_countedBuckets_self (sizes : List Nat) (n : Nat) : n ∉ countedBuckets sizes n :=
  fun h => absurd (mem_countedBuckets.1 h).1 (lt_irrefl n)

theorem countedBuckets_insert {sizes : List Nat} {n : Nat} (h : sizes.getD n 0 ≠ 0)
    (hlow : 102 ≤ n) (hfull : NoneFull sizes n) :
    countedBuckets sizes (n + 1) = insert n (countedBuckets sizes n) := by
  ext j
  rw [mem_countedBuckets_succ h, Finset.mem_insert, or_comm, and_iff_left ⟨hlow, hfull⟩]

theorem countedBuckets_same {sizes : List Nat} {n : Nat} (h : sizes.getD n 0 ≠ 0)
    (hcond : ¬ (102 ≤ n ∧ NoneFull sizes n)) :
    countedBuckets sizes (n + 1) = countedBuckets sizes n := by
  ext j
  rw [mem_countedBuckets_succ h, or_iff_left (fun hj => hcond hj.2)]

/-- What the unbounded loop has found in the first `n` buckets. -/
structure NetSizeInv (sizes : List Nat) (n : Nat) (l : NetSizeLoop Nat Nat) : Prop where
  averaging : l.averaging = true ↔ NoneFull sizes n
  sum : l.sum = ∑ j ∈ countedBuckets sizes n, 2 ^ (160 - j) * sizes.getD j 0
  count : l.count = (countedBuckets sizes n).card

namespace NetSizeInv

variable {sizes : List Nat} {n : Nat} {l : NetSizeLoop Nat Nat}

theorem empty (h : NetSizeInv sizes n l) (hsize : sizes.getD n 0 = 0) :
    NetSizeInv sizes (n + 1)
      (netSizeStep id id bitdhtStandardBucketSizeBits 10 l n (sizes.getD n 0)) := by
  rw [hsize, netSizeStep_empty (fun _ => rfl) (by decide)]
  refine ⟨?_, ?_, ?_⟩
  · rw [noneFull_succ, and_iff_left (fun _ => by rw [hsize]; decide)]
    exact h.averaging
  · rw [countedBuckets_empty hsize]
    rfl
  · rw [countedBuckets_empty hsize]
    rfl

theorem tooBig (h : NetSizeInv sizes n l) (hsize : sizes.getD n 0 ≠ 0) (hlow : n < 102) :
    NetSizeInv sizes (n + 1)
      (netSizeStep id id bitdhtStandardBucketSizeBits 10 l n (sizes.getD n 0)) := by
  rw [netSizeStep_tooBig (shiftTooBig_iff.2 hlow) hsize]
  have hsame := countedBuckets_same hsize (fun h => absurd h.1 (not_le.2 hlow))
  refine ⟨?_, ?_, ?_⟩
  · rw [noneFull_succ, and_iff_left (fun h => absurd h (not_le.2 hlow)), ← h.averaging,
      NetSizeLoop.averaging]
    simp
  · rw [hsame]
    exact h.sum
  · rw [hsame]
    exact h.count

theorem counted (h : NetSizeInv sizes n l) (hsize : sizes.getD n 0 ≠ 0) (hlow : 102 ≤ n) :
    NetSizeInv sizes (n + 1)
      (netSizeStep id id bitdhtStandardBucketSizeBits 10 l n (sizes.getD n 0)) := by
  have hbig : shiftTooBig bitdhtStandardBucketSizeBits n = false := by
    rw [← Bool.not_eq_true, shiftTooBig_iff]
    exact not_lt.2 hlow
  have hpeers : noNets id bitdhtStandardBucketSizeBits n * id (sizes.getD n 0) ≠ id 0 := by
    rw [noNets_unbounded hlow]
    exact Nat.mul_ne_zero (Nat.two_pow_pos _).ne' hsize
  rw [netSizeStep_counted hbig hsize hpeers, noNets_unbounded hlow]
  have haveraging : (l.averaging && decide (sizes.getD n 0 ≠ 10)) = true ↔
      NoneFull sizes (n + 1) := by
    rw [noneFull_succ, ← h.averaging]
    simp [hlow]
  -- the estimate joins the sum while no bucket was full
  by_cases hfull : NoneFull sizes n
  · rw [if_pos (h.averaging.2 hfull), if_pos (h.averaging.2 hfull)]
    have hinsert := countedBuckets_insert hsize hlow hfull
    have hself := notMem_countedBuckets_self sizes n
    refine ⟨?_, ?_, ?_⟩
    · rw [← haveraging, NetSizeLoop.averaging]
      simp
    · rw [hinsert, Finset.sum_insert hself, h.sum, Nat.add_comm]
      rfl
    · rw [hinsert, Finset.card_insert_of_notMem hself, h.count]
      rfl
  · have hended : ¬ l.averaging = true := fun hl => hfull (h.averaging.1 hl)
    rw [if_neg hended, if_neg hended]
    have hsame := countedBuckets_same hsize (fun hcond => hfull hcond.2)
    refine ⟨?_, ?_, ?_⟩
    · rw [← haveraging, NetSizeLoop.averaging]
      simp
    · rw [hsame]
      exact h.sum
    · rw [hsame]
      exact h.count

end NetSizeInv

/-- The loop of the standard table, in unbounded numbers. -/
def stdUnboundedLoop (sizes : List Nat) (n : Nat) : NetSizeLoop Nat Nat :=
  unboundedLoop bitdhtStandardBucketSizeBits bdStdDht.bdNodesPerBucket sizes n

/-- The loop of the standard table, in the machine's words. -/
def stdMachineLoop (sizes : List Nat) (n : Nat) : NetSizeLoop UInt64 UInt32 :=
  machineLoop bitdhtStandardBucketSizeBits bdStdDht.bdNodesPerBucket sizes n

theorem stdUnboundedLoop_succ (sizes : List Nat) (n : Nat) : stdUnboundedLoop sizes (n + 1) =
    netSizeStep id id bitdhtStandardBucketSizeBits 10 (stdUnboundedLoop sizes n) n
      (sizes.getD n 0) := rfl

theorem stdMachineLoop_succ (sizes : List Nat) (n : Nat) : stdMachineLoop sizes (n + 1) =
    netSizeStep UInt64.ofNat UInt32.ofNat bitdhtStandardBucketSizeBits 10 (stdMachineLoop sizes n) n
      (sizes.getD n 0) := rfl

theorem netSizeInv (sizes : List Nat) (n : Nat) :
    NetSizeInv sizes n (stdUnboundedLoop sizes n) := by
  induction n with
  | zero =>
      refine ⟨?_, rfl, rfl⟩
      exact iff_of_true rfl (fun k hk => absurd hk (Nat.not_lt_zero k))
  | succ n ih =>
      rw [stdUnboundedLoop_succ]
      by_cases hsize : sizes.getD n 0 = 0
      · exact ih.empty hsize
      · by_cases hlow : n < 102
        · exact ih.tooBig hsize hlow
        · exact ih.counted hsize (not_lt.1 hlow)

/-! ## The machine's loop -/

/-- The numbers that the words of the loop are. -/
def NetSizeLoop.toNat (l : NetSizeLoop UInt64 UInt32) : NetSizeLoop Nat Nat where
  sum := l.sum.toNat
  noPeers := l.noPeers.toNat
  count := l.count.toNat
  doPrint := l.doPrint
  doAvg := l.doAvg

/-- The sum and the number of the estimates stay far below the ends of their types. -/
theorem stdUnboundedLoop_lt {sizes : List Nat} (h : ∀ j, sizes.getD j 0 ≤ 10) {n : Nat}
    (hn : n ≤ 160) :
    (stdUnboundedLoop sizes n).sum < 2 ^ 63 ∧ (stdUnboundedLoop sizes n).count ≤ 160 := by
  rw [(netSizeInv sizes n).sum, (netSizeInv sizes n).count]
  have hsubset : countedBuckets sizes n ⊆ Finset.range 160 \ Finset.range 102 := by
    intro j hj
    rcases mem_countedBuckets.1 hj with ⟨hlt, hlow, -⟩
    rw [Finset.mem_sdiff, Finset.mem_range, Finset.mem_range]
    omega
  constructor
  · calc
      ∑ j ∈ countedBuckets sizes n, 2 ^ (160 - j) * sizes.getD j 0
          ≤ ∑ j ∈ countedBuckets sizes n, 2 ^ (160 - j) * 10 :=
            Finset.sum_le_sum (fun j _ => Nat.mul_le_mul_left _ (h j))
      _ ≤ ∑ j ∈ Finset.range 160 \ Finset.range 102, 2 ^ (160 - j) * 10 :=
            Finset.sum_le_sum_of_subset hsubset
      _ < 2 ^ 63 := by decide
  · calc
      (countedBuckets sizes n).card ≤ (Finset.range 160 \ Finset.range 102).card :=
            Finset.card_le_card hsubset
      _ ≤ 160 := by decide

/-- The estimate of a bucket stays far below the end of its type, too. -/
theorem noPeers_le {i size : Nat} (hlow : 102 ≤ i) (hsize : size ≤ 10) :
    noNets id bitdhtStandardBucketSizeBits i * size ≤ 2 ^ 58 * 10 := by
  rw [noNets_unbounded hlow]
  exact Nat.mul_le_mul (Nat.pow_le_pow_right (by decide) (by omega)) hsize

theorem noPeers_toNat {i size : Nat} (hi : i < 160) (hlow : 102 ≤ i) (hsize : size ≤ 10) :
    (noNets UInt64.ofNat bitdhtStandardBucketSizeBits i * UInt64.ofNat size).toNat =
      noNets id bitdhtStandardBucketSizeBits i * size := by
  rw [UInt64.toNat_mul, noNets_toNat hi, UInt64.toNat_ofNat',
    Nat.mod_eq_of_lt (show size < 2 ^ 64 by omega)]
  exact Nat.mod_eq_of_lt ((noPeers_le hlow hsize).trans_lt (by decide))

/-- One bucket leaves the machine's words what the unbounded numbers are, if the sum and the count have
room for its estimate. -/
theorem netSizeStep_toNat {l : NetSizeLoop UInt64 UInt32} {i size : Nat} (hi : i < 160)
    (hsize : size ≤ 10) (hsum : l.toNat.sum < 2 ^ 63) (hcount : l.toNat.count ≤ 160) :
    (netSizeStep UInt64.ofNat UInt32.ofNat bitdhtStandardBucketSizeBits 10 l i size).toNat =
      netSizeStep id id bitdhtStandardBucketSizeBits 10 l.toNat i size := by
  by_cases hzero : size = 0
  · subst hzero
    rw [netSizeStep_empty (fun _ => UInt64.mul_zero) (by decide),
      netSizeStep_empty (fun _ => rfl) (by decide)]
    rfl
  · cases hbig : shiftTooBig bitdhtStandardBucketSizeBits i with
    | true =>
        rw [netSizeStep_tooBig hbig hzero, netSizeStep_tooBig hbig hzero]
        rfl
    | false =>
        have hlow : 102 ≤ i := by
          rw [← Bool.not_eq_true, shiftTooBig_iff, not_lt] at hbig
          exact hbig
        have hpos : noNets id bitdhtStandardBucketSizeBits i * size ≠ 0 := by
          rw [noNets_unbounded hlow]
          exact Nat.mul_ne_zero (Nat.two_pow_pos _).ne' hzero
        have hpeers := noPeers_toNat hi hlow hsize
        have hne : noNets UInt64.ofNat bitdhtStandardBucketSizeBits i * UInt64.ofNat size ≠
            UInt64.ofNat 0 := by
          intro h
          rw [h] at hpeers
          exact hpos hpeers.symm
        have hadd : (l.sum + noNets UInt64.ofNat bitdhtStandardBucketSizeBits i *
            UInt64.ofNat size).toNat =
              l.sum.toNat + noNets id bitdhtStandardBucketSizeBits i * size := by
          rw [UInt64.toNat_add, hpeers]
          have hle := noPeers_le hlow hsize
          exact Nat.mod_eq_of_lt ((Nat.add_lt_add_of_lt_of_le hsum hle).trans (by decide))
        have hnext : (l.count + UInt32.ofNat 1).toNat = l.count.toNat + 1 := by
          rw [UInt32.toNat_add]
          exact Nat.mod_eq_of_lt ((Nat.add_le_add_right hcount 1).trans_lt (by decide))
        rw [netSizeStep_counted hbig hzero hne, netSizeStep_counted hbig hzero hpos]
        have havg : l.toNat.averaging = l.averaging := rfl
        ext
        · rw [havg]
          cases l.averaging with
          | true =>
              exact hadd
          | false =>
              rfl
        · exact hpeers
        · rw [havg]
          cases l.averaging with
          | true =>
              exact hnext
          | false =>
              rfl
        · rfl
        · rfl

/-- The machine's loop computes what the unbounded one does. -/
theorem stdMachineLoop_toNat {sizes : List Nat} (h : ∀ j, sizes.getD j 0 ≤ 10) {n : Nat}
    (hn : n ≤ 160) : (stdMachineLoop sizes n).toNat = stdUnboundedLoop sizes n := by
  induction n with
  | zero =>
      rfl
  | succ n ih =>
      have hprev := ih (by omega)
      have hlt := stdUnboundedLoop_lt h (show n ≤ 160 by omega)
      rw [← hprev] at hlt
      rw [stdMachineLoop_succ, stdUnboundedLoop_succ, netSizeStep_toNat (by omega) (h n) hlt.1 hlt.2,
        hprev]

/-! ## The estimates -/

/-- The mean of the estimates that are counted is a number of 32 bits. -/
def MeanInRange (sizes : List Nat) : Prop :=
  countedBuckets sizes sizes.length = ∅ ∨
    ∑ j ∈ countedBuckets sizes sizes.length, 2 ^ (160 - j) * sizes.getD j 0 <
      2 ^ 32 * (countedBuckets sizes sizes.length).card

instance (sizes : List Nat) : Decidable (MeanInRange sizes) :=
  inferInstanceAs (Decidable (_ ∨ _))

/-- The estimate `netSize` for the table with `sizes` peers in its buckets is computed with shifts that
are defined, in words that hold every number on the way, and is the estimate of the computation in
unbounded numbers. -/
structure EstimateExact (sizes : List Nat) (netSize : UInt32) : Prop where
  shift : ∀ i < sizes.length, 0 ≤ netShift bitdhtStandardBucketSizeBits i ∧
    netShift bitdhtStandardBucketSizeBits i ≤ 63
  shifted : ∀ i < sizes.length, (noNets UInt64.ofNat bitdhtStandardBucketSizeBits i).toNat =
    noNets id bitdhtStandardBucketSizeBits i
  noWrap : ∀ n ≤ sizes.length, (stdMachineLoop sizes n).toNat = stdUnboundedLoop sizes n
  result : netSize.toNat =
    unboundedNetworkSize bitdhtStandardBucketSizeBits bdStdDht.bdNodesPerBucket sizes

/-- The division, too, is that of the unbounded numbers, and then the result is narrowed. -/
theorem networkSize_toNat {sizes : List Nat} (h : ∀ j, sizes.getD j 0 ≤ 10)
    (hlen : sizes.length = 160) :
    (networkSize bitdhtStandardBucketSizeBits bdStdDht.bdNodesPerBucket sizes).toNat =
      unboundedNetworkSize bitdhtStandardBucketSizeBits bdStdDht.bdNodesPerBucket sizes % 2 ^ 32 := by
  have hloop := stdMachineLoop_toNat h hlen.le
  have hsum := congrArg NetSizeLoop.sum hloop
  have hcount := congrArg NetSizeLoop.count hloop
  change (if (stdMachineLoop sizes sizes.length).count ≠ 0 then
      ((stdMachineLoop sizes sizes.length).sum /
        (stdMachineLoop sizes sizes.length).count.toUInt64).toUInt32 else 0).toNat =
    (if (stdUnboundedLoop sizes sizes.length).count ≠ 0 then
      (stdUnboundedLoop sizes sizes.length).sum / (stdUnboundedLoop sizes sizes.length).count
      else 0) % 2 ^ 32
  rw [← hsum, ← hcount]
  have hzero : (stdMachineLoop sizes sizes.length).count ≠ 0 ↔
      (stdMachineLoop sizes sizes.length).toNat.count ≠ 0 :=
    not_congr UInt32.toNat_inj.symm
  by_cases hne : (stdMachineLoop sizes sizes.length).toNat.count ≠ 0
  · rw [if_pos hne, if_pos (hzero.2 hne), UInt64.toNat_toUInt32, UInt64.toNat_div,
      UInt32.toNat_toUInt64]
    rfl
  · rw [if_neg hne, if_neg (fun hcon => hne (hzero.1 hcon))]
    rfl

theorem unboundedNetworkSize_lt_iff (sizes : List Nat) :
    unboundedNetworkSize bitdhtStandardBucketSizeBits bdStdDht.bdNodesPerBucket sizes < 2 ^ 32 ↔
      MeanInRange sizes := by
  have hinv := netSizeInv sizes sizes.length
  change (if (stdUnboundedLoop sizes sizes.length).count ≠ 0 then
      (stdUnboundedLoop sizes sizes.length).sum / (stdUnboundedLoop sizes sizes.length).count
      else 0) < 2 ^ 32 ↔ _
  rw [hinv.count, hinv.sum, MeanInRange, ← Finset.card_eq_zero]
  by_cases hzero : (countedBuckets sizes sizes.length).card = 0
  · rw [if_neg (not_not.2 hzero)]
    exact iff_of_true (by decide) (.inl hzero)
  · rw [if_pos hzero, or_iff_right hzero, Nat.div_lt_iff_lt_mul (Nat.pos_of_ne_zero hzero)]

/-- Shifts and words never fail, and the estimate is exact if and only if the mean is in range. -/
theorem estimateExact_iff {sizes : List Nat} (h : ∀ j, sizes.getD j 0 ≤ 10)
    (hlen : sizes.length = 160) :
    EstimateExact sizes
        (networkSize bitdhtStandardBucketSizeBits bdStdDht.bdNodesPerBucket sizes) ↔
      MeanInRange sizes := by
  rw [← unboundedNetworkSize_lt_iff]
  constructor
  · intro hexact
    rw [← hexact.result]
    exact UInt32.toNat_lt _
  · intro hlt
    refine ⟨?_, ?_, ?_, ?_⟩
    · intro i hi
      have hrange := netShift_range (hlen ▸ hi)
      omega
    · intro i hi
      exact noNets_toNat (hlen ▸ hi)
    · intro n hn
      exact stdMachineLoop_toNat h (hlen ▸ hn)
    · rw [networkSize_toNat h hlen, Nat.mod_eq_of_lt hlt]

/-- No count of peers of a bucket is greater than the bucket. -/
theorem getD_map_le {buckets : List BdBucket} {f : BdBucket → Nat}
    (hsizes : ∀ b ∈ buckets, b.length ≤ 10) (hf : ∀ b : BdBucket, f b ≤ b.length) (j : Nat) :
    (buckets.map f).getD j 0 ≤ 10 := by
  rcases Nat.lt_or_ge j (buckets.map f).length with hlt | hge
  · rw [List.getD_eq_getElem _ _ hlt, List.getElem_map]
    exact (hf _).trans (hsizes _ (List.getElem_mem _))
  · rw [List.getD_eq_default _ _ hge]
    exact Nat.zero_le 10

/-- For a table with at most ten peers in each bucket both estimates are exact if and only if the means
that they take are in range. -/
theorem networkSize_exact_iff (s : BdSpace bdStdDht) (hsizes : ∀ b ∈ s.buckets, b.length ≤ 10) :
    (EstimateExact s.peerSizes (s.calcNetworkSize bitdhtStandardBucketSizeBits) ↔
      MeanInRange s.peerSizes) ∧
    ∀ withFlag, EstimateExact (s.flaggedSizes withFlag)
        (s.calcNetworkSizeWithFlag bitdhtStandardBucketSizeBits withFlag) ↔
      MeanInRange (s.flaggedSizes withFlag) := by
  have hlen : ∀ f : BdBucket → Nat, (s.buckets.map f).length = 160 := by
    intro f
    rw [List.length_map, s.size]
    rfl
  constructor
  · exact estimateExact_iff (getD_map_le hsizes (fun _ => le_rfl)) (hlen _)
  · intro withFlag
    exact estimateExact_iff (getD_map_le hsizes (fun _ => List.countP_le_length)) (hlen _)

/-- The id in which only the bit `i` is set. -/
def oneBitId (i : Nat) : BdNodeId where
  data := (List.range 20).map (fun j => if j = (159 - i) / 8 then UInt8.ofNat (2 ^ (i % 8)) else 0)
  size := rfl

/-- The table of the id zero with one peer in each bucket from `n` on. -/
def nearSpace (n : Nat) : BdSpace bdStdDht :=
  (List.range' n (160 - n)).foldl (fun s i => (s.addPeer 0 ⟨⟨afInet, 1, 2⟩, oneBitId i⟩ 1).1)
    (.new ⟨List.replicate 20 0, rfl⟩)

/-- Ten peers in the last ten buckets stand for 204. -/
theorem networkSize_exact_near :
    (∀ b ∈ (nearSpace 150).buckets, b.length ≤ 10) ∧
      EstimateExact (nearSpace 150).peerSizes
        ((nearSpace 150).calcNetworkSize bitdhtStandardBucketSizeBits) := by
  have hsizes : ∀ b ∈ (nearSpace 150).buckets, b.length ≤ 10 := by
    decide +kernel
  refine ⟨hsizes, (networkSize_exact_iff _ hsizes).1.2 ?_⟩
  decide +kernel

/-- One peer in each of the last 37 buckets stand for more peers than 32 bits can count. -/
theorem networkSize_narrowed :
    (∀ b ∈ (nearSpace 123).buckets, b.length ≤ 10) ∧
      ¬ EstimateExact (nearSpace 123).peerSizes
        ((nearSpace 123).calcNetworkSize bitdhtStandardBucketSizeBits) := by
  refine ⟨by decide +kernel, ?_⟩
  intro h
  have hresult := h.result
  revert hresult
  decide +kernel

end BitDht
