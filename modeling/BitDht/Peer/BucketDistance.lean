import BitDht.Number.BigEndian
import BitDht.Peer.StdDht
import Mathlib.Data.Nat.Log
import Mathlib.Order.Bounds.Basic

/-!
# BucketDistance — the distance of two ids as a number

A metric is a number of 160 bits, its first byte being the highest one.  The order of the metrics is
that of the numbers, the exclusive or of two ids is that of their numbers, and the bucket of a metric
is the logarithm of its number (`bucketDistance_laws`).  Each draw of `bdStdRandomMidId` takes a byte
off the distance to the target (`value_midId_lt`), which makes the walk of `midWalk` reach it
(`midWalk_target`).
-/

namespace BitDht

/-- The number that an id or a metric is in big-endian notation. -/
def BdNodeId.value (id : BdNodeId) : Nat :=
  BigEndian.value id.data

theorem BdNodeId.value_lt (id : BdNodeId) : id.value < 2 ^ bitdhtKeyBitLen := by
  have hlt := BigEndian.value_lt id.data
  rw [id.size] at hlt
  exact hlt

theorem value_lt_iff {a b : BdNodeId} : a < b ↔ a.value < b.value :=
  BigEndian.lt_iff (a.size.trans b.size.symm)

theorem value_inj {a b : BdNodeId} (h : a.value = b.value) : a = b := by
  rcases lt_trichotomy a b with hlt | heq | hgt
  · exact absurd h (value_lt_iff.1 hlt).ne
  · exact heq
  · exact absurd h (value_lt_iff.1 hgt).ne'

theorem value_bdStdDistance (a b : BdNodeId) :
    (bdStdDistance a b).value = a.value ^^^ b.value :=
  BigEndian.value_xor (a.size.trans b.size.symm)

/-- No other id has the distance zero. -/
theorem value_bdStdDistance_eq_zero {a b : BdNodeId} (h : (bdStdDistance a b).value = 0) :
    b = a := by
  rw [value_bdStdDistance, Nat.xor_eq_zero_iff] at h
  exact value_inj h.symm

/-! ## The scan for the highest bit -/

/-- A byte is tested for one bit. -/
theorem and_two_pow_bne_zero (b : UInt8) {k : Nat} (hk : k < 8) :
    (UInt8.ofNat (2 ^ k) &&& b != 0) = b.toNat.testBit k := by
  have hpow : 2 ^ k < 2 ^ 8 := Nat.pow_lt_pow_right (by decide) hk
  have hand : (UInt8.ofNat (2 ^ k) &&& b).toNat = 2 ^ k * (b.toNat.testBit k).toNat := by
    rw [UInt8.toNat_and, UInt8.toNat_ofNat', Nat.mod_eq_of_lt hpow, Nat.two_pow_and]
  rw [Bool.eq_iff_iff, bne_iff_ne, ne_eq, ← UInt8.toNat_inj, hand]
  cases b.toNat.testBit k with
  | false =>
      simp
  | true =>
      simp

theorem testComp_eq {m : BdMetric} {i : Nat} (h : i < bitdhtKeyBitLen) :
    testComp m i = m.value.testBit (bitdhtKeyBitLen - i - 1) := by
  have hbit := @BigEndian.testBit_value m.data i (by rw [m.size]; exact h)
  have hindex : bitdhtKeyBitLen - i - 1 = 8 * m.data.length - 1 - i := by
    rw [m.size, bitdhtKeyBitLen, bitdhtKeyLen]
    omega
  rw [BdNodeId.value, hindex, hbit]
  exact and_two_pow_bne_zero _ (by omega)

/-- Where the first `i` bits are zero, the number is small. -/
theorem value_lt_of_testComp {m : BdMetric} {i : Nat} (hi : i ≤ bitdhtKeyBitLen)
    (h : ∀ j < i, testComp m j = false) : m.value < 2 ^ (bitdhtKeyBitLen - i) := by
  refine Nat.lt_pow_two_of_testBit m.value (fun j hj => ?_)
  by_cases hj' : j < bitdhtKeyBitLen
  · have hmiss := h (bitdhtKeyBitLen - j - 1) (by omega)
    rw [testComp_eq (by omega)] at hmiss
    have hindex : bitdhtKeyBitLen - (bitdhtKeyBitLen - j - 1) - 1 = j := by omega
    rw [hindex] at hmiss
    exact hmiss
  · refine Nat.testBit_lt_two_pow (m.value_lt.trans_le ?_)
    exact Nat.pow_le_pow_right (by decide) (not_lt.1 hj')

/-- The scan stops at the highest bit of the number. -/
theorem bdStdBucketDistance_eq (m : BdMetric) : bdStdBucketDistance m = Nat.log 2 m.value := by
  rw [bdStdBucketDistance]
  split
  · rename_i i hfind
    rcases List.find?_range_eq_some.1 hfind with ⟨hbit, hi, hbefore⟩
    rw [List.mem_range] at hi
    rw [testComp_eq hi] at hbit
    have hlt := value_lt_of_testComp hi.le (fun j hj => by simpa using hbefore j hj)
    have hexp : bitdhtKeyBitLen - i = bitdhtKeyBitLen - i - 1 + 1 := by omega
    rw [hexp] at hlt
    exact (Nat.log_eq_of_pow_le_of_lt_pow (Nat.ge_two_pow_of_testBit hbit) hlt).symm
  · rename_i hfind
    rw [List.find?_range_eq_none] at hfind
    have hlt := value_lt_of_testComp le_rfl (fun j hj => by simpa using hfind j hj)
    rw [Nat.sub_self, pow_zero, Nat.lt_one_iff] at hlt
    rw [hlt, Nat.log_zero_right]

/-- A metric stands in a bucket below `n` if its number is below `2 ^ n`, and conversely. -/
theorem bdStdBucketDistance_lt_iff {m : BdMetric} {n : Nat} (hn : n ≠ 0) :
    bdStdBucketDistance m < n ↔ m.value < 2 ^ n := by
  rw [bdStdBucketDistance_eq]
  by_cases hm : m.value = 0
  · rw [hm, Nat.log_zero_right]
    exact iff_of_true (Nat.pos_of_ne_zero hn) (Nat.two_pow_pos n)
  · exact Nat.log_lt_iff_lt_pow (by decide) hm

/-! ## The laws of the buckets -/

/-- The bucket of a metric is the largest exponent of two that its number reaches. -/
theorem isGreatest_bdStdBucketDistance {m : BdMetric} (hm : m.value ≠ 0) :
    IsGreatest {k | 2 ^ k ≤ m.value} (bdStdBucketDistance m) := by
  rw [bdStdBucketDistance_eq]
  refine ⟨Nat.pow_log_le_self 2 hm, ?_⟩
  intro k hk
  exact (Nat.le_log_iff_pow_le (by decide) hm).2 hk

theorem bdStdBucketDistance_mono {a b : BdMetric} (h : a ≤ b) :
    bdStdBucketDistance a ≤ bdStdBucketDistance b := by
  rw [bdStdBucketDistance_eq, bdStdBucketDistance_eq]
  refine Nat.log_mono_right (not_lt.1 (fun hlt => ?_))
  exact (value_lt_iff.2 hlt).not_ge h

/-- The buckets of the distances of three ids are as the sides of an ultrametric triangle. -/
theorem bdStdBucketDistance_triangle (a b c : BdNodeId) :
    bdStdBucketDistance (bdStdDistance a c) ≤
      max (bdStdBucketDistance (bdStdDistance a b)) (bdStdBucketDistance (bdStdDistance b c)) := by
  rw [← Nat.lt_succ_iff, bdStdBucketDistance_lt_iff (Nat.succ_ne_zero _)]
  have hxor : (bdStdDistance a c).value = (bdStdDistance a b).value ^^^ (bdStdDistance b c).value := by
    rw [value_bdStdDistance, value_bdStdDistance, value_bdStdDistance, Nat.xor_assoc,
      ← Nat.xor_assoc b.value, Nat.xor_self, Nat.zero_xor]
  rw [hxor]
  apply Nat.xor_lt_two_pow
  · exact (bdStdBucketDistance_lt_iff (Nat.succ_ne_zero _)).1 (Nat.lt_succ_iff.2 (le_max_left ..))
  · exact (bdStdBucketDistance_lt_iff (Nat.succ_ne_zero _)).1 (Nat.lt_succ_iff.2 (le_max_right ..))

/-- The bit scan, the comparison of bytes and the exclusive or of bytes describe one number. -/
theorem bucketDistance_laws :
    (∀ m : BdMetric, (m.value ≠ 0 → IsGreatest {k | 2 ^ k ≤ m.value} (bdStdBucketDistance m)) ∧
      (m.value = 0 → bdStdBucketDistance m = 0) ∧
      bdStdBucketDistance m < bdStdDht.bdNumBuckets) ∧
    (∀ m₁ m₂ : BdMetric, bdNodeIdLt m₁ m₂ = true →
      bdStdBucketDistance m₁ ≤ bdStdBucketDistance m₂) ∧
    (∀ a b c : BdNodeId, bdStdBucketDistance (bdStdDistance a c) ≤
      max (bdStdBucketDistance (bdStdDistance a b)) (bdStdBucketDistance (bdStdDistance b c))) := by
  refine ⟨?_, ?_, bdStdBucketDistance_triangle⟩
  · intro m
    refine ⟨isGreatest_bdStdBucketDistance, ?_, bdStdBucketDistance_lt m⟩
    intro hm
    rw [bdStdBucketDistance_eq, hm, Nat.log_zero_right]
  · intro m₁ m₂ h
    exact bdStdBucketDistance_mono (bdNodeIdLt_iff.1 h).le

/-! ## The walk to the target -/

/-- The id in between has the distance zero in one byte more than the other id. -/
theorem value_midBytes_lt {ts os ms : List UInt8} (ho : ts.length = os.length)
    (hm : ts.length = ms.length) {n : Nat}
    (h : BigEndian.value (List.zipWith (fun x y => x ^^^ y) ts os) < 2 ^ (8 * (n + 1))) :
    BigEndian.value (List.zipWith (fun x y => x ^^^ y) ts
      (midBytes ts (List.zipWith (fun x y => x ^^^ y) ts os) ms)) < 2 ^ (8 * n) := by
  induction ts generalizing os ms with
  | nil =>
      exact Nat.two_pow_pos _
  | cons t ts ih =>
      cases os with
      | nil =>
          cases ho
      | cons o os =>
          cases ms with
          | nil =>
              cases hm
          | cons m ms =>
              have hos : ts.length = os.length := Nat.succ.inj ho
              have hms : ts.length = ms.length := Nat.succ.inj hm
              rw [List.zipWith_cons_cons, BigEndian.value_cons, List.length_zipWith, ← hos,
                Nat.min_self] at h
              rw [List.zipWith_cons_cons, midBytes, List.zipWith_cons_cons, UInt8.xor_self,
                BigEndian.value_cons, UInt8.toNat_zero, Nat.mul_zero, Nat.zero_add]
              by_cases hd : t ^^^ o = 0
              · rw [hd, UInt8.toNat_zero, Nat.mul_zero, Nat.zero_add] at h
                rw [hd, if_neg (by simp)]
                exact ih hos hms h
              -- the first byte that differs is among the last `n + 1`
              · have hpos : 0 < (t ^^^ o).toNat :=
                  Nat.pos_of_ne_zero (fun h0 => hd (UInt8.toNat_inj.1 h0))
                have hlead : 2 ^ (8 * ts.length) < 2 ^ (8 * (n + 1)) :=
                  (Nat.le_mul_of_pos_right _ hpos).trans_lt ((Nat.le_add_right _ _).trans_lt h)
                have hlen := (Nat.pow_lt_pow_iff_right (by decide)).1 hlead
                have hlt := BigEndian.value_lt (List.zipWith (fun x y => x ^^^ y) ts ms)
                rw [List.length_zipWith, ← hms, Nat.min_self] at hlt
                rw [if_pos hd]
                exact hlt.trans_le (Nat.pow_le_pow_right (by decide) (by omega))

theorem value_midId_lt {midId target other : BdNodeId} {n : Nat}
    (h : (bdStdDistance target other).value < 2 ^ (8 * (n + 1))) :
    (bdStdDistance target (bdStdRandomMidId midId target other)).value < 2 ^ (8 * n) :=
  value_midBytes_lt (target.size.trans other.size.symm) (target.size.trans midId.size.symm) h

theorem eq_target_of_lt_one {target id : BdNodeId}
    (h : (bdStdDistance target id).value < 2 ^ (8 * 0)) : id = target :=
  value_bdStdDistance_eq_zero (Nat.lt_one_iff.1 h)

/-- The id in between is the target or stands in a closer bucket than the other one. -/
theorem bdStdRandomMidId_bucket (midId target other : BdNodeId) :
    bdStdRandomMidId midId target other = target ∨
      bdStdBucketDistance (bdStdDistance target (bdStdRandomMidId midId target other)) <
        bdStdBucketDistance (bdStdDistance target other) := by
  set k := bdStdBucketDistance (bdStdDistance target other) with hk
  have hother : (bdStdDistance target other).value < 2 ^ (8 * (k / 8 + 1)) := by
    have hlt := (bdStdBucketDistance_lt_iff (Nat.succ_ne_zero k)).1 (Nat.lt_succ_of_le hk.ge)
    exact hlt.trans_le (Nat.pow_le_pow_right (by decide) (by omega))
  have hmid := @value_midId_lt midId _ _ _ hother
  by_cases hzero : k = 0
  · rw [hzero] at hmid
    exact .inl (eq_target_of_lt_one hmid)
  · refine .inr ((bdStdBucketDistance_lt_iff hzero).2 (hmid.trans_le ?_))
    exact Nat.pow_le_pow_right (by decide) (by omega)

theorem bdStdRandomMidId_self (midId target : BdNodeId) :
    bdStdRandomMidId midId target target = target := by
  refine eq_target_of_lt_one (value_midId_lt ?_)
  rw [value_bdStdDistance, Nat.xor_self]
  exact Nat.two_pow_pos _

/-- The peer after `n` rounds, each with a draw of its own. -/
def midWalk (draws : Nat → BdNodeId) (target other : BdNodeId) : Nat → BdNodeId
  | 0 => other
  | n + 1 => bdStdRandomMidId (draws n) target (midWalk draws target other n)

/-- Each round takes a byte off the distance. -/
theorem value_midWalk_lt (draws : Nat → BdNodeId) (target other : BdNodeId) {n : Nat} (hn : n ≤ 20) :
    (bdStdDistance target (midWalk draws target other n)).value < 2 ^ (8 * (20 - n)) := by
  induction n with
  | zero =>
      exact (bdStdDistance target other).value_lt
  | succ n ih =>
      have hprev := ih (by omega)
      have hexp : 20 - n = 20 - (n + 1) + 1 := by omega
      rw [hexp] at hprev
      exact value_midId_lt hprev

theorem midWalk_stays {draws : Nat → BdNodeId} {target other : BdNodeId} {n : Nat}
    (h : midWalk draws target other n = target) {m : Nat} (hm : n ≤ m) :
    midWalk draws target other m = target := by
  induction m, hm using Nat.le_induction with
  | base =>
      exact h
  | succ m _ ih =>
      rw [midWalk, ih, bdStdRandomMidId_self]

/-- Every draw gives the target or an id in a closer bucket, so that after at most 20 draws the walk is
at the target, where it stays. -/
theorem midWalk_target (target : BdNodeId) :
    (∀ midId other : BdNodeId, bdStdRandomMidId midId target other = target ∨
      bdStdBucketDistance (bdStdDistance target (bdStdRandomMidId midId target other)) <
        bdStdBucketDistance (bdStdDistance target other)) ∧
    (∀ (draws : Nat → BdNodeId) (other : BdNodeId),
      midWalk draws target other 20 = target ∧
      ∀ n m, midWalk draws target other n = target → n ≤ m →
        midWalk draws target other m = target) := by
  refine ⟨fun midId other => bdStdRandomMidId_bucket midId target other, ?_⟩
  intro draws other
  refine ⟨eq_target_of_lt_one (value_midWalk_lt draws target other le_rfl), ?_⟩
  intro n m hn hm
  exact midWalk_stays hn hm

end BitDht
