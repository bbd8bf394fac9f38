import BitDht.Iface

/-!
# StdDht — the distance functions of `bdstddht.cc`

`BdDhtFunctions` is the interface that the routing table and the queries are written against, and
`bdStdDht` the implementation the library comes with.
-/

namespace BitDht

/-- `bdMetric` -/
abbrev BdMetric := BdNodeId

/-- The part of `bdDhtFunctions` that decides where a peer belongs.  A bucket number is an index
into a vector of `bdNumBuckets()` buckets. -/
structure BdDhtFunctions where
  bdNumBuckets : Nat
  bdNodesPerBucket : Nat
  bdDistance : BdNodeId → BdNodeId → BdMetric
  bdBucketDistance : BdMetric → Nat
  bucket_lt : ∀ m, bdBucketDistance m < bdNumBuckets

/-- `bdStdDistance` -/
def bdStdDistance (a b : BdNodeId) : BdMetric where
  data := List.zipWith (fun x y => x ^^^ y) a.data b.data
  size := by simp [a.size, b.size]

theorem zipWith_xor_cancel {as bs : List UInt8} (h : as.length = bs.length) :
    List.zipWith (fun x y => x ^^^ y) as (List.zipWith (fun x y => x ^^^ y) as bs) = bs := by
  induction as generalizing bs with
  | nil =>
      exact (List.eq_nil_of_length_eq_zero h.symm).symm
  | cons a as ih =>
      cases bs with
      | nil =>
          cases h
      | cons b bs =>
          simp only [List.zipWith_cons_cons, ih (Nat.succ.inj h)]
          rw [← UInt8.xor_assoc, UInt8.xor_self, UInt8.zero_xor]

theorem bdStdDistance_cancel (a b : BdNodeId) : bdStdDistance a (bdStdDistance a b) = b :=
  BdNodeId.ext_data (zipWith_xor_cancel (a.size.trans b.size.symm))

/-- No two ids have the same distance to a third one. -/
theorem bdStdDistance_inj {a b c : BdNodeId} : bdStdDistance a b = bdStdDistance a c ↔ b = c := by
  constructor
  · intro h
    calc
      b = bdStdDistance a (bdStdDistance a b) := (bdStdDistance_cancel a b).symm
      _ = bdStdDistance a (bdStdDistance a c) := by rw [h]
      _ = c := bdStdDistance_cancel a c
  · rintro rfl
    rfl

/-! ## `bdStdRandomMidId` -/

/-- The loop of `bdStdRandomMidId`: the bytes of the target up to the first one where the distance
is not zero, and random ones from there on. -/
def midBytes : List UInt8 → List UInt8 → List UInt8 → List UInt8
  | t :: target, d :: dist, _ :: midId => t :: (if d ≠ 0 then midId else midBytes target dist midId)
  | _, _, midId => midId

theorem length_midBytes (target dist midId : List UInt8) :
    (midBytes target dist midId).length = midId.length := by
  induction target, dist, midId using midBytes.induct with
  | case1 t target d dist m midId ih =>
      rw [midBytes, List.length_cons, List.length_cons]
      split
      · rfl
      · rw [ih]
  | case2 target dist midId h =>
      rw [midBytes]
      exact h

/-- `bdStdRandomMidId`, where `bdStdRandomNodeId` comes to `midId`. -/
def bdStdRandomMidId (midId target other : BdNodeId) : BdNodeId where
  data := midBytes target.data (bdStdDistance target other).data midId.data
  size := by rw [length_midBytes, midId.size]

/-- Where the other id is not the target, the first byte that differs is zero in the distance of
the id between them. -/
theorem bytesLt_midBytes {ts os ms : List UInt8} (ho : ts.length = os.length)
    (hm : ts.length = ms.length) :
    bytesLt (List.zipWith (fun x y => x ^^^ y) ts
        (midBytes ts (List.zipWith (fun x y => x ^^^ y) ts os) ms))
      (List.zipWith (fun x y => x ^^^ y) ts os) = true ∨
    midBytes ts (List.zipWith (fun x y => x ^^^ y) ts os) ms = ts := by
  induction ts generalizing os ms with
  | nil =>
      rw [List.length_nil, eq_comm, List.length_eq_zero_iff] at hm
      subst hm
      exact .inr rfl
  | cons t ts ih =>
      cases os with
      | nil =>
          cases ho
      | cons o os =>
          cases ms with
          | nil =>
              cases hm
          | cons m ms =>
              rw [List.zipWith_cons_cons, midBytes, List.zipWith_cons_cons, UInt8.xor_self]
              by_cases hd : t ^^^ o = 0
              · rw [hd, if_neg (by simp)]
                rcases ih (Nat.succ.inj ho) (Nat.succ.inj hm) with hlt | heq
                · refine .inl ?_
                  rw [bytesLt, if_neg (by decide), if_neg (by decide)]
                  exact hlt
                · exact .inr (by rw [heq])
              · have hpos : 0 < t ^^^ o := UInt8.pos_iff_ne_zero.2 hd
                rw [if_pos hd]
                exact .inl (by rw [bytesLt, if_pos hpos])

/-- The id in between is strictly closer to the target than the other one, or is the target. -/
theorem bdStdRandomMidId_closer (midId target other : BdNodeId) :
    bdStdRandomMidId midId target other = target ∨
      bdStdDistance target (bdStdRandomMidId midId target other) < bdStdDistance target other := by
  rcases bytesLt_midBytes (target.size.trans other.size.symm) (target.size.trans midId.size.symm)
    with hlt | heq
  · exact .inr (bdNodeIdLt_iff.1 hlt)
  · exact .inl (BdNodeId.ext_data heq)

/-! ## `bdStdBucketDistance` -/

/-- `comp & m->data[byte]` for the bit that round `i` of `bdStdBucketDistance` looks at. -/
def testComp (m : BdMetric) (i : Nat) : Bool :=
  let byte := i / 8
  let bbit := 7 - i % 8
  let comp := UInt8.ofNat (2 ^ bbit)
  comp &&& m.data.getD byte 0 != 0

/-- `bdStdBucketDistance` -/
def bdStdBucketDistance (m : BdMetric) : Nat :=
  match (List.range bitdhtKeyBitLen).find? (testComp m) with
  | some i => bitdhtKeyBitLen - i - 1
  | none => 0

theorem bdStdBucketDistance_lt (m : BdMetric) : bdStdBucketDistance m < bitdhtKeyBitLen := by
  rw [bdStdBucketDistance]
  split
  · rw [bitdhtKeyBitLen]
    omega
  · decide

/-- `bdStdDht` -/
def bdStdDht : BdDhtFunctions where
  bdNumBuckets := bitdhtKeyBitLen
  bdNodesPerBucket := 10
  bdDistance := bdStdDistance
  bdBucketDistance := bdStdBucketDistance
  bucket_lt := bdStdBucketDistance_lt

end BitDht
