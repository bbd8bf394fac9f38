import BitDht.Msgs.Build
import BitDht.Msgs.Cipher

/-!
# Detection — which changes of a body the checksum shows

The sum of a body wraps at `2 ^ 32`, and there a change of one byte never gets lost.  The reduction
after it takes the one sum `2 ^ 32 - 1` to zero, so two bodies whose sums are these two have one
checksum (`reduceSum_eq_iff`).
-/

namespace BitDht

/-! ## The sum -/

/-- The value of a `char`. -/
def charInt (b : UInt8) : Int :=
  if b.toNat < 128 then b.toNat else b.toNat - 256

/-- The length of a body and its characters, in unbounded numbers. -/
def bodyTotal (body : List UInt8) : Int :=
  body.length + (body.map charInt).sum

theorem charInt_range (b : UInt8) : -128 ≤ charInt b ∧ charInt b ≤ 127 := by
  have hb : b.toNat < 256 := b.toNat_lt
  rw [charInt]
  split <;> omega

theorem charInt_inj {b b' : UInt8} (h : charInt b = charInt b') : b = b' := by
  have hb : b.toNat < 256 := b.toNat_lt
  have hb' : b'.toNat < 256 := b'.toNat_lt
  apply UInt8.toNat_inj.1
  simp only [charInt] at h
  split at h
  · split at h <;> omega
  · split at h <;> omega

/-- A sum of characters stays near zero, from above or from below. -/
theorem sum_charInt_range (body : List UInt8) : -128 * (body.length : Int) ≤ (body.map charInt).sum ∧
    (body.map charInt).sum ≤ 127 * (body.length : Int) := by
  induction body with
  | nil =>
      exact ⟨le_rfl, le_rfl⟩
  | cons b body ih =>
      have hb := charInt_range b
      rw [List.map_cons, List.sum_cons, List.length_cons]
      omega

theorem charWord_toNat (b : UInt8) : ((charWord b).toNat : Int) = charInt b % 4294967296 := by
  have hb : b.toNat < 256 := b.toNat_lt
  by_cases hpos : b.toNat < 128
  · rw [charWord, charInt, if_pos hpos, if_pos hpos, UInt32.toNat_ofNat']
    omega
  · rw [charWord, charInt, if_neg hpos, if_neg hpos, UInt32.toNat_sub, UInt32.toNat_ofNat']
    have h256 : (256 : UInt32).toNat = 256 := rfl
    omega

/-- The machine's sum is the unbounded one, wrapped. -/
theorem charSum_toNat (sum : UInt32) (body : List UInt8) :
    ((charSum sum body).toNat : Int) =
      (sum.toNat + (body.map charInt).sum) % 4294967296 := by
  induction body generalizing sum with
  | nil =>
      have hsum : sum.toNat < 4294967296 := sum.toNat_lt
      simp only [charSum, List.foldl_nil, List.map_nil, List.sum_nil]
      omega
  | cons b body ih =>
      have hstep := ih (sum + charWord b)
      have hword := charWord_toNat b
      rw [UInt32.toNat_add] at hstep
      rw [charSum, List.foldl_cons, ← charSum, hstep, List.map_cons, List.sum_cons]
      omega

theorem charSum_length (body : List UInt8) :
    ((charSum (UInt32.ofNat body.length) body).toNat : Int) = bodyTotal body % 4294967296 := by
  rw [charSum_toNat, UInt32.toNat_ofNat', bodyTotal]
  omega

/-! ## The reduction -/

/-- The reduction keeps every sum apart from every other one, but for the first and the last. -/
theorem reduceSum_eq_iff {x y : UInt32} : reduceSum x = reduceSum y ↔
    x = y ∨ x.toNat = 0 ∧ y.toNat = 4294967295 ∨ x.toNat = 4294967295 ∧ y.toNat = 0 := by
  have hx : x.toNat < 4294967296 := x.toNat_lt
  have hy : y.toNat < 4294967296 := y.toNat_lt
  have hmod : (4294967295 : UInt32).toNat = 4294967295 := rfl
  rw [reduceSum, reduceSum, ← UInt32.toNat_inj, ← UInt32.toNat_inj, UInt32.toNat_mod,
    UInt32.toNat_mod, hmod]
  omega

/-! ## One byte -/

/-- Bodies of one length that differ in exactly one byte. -/
def DifferInOneByte (body body' : List UInt8) : Prop :=
  ∃ before b b' after, body = before ++ b :: after ∧ body' = before ++ b' :: after ∧ b ≠ b'

theorem bodyTotal_split (before after : List UInt8) (b : UInt8) :
    bodyTotal (before ++ b :: after) = bodyTotal before + bodyTotal after + charInt b + 1 := by
  simp only [bodyTotal, List.length_append, List.length_cons, List.map_append, List.map_cons,
    List.sum_append, List.sum_cons]
  omega

/-- The totals of such bodies are near each other, and not the same. -/
theorem DifferInOneByte.bodyTotal_near {body body' : List UInt8}
    (h : DifferInOneByte body body') : bodyTotal body ≠ bodyTotal body' ∧
      bodyTotal body - bodyTotal body' ≤ 255 ∧ bodyTotal body' - bodyTotal body ≤ 255 := by
  rcases h with ⟨before, b, b', after, rfl, rfl, hne⟩
  have hchar : charInt b ≠ charInt b' := fun heq => hne (charInt_inj heq)
  have hb := charInt_range b
  have hb' := charInt_range b'
  rw [bodyTotal_split, bodyTotal_split]
  omega

/-- The greater one of the totals is a multiple of `2 ^ 32`, and the other one is next to it. -/
def TotalsMeet (body body' : List UInt8) : Prop :=
  (4294967296 ∣ bodyTotal body ∧ bodyTotal body' = bodyTotal body - 1) ∨
    (4294967296 ∣ bodyTotal body' ∧ bodyTotal body = bodyTotal body' - 1)

/-- A change of one byte shows in the checksum, but for one place where the sum wraps. -/
theorem ecryptSum_ne_iff {body body' : List UInt8} (h : DifferInOneByte body body') :
    ecryptSum body ≠ decryptSum body' ↔ ¬ TotalsMeet body body' := by
  have hnear := h.bodyTotal_near
  have hsum := charSum_length body
  have hsum' := charSum_length body'
  rw [decryptSum_eq, ecryptSum, ecryptSum, ne_eq, not_iff_not, reduceSum_eq_iff,
    ← UInt32.toNat_inj, TotalsMeet]
  omega

/-- The first byte of a text of two. -/
theorem ecryptSum_ne_two_bytes : DifferInOneByte [1, 2] [3, 2] ∧
    ecryptSum [1, 2] ≠ decryptSum [3, 2] := by
  have h : DifferInOneByte [1, 2] [3, 2] := ⟨[], 1, 3, [2], rfl, rfl, by decide⟩
  exact ⟨h, (ecryptSum_ne_iff h).2 (by unfold TotalsMeet; decide)⟩

/-- An answer to a NEWCONN from a node whose id ends in `last`. -/
def replyNewconnFrom (last : UInt8) : List UInt8 :=
  let own : BdNodeId := ⟨List.replicate 11 128 ++ 132 :: List.replicate 7 255 ++ [last], rfl⟩
  let peer : BdNodeId := ⟨List.replicate 20 128, rfl⟩
  bencode (Msg.replyNewconn ⟨ascii "00"⟩ own ⟨⟨afInet, 0xC8C8A8C0, 0x8080⟩, peer⟩ true).tree

/-- Two answers from nodes whose ids differ in the last byte have the same checksum, zero. -/
theorem ecryptSum_eq_replyNewconn :
    DifferInOneByte (replyNewconnFrom 255) (replyNewconnFrom 254) ∧
      ¬ ecryptSum (replyNewconnFrom 255) ≠ decryptSum (replyNewconnFrom 254) := by
  constructor
  · -- the id stands in the bytes 12 to 31
    exact ⟨(replyNewconnFrom 255).take 31, 255, 254, (replyNewconnFrom 255).drop 32,
      by decide +kernel, by decide +kernel, by decide⟩
  · decide +kernel

end BitDht
