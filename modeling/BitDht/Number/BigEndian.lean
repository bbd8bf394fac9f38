import Mathlib.Data.Nat.Bitwise
import Mathlib.Data.Nat.Digits.Lemmas
import Mathlib.Data.List.Lex

/-!
# BigEndian — bytes as a number, most significant byte first

`value` is the number that a list of bytes is in base 256.  Three ways to look at the bytes are ways to
look at the number: comparing lists of one length byte by byte (`lt_iff`), bit by bit
(`testBit_value`), and combining them byte by byte with exclusive or (`value_xor`).
-/

namespace BigEndian

/-- The number that the bytes are, the first one counting most. -/
def value (l : List UInt8) : Nat :=
  Nat.ofDigits 256 (l.reverse.map UInt8.toNat)

@[simp] theorem value_nil : value [] = 0 := rfl

theorem value_cons (b : UInt8) (l : List UInt8) :
    value (b :: l) = 2 ^ (8 * l.length) * b.toNat + value l := by
  have hbase : 256 ^ l.length = 2 ^ (8 * l.length) := by
    rw [pow_mul, show 2 ^ 8 = 256 from rfl]
  simp only [value, List.reverse_cons, List.map_append, List.map_cons, List.map_nil,
    Nat.ofDigits_append, Nat.ofDigits_singleton, List.length_map, List.length_reverse, hbase]
  exact Nat.add_comm _ _

theorem value_lt (l : List UInt8) : value l < 2 ^ (8 * l.length) := by
  have hdigits : ∀ d ∈ l.reverse.map UInt8.toNat, d < 256 := by
    intro d hd
    rcases List.mem_map.1 hd with ⟨b, -, rfl⟩
    exact b.toNat_lt
  have hlt := Nat.ofDigits_lt_base_pow_length (by decide : 1 < 256) hdigits
  rw [List.length_map, List.length_reverse] at hlt
  rw [pow_mul]
  exact hlt

/-- The order of the numbers is that of the bytes, from the first one on. -/
theorem lt_iff {as bs : List UInt8} (h : as.length = bs.length) :
    as.map UInt8.toNat < bs.map UInt8.toNat ↔ value as < value bs := by
  induction as generalizing bs with
  | nil =>
      rw [List.length_nil, eq_comm, List.length_eq_zero_iff] at h
      subst h
      simp
  | cons a as ih =>
      cases bs with
      | nil =>
          cases h
      | cons b bs =>
          have hlen : as.length = bs.length := Nat.succ.inj h
          have has := value_lt as
          have hbs := value_lt bs
          rw [List.map_cons, List.map_cons, List.cons_lt_cons_iff, ih hlen, value_cons, value_cons,
            ← hlen]
          rw [← hlen] at hbs
          -- the rest of the bytes weighs less than one unit of the first one
          have hfirst : ∀ {x y v w : Nat}, x < y → v < 2 ^ (8 * as.length) →
              2 ^ (8 * as.length) * x + v < 2 ^ (8 * as.length) * y + w := by
            intro x y v w hxy hv
            have hmul : 2 ^ (8 * as.length) * (x + 1) ≤ 2 ^ (8 * as.length) * y :=
              Nat.mul_le_mul_left _ hxy
            rw [Nat.mul_add, Nat.mul_one] at hmul
            omega
          rcases lt_trichotomy a.toNat b.toNat with hlt | heq | hgt
          · exact iff_of_true (.inl hlt) (hfirst hlt has)
          · rw [heq, Nat.add_lt_add_iff_left]
            simp
          · refine iff_of_false ?_ (hfirst hgt hbs).not_gt
            rintro (hlt | ⟨heq, -⟩)
            · exact hlt.not_gt hgt
            · exact hgt.ne' heq

/-! ## Bits -/

/-- The bits of the number, the first one being the highest of the first byte. -/
theorem testBit_value {l : List UInt8} {i : Nat} (h : i < 8 * l.length) :
    (value l).testBit (8 * l.length - 1 - i) = (l.getD (i / 8) 0).toNat.testBit (7 - i % 8) := by
  induction l generalizing i with
  | nil =>
      exact absurd h (Nat.not_lt_zero i)
  | cons b l ih =>
      rw [List.length_cons] at h ⊢
      rw [value_cons, Nat.testBit_two_pow_mul_add b.toNat (value_lt l)]
      by_cases hi : i < 8
      · rw [if_neg (by omega), Nat.div_eq_of_lt hi, List.getD_cons_zero, Nat.mod_eq_of_lt hi]
        congr 1
        omega
      · have hbyte : i / 8 = (i - 8) / 8 + 1 := by omega
        have hrest := @ih (i - 8) (by omega)
        rw [if_pos (by omega), hbyte, List.getD_cons_succ, show i % 8 = (i - 8) % 8 by omega, ← hrest]
        congr 1
        omega

theorem value_xor {as bs : List UInt8} (h : as.length = bs.length) :
    value (List.zipWith (fun x y => x ^^^ y) as bs) = value as ^^^ value bs := by
  induction as generalizing bs with
  | nil =>
      rw [List.length_nil, eq_comm, List.length_eq_zero_iff] at h
      subst h
      rfl
  | cons a as ih =>
      cases bs with
      | nil =>
          cases h
      | cons b bs =>
          have hlen : as.length = bs.length := Nat.succ.inj h
          have hzip : (List.zipWith (fun x y => x ^^^ y) as bs).length = as.length := by
            rw [List.length_zipWith, ← hlen, Nat.min_self]
          have hxor := value_lt (List.zipWith (fun x y => x ^^^ y) as bs)
          have hbs := value_lt bs
          rw [hzip] at hxor
          rw [← hlen] at hbs
          rw [List.zipWith_cons_cons, value_cons, value_cons, value_cons, hzip, ← hlen]
          refine Nat.eq_of_testBit_eq (fun i => ?_)
          rw [Nat.testBit_xor, Nat.testBit_two_pow_mul_add _ hxor,
            Nat.testBit_two_pow_mul_add _ (value_lt as), Nat.testBit_two_pow_mul_add _ hbs]
          by_cases hi : i < 8 * as.length
          · rw [if_pos hi, if_pos hi, if_pos hi, ih hlen, Nat.testBit_xor]
          · rw [if_neg hi, if_neg hi, if_neg hi, UInt8.toNat_xor, Nat.testBit_xor]

end BigEndian
