import Mathlib.Data.Nat.Digits.Lemmas
import Mathlib.Tactic.Ring

/-!
# Decimal — ASCII decimal text over bytes

Printing and reading of numbers in base ten, on lists of bytes.  `ofNat` and `ofInt` are what a
`printf`-style conversion writes; `value` is what a digit loop accumulates.  The two are connected
by `value_ofNat`, and the shape of the printed text by `ofNat_digits` and `ofNat_ne_nil`.
-/

namespace Decimal

/-! ## Digits -/

def isDigit (b : UInt8) : Bool :=
  decide (48 ≤ b.toNat) && decide (b.toNat ≤ 57)

def digitVal (b : UInt8) : Nat :=
  b.toNat - 48

def digitByte (d : Nat) : UInt8 :=
  UInt8.ofNat (48 + d)

theorem isDigit_iff {b : UInt8} : isDigit b = true ↔ 48 ≤ b.toNat ∧ b.toNat ≤ 57 := by
  simp [isDigit]

theorem toNat_digitByte {d : Nat} (h : d < 10) : (digitByte d).toNat = 48 + d := by
  have hlt : 48 + d < 2 ^ 8 := by omega
  simp only [digitByte, UInt8.toNat_ofNat']
  exact Nat.mod_eq_of_lt hlt

theorem isDigit_digitByte {d : Nat} (h : d < 10) : isDigit (digitByte d) = true := by
  rw [isDigit_iff, toNat_digitByte h]
  omega

theorem digitVal_digitByte {d : Nat} (h : d < 10) : digitVal (digitByte d) = d := by
  rw [digitVal, toNat_digitByte h]
  omega

/-! ## Reading -/

/-- The number a digit loop has after reading `ds` with `acc` accumulated before. -/
def valueFrom (acc : Nat) (ds : List UInt8) : Nat :=
  ds.foldl (fun n b => 10 * n + digitVal b) acc

def value (ds : List UInt8) : Nat :=
  valueFrom 0 ds

@[simp] theorem valueFrom_nil (acc : Nat) : valueFrom acc [] = acc := rfl

@[simp] theorem valueFrom_cons (acc : Nat) (b : UInt8) (ds : List UInt8) :
    valueFrom acc (b :: ds) = valueFrom (10 * acc + digitVal b) ds := by
  simp [valueFrom]

/-- Leading zeros do not count. -/
theorem value_replicate_zero (k : Nat) (ds : List UInt8) :
    value (List.replicate k 48 ++ ds) = value ds := by
  induction k with
  | zero =>
      rfl
  | succ k ih =>
      calc
        value (List.replicate (k + 1) 48 ++ ds) = value (List.replicate k 48 ++ ds) := rfl
        _ = value ds := ih

theorem value_reverse_digits (L : List Nat) (h : ∀ d ∈ L, d < 10) :
    value (L.reverse.map digitByte) = Nat.ofDigits 10 L := by
  induction L with
  | nil =>
      rfl
  | cons d L ih =>
      have hd : d < 10 := h d (by simp)
      have hL : value (L.reverse.map digitByte) = Nat.ofDigits 10 L :=
        ih (fun e he => h e (by simp [he]))
      -- the digit that is read last counts least
      have hstep :
          value ((d :: L).reverse.map digitByte) = 10 * value (L.reverse.map digitByte) + d := by
        simp [value, valueFrom, List.foldl_append, digitVal_digitByte hd]
      calc
        value ((d :: L).reverse.map digitByte)
            = 10 * value (L.reverse.map digitByte) + d := hstep
        _ = 10 * Nat.ofDigits 10 L + d := by rw [hL]
        _ = Nat.ofDigits 10 (d :: L) := by
              rw [Nat.ofDigits_cons]
              ring

/-! ## Printing -/

/-- The decimal text of a natural number, most significant digit first. -/
def ofNat (n : Nat) : List UInt8 :=
  if n = 0 then [48] else (Nat.digits 10 n).reverse.map digitByte

/-- The decimal text of an integer: a minus sign for the negative ones only. -/
def ofInt : Int → List UInt8
  | .ofNat n => ofNat n
  | .negSucc n => 45 :: ofNat (n + 1)

theorem ofNat_ne_nil (n : Nat) : ofNat n ≠ [] := by
  by_cases h : n = 0
  · simp [ofNat, h]
  · simp [ofNat, h, Nat.digits_eq_nil_iff_eq_zero]

theorem ofInt_ne_nil (i : Int) : ofInt i ≠ [] := by
  cases i with
  | ofNat n =>
      exact ofNat_ne_nil n
  | negSucc n =>
      simp [ofInt]

theorem ofNat_digits {n : Nat} {b : UInt8} (hb : b ∈ ofNat n) : isDigit b = true := by
  by_cases h : n = 0
  · have hb' : b = 48 := by simpa [ofNat, h] using hb
    subst hb'
    decide
  · have hmem : b ∈ (Nat.digits 10 n).reverse.map digitByte := by simpa [ofNat, h] using hb
    rcases List.mem_map.1 hmem with ⟨d, hd, rfl⟩
    exact isDigit_digitByte (Nat.digits_lt_base (by decide) (List.mem_reverse.1 hd))

/-- A number below `10 ^ k` is printed with at most `k` digits. -/
theorem length_ofNat_le {n k : Nat} (hk : 0 < k) (hn : n < 10 ^ k) : (ofNat n).length ≤ k := by
  by_cases h : n = 0
  · rw [ofNat, if_pos h]
    exact hk
  · have hdigits : (Nat.digits 10 n).length ≤ k := (Nat.digits_length_le_iff (by decide) n).2 hn
    simpa [ofNat, h] using hdigits

/-- Reading back the printed text gives the number. -/
theorem value_ofNat (n : Nat) : value (ofNat n) = n := by
  by_cases h : n = 0
  · subst h
    decide
  · have hlt : ∀ d ∈ Nat.digits 10 n, d < 10 := fun d hd => Nat.digits_lt_base (by decide) hd
    calc
      value (ofNat n) = value ((Nat.digits 10 n).reverse.map digitByte) := by simp [ofNat, h]
      _ = Nat.ofDigits 10 (Nat.digits 10 n) := value_reverse_digits _ hlt
      _ = n := Nat.ofDigits_digits 10 n

example : ofInt (-9223372036854775808) = 45 :: [57, 50, 50, 51, 51, 55, 50, 48, 51, 54, 56,
    53, 52, 55, 55, 53, 56, 48, 56] := by decide

end Decimal
