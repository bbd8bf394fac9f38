import BitDht.CLib

/-!
# Inet — addresses as text

`inet_ntoa` prints the four bytes of an address, in the order in which they stand in memory.
`inet_aton` reads that form, and the others that its manual allows: fewer parts, of which the last
one fills the rest, and parts in octal or hexadecimal notation.
-/

namespace BitDht

open Decimal

/-! ## Numbers in the notation of C -/

/-- The value of a digit in a base up to sixteen, or something larger. -/
def hexVal (c : UInt8) : Nat :=
  if isDigit c then digitVal c
  else if 97 ≤ c.toNat ∧ c.toNat ≤ 102 then c.toNat - 87
  else if 65 ≤ c.toNat ∧ c.toNat ≤ 70 then c.toNat - 55
  else 16

/-- The base that the first characters of a number ask for, and what follows its mark. -/
def numberBase : List UInt8 → Nat × List UInt8
  | a :: b :: s =>
      if a = chr '0' then if b = chr 'x' ∨ b = chr 'X' then (16, s) else (8, a :: b :: s)
      else (10, a :: b :: s)
  | s => (10, s)

/-- `strtoul(cp, &endp, 0)` where a digit stands at `cp`: the value and the rest. -/
def inetPart (cp : List UInt8) : Option (Nat × List UInt8) :=
  match cp with
  | [] => none
  | c :: _ =>
      if isDigit c then
        let (base, s) := numberBase cp
        let ds := s.takeWhile (fun b => hexVal b < base)
        if ds = [] then none
        else some (ds.foldl (fun n b => base * n + hexVal b) 0, s.dropWhile (fun b => hexVal b < base))
      else
        none

/-- The address in host order from `room` bytes on: a part in front of a dot is one byte, the last
one fills the rest. -/
def inetValue : Nat → List UInt8 → Option Nat
  | 0, _ => none
  | room + 1, cp =>
      match inetPart cp with
      | none => none
      | some (val, []) => if val < 256 ^ (room + 1) then some val else none
      | some (val, c :: rest) =>
          if c = chr '.' then
            if val ≤ 255 then (inetValue room rest).map (fun n => val * 256 ^ room + n) else none
          else if isSpace c ∧ val < 256 ^ (room + 1) then some val
          else none

/-- `htonl`, on a number below `2 ^ 32`. -/
def htonl (n : Nat) : UInt32 :=
  UInt32.ofNat (n / 16777216 % 256 + 256 * (n / 65536 % 256) + 65536 * (n / 256 % 256) +
    16777216 * (n % 256))

/-- `inet_aton` -/
def inetAton (name : List UInt8) : Option UInt32 :=
  (inetValue 4 name).map htonl

/-- `inet_ntoa` -/
def inetNtoa (sAddr : UInt32) : List UInt8 :=
  ofNat (sAddr.toNat % 256) ++ chr '.' :: (ofNat (sAddr.toNat / 256 % 256) ++ chr '.' ::
    (ofNat (sAddr.toNat / 65536 % 256) ++ chr '.' :: ofNat (sAddr.toNat / 16777216)))

/-! ## Reading what was printed -/

theorem ofNat_head_ne_zero {n : Nat} (hn : n ≠ 0) {d : UInt8} {ds : List UInt8}
    (h : ofNat n = d :: ds) : d ≠ chr '0' := by
  have hne : Nat.digits 10 n ≠ [] := fun h => hn (Nat.digits_eq_nil_iff_eq_zero.1 h)
  have hlast := Nat.getLast_digit_ne_zero 10 hn
  have hlt : (Nat.digits 10 n).getLast hne < 10 :=
    Nat.digits_lt_base (by decide) (List.getLast_mem hne)
  have hhead : some d = some (digitByte ((Nat.digits 10 n).getLast hne)) := by
    calc
      some d = (ofNat n).head? := by rw [h, List.head?_cons]
      _ = some (digitByte ((Nat.digits 10 n).getLast hne)) := by
        rw [ofNat, if_neg hn, List.head?_map, List.head?_reverse, List.getLast?_eq_some_getLast hne]
        rfl
  rw [Option.some_inj] at hhead
  subst hhead
  intro heq
  have hval := congrArg UInt8.toNat heq
  rw [toNat_digitByte hlt] at hval
  have hzero : (chr '0').toNat = 48 := by decide
  omega

theorem hexVal_of_isDigit {b : UInt8} (h : isDigit b = true) : hexVal b = digitVal b := by
  rw [hexVal, if_pos h]

theorem digitVal_lt_ten {b : UInt8} (h : isDigit b = true) : digitVal b < 10 := by
  have hb := isDigit_iff.1 h
  rw [digitVal]
  omega

theorem foldl_hexVal {ds : List UInt8} (h : ∀ b ∈ ds, isDigit b = true) (acc : Nat) :
    ds.foldl (fun n b => 10 * n + hexVal b) acc = valueFrom acc ds := by
  induction ds generalizing acc with
  | nil =>
      rfl
  | cons b ds ih =>
      rw [List.forall_mem_cons] at h
      rw [List.foldl_cons, valueFrom_cons, hexVal_of_isDigit h.1, ih h.2]

theorem numberBase_of_ne_zero {d : UInt8} (hd : d ≠ chr '0') (s : List UInt8) :
    numberBase (d :: s) = (10, d :: s) := by
  cases s with
  | nil =>
      rfl
  | cons b s =>
      rw [numberBase, if_neg hd]

/-- The text of a number reads as that number where it ends, or where a dot follows. -/
theorem inetPart_ofNat (n : Nat) {rest : List UInt8} (hrest : ∀ c ∈ rest.head?, c = chr '.') :
    inetPart (ofNat n ++ rest) = some (n, rest) := by
  by_cases hn : n = 0
  -- a zero in front of a dot is read as an octal number
  · subst hn
    cases rest with
    | nil =>
        decide
    | cons c rest =>
        have hc : c = chr '.' := hrest c rfl
        subst hc
        rfl
  · cases hds : ofNat n with
    | nil =>
        exact absurd hds (ofNat_ne_nil n)
    | cons d ds =>
        have hdigits : ∀ b ∈ d :: ds, isDigit b = true := fun b hb =>
          ofNat_digits (n := n) (by rw [hds]; exact hb)
        have hbase := numberBase_of_ne_zero (ofNat_head_ne_zero hn hds) (ds ++ rest)
        have hlt : ∀ b ∈ d :: ds, decide (hexVal b < 10) = true := by
          intro b hb
          rw [decide_eq_true_iff, hexVal_of_isDigit (hdigits b hb)]
          exact digitVal_lt_ten (hdigits b hb)
        have hscan : (d :: (ds ++ rest)).takeWhile (fun b => hexVal b < 10) = d :: ds ∧
            (d :: (ds ++ rest)).dropWhile (fun b => hexVal b < 10) = rest := by
          cases rest with
          | nil =>
              rw [List.append_nil]
              exact ⟨List.takeWhile_eq_self_iff.2 hlt, List.dropWhile_eq_nil_iff.2 hlt⟩
          | cons c rest =>
              have hc : c = chr '.' := hrest c rfl
              subst hc
              exact takeWhile_append_stop hlt (by decide) rest
        have hvalue : (d :: ds).foldl (fun n b => 10 * n + hexVal b) 0 = n := by
          rw [foldl_hexVal hdigits, ← hds]
          exact value_ofNat n
        rw [List.cons_append, inetPart, if_pos (hdigits d (by simp)), hbase]
        simp only [hscan.1, hscan.2, hvalue, reduceCtorEq, if_false]

/-- The bytes of a word, printed with a dot between them. -/
theorem inetValue_dotted {a b c d : Nat} (ha : a < 256) (hb : b < 256) (hc : c < 256)
    (hd : d < 256) :
    inetValue 4 (ofNat a ++ chr '.' :: (ofNat b ++ chr '.' ::
      (ofNat c ++ chr '.' :: ofNat d))) = some (a * 16777216 + (b * 65536 + (c * 256 + d))) := by
  have hlast : inetPart (ofNat d ++ []) = some (d, []) := inetPart_ofNat d (by simp)
  rw [List.append_nil] at hlast
  have hpart : ∀ (n : Nat) (r : List UInt8),
      inetPart (ofNat n ++ chr '.' :: r) = some (n, chr '.' :: r) :=
    fun n r => inetPart_ofNat n (by simp)
  simp only [inetValue, hpart, hlast, if_true, if_pos (Nat.le_of_lt_succ ha),
    if_pos (Nat.le_of_lt_succ hb), if_pos (Nat.le_of_lt_succ hc)]
  norm_num [hd]

theorem htonl_bytes {a b c d : Nat} (ha : a < 256) (hb : b < 256) (hc : c < 256) (hd : d < 256) :
    htonl (a * 16777216 + (b * 65536 + (c * 256 + d))) =
      UInt32.ofNat (a + 256 * b + 65536 * c + 16777216 * d) := by
  have h1 : (a * 16777216 + (b * 65536 + (c * 256 + d))) / 16777216 = a := by omega
  have h2 : (a * 16777216 + (b * 65536 + (c * 256 + d))) / 65536 = a * 256 + b := by omega
  have h3 : (a * 16777216 + (b * 65536 + (c * 256 + d))) / 256 = a * 65536 + b * 256 + c := by
    omega
  rw [htonl, h1, h2, h3]
  congr 1
  omega

/-- `inet_aton` reads what `inet_ntoa` prints. -/
theorem inetAton_inetNtoa (sAddr : UInt32) : inetAton (inetNtoa sAddr) = some sAddr := by
  have hlt : sAddr.toNat < 4294967296 := sAddr.toNat_lt
  have hbytes : sAddr.toNat % 256 + 256 * (sAddr.toNat / 256 % 256) +
      65536 * (sAddr.toNat / 65536 % 256) + 16777216 * (sAddr.toNat / 16777216) =
        sAddr.toNat := by omega
  rw [inetAton, inetNtoa, inetValue_dotted (by omega) (by omega) (by omega) (by omega),
    Option.map_some, htonl_bytes (by omega) (by omega) (by omega) (by omega), hbytes,
    UInt32.ofNat_toNat]

end BitDht
