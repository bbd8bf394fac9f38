import BitDht.Manager.Manager

/-!
# NodeIdText — ids in hexadecimal

`bdStdPrintNodeId` writes two digits for each byte, and `bdStdNodeId` puts eight digits at a time into a
word, in an order that makes the bytes of the words, the least significant one first, the bytes that
pairs of digits spell (`bdStdNodeId_data`).  So each of the two undoes the other
(`nodeIdText_roundTrip`).
-/

namespace BitDht

/-! ## Printing -/

/-- A digit as `std::hex` writes it. -/
def hexChar (d : Nat) : UInt8 :=
  if d < 10 then UInt8.ofNat (48 + d) else UInt8.ofNat (87 + d)

/-- `out << std::hex << n` -/
def hexText (n : Nat) : List UInt8 :=
  if n = 0 then [chr '0'] else (Nat.digits 16 n).reverse.map hexChar

/-- `out << std::setw(w) << std::setfill('0') << std::hex << n` -/
def setwHex (w n : Nat) : List UInt8 :=
  List.replicate (w - (hexText n).length) (chr '0') ++ hexText n

/-- `bdStdPrintNodeId` -/
def bdStdPrintNodeId (a : BdNodeId) : List UInt8 :=
  a.data.flatMap (fun b => setwHex 2 b.toNat)

theorem setwHex_byte (b : UInt8) :
    setwHex 2 b.toNat = [hexChar (b.toNat / 16), hexChar (b.toNat % 16)] := by
  have hb : b.toNat < 256 := b.toNat_lt
  rcases Nat.lt_or_ge b.toNat 16 with hsmall | hlarge
  · by_cases hzero : b.toNat = 0
    · rw [hzero]
      decide
    · have hdigits := Nat.digits_of_lt 16 _ hzero hsmall
      rw [setwHex, hexText, if_neg hzero, hdigits, Nat.div_eq_of_lt hsmall, Nat.mod_eq_of_lt hsmall]
      rfl
  · have hdigits : Nat.digits 16 b.toNat = [b.toNat % 16, b.toNat / 16] := by
      rw [Nat.digits_def' (by decide) (by omega), Nat.digits_of_lt 16 _ (by omega) (by omega)]
    rw [setwHex, hexText, if_neg (by omega), hdigits]
    rfl

/-! ## Reading -/

/-- The byte that two digits spell. -/
def hexPair (a b : UInt8) : UInt8 :=
  UInt8.ofNat (16 * (hexDigit a).toNat + (hexDigit b).toNat)

/-- The bytes that the digits spell, two by two. -/
def hexPairs : List UInt8 → List UInt8
  | a :: b :: l => hexPair a b :: hexPairs l
  | _ => []

theorem toNat_hexDigit (c : UInt8) : (hexDigit c).toNat =
    if 48 ≤ c.toNat ∧ c.toNat ≤ 57 then c.toNat - 48
    else if 65 ≤ c.toNat ∧ c.toNat ≤ 70 then c.toNat - 55
    else if 97 ≤ c.toNat ∧ c.toNat ≤ 102 then c.toNat - 87
    else 15 := by
  have hsub : ∀ {k : UInt8}, k.toNat ≤ c.toNat → (c - k).toUInt32.toNat = c.toNat - k.toNat := by
    intro k hk
    rw [UInt8.toNat_toUInt32, UInt8.toNat_sub_of_le _ _ (UInt8.le_iff_toNat_le.2 hk)]
  have hbounds : ∀ lo hi : UInt8, (c ≥ lo ∧ c ≤ hi) ↔ lo.toNat ≤ c.toNat ∧ c.toNat ≤ hi.toNat := by
    intro lo hi
    rw [ge_iff_le, UInt8.le_iff_toNat_le, UInt8.le_iff_toNat_le]
  unfold hexDigit
  simp only [hbounds]
  change (if 48 ≤ c.toNat ∧ c.toNat ≤ 57 then (c - 48).toUInt32
    else if 65 ≤ c.toNat ∧ c.toNat ≤ 70 then (c - 55).toUInt32
    else if 97 ≤ c.toNat ∧ c.toNat ≤ 102 then (c - 87).toUInt32
    else 15).toNat = _
  split_ifs with hdigit hupper hlower
  · exact hsub hdigit.1
  · exact hsub (le_trans (by decide) hupper.1)
  · exact hsub (le_trans (by decide) hlower.1)
  · rfl

theorem hexDigit_lt (c : UInt8) : (hexDigit c).toNat < 16 := by
  rw [toNat_hexDigit]
  split_ifs
  · omega
  · omega
  · omega
  · decide

/-- Two digits next to each other above a word that is small enough add what they spell. -/
theorem or_shiftLeft_pair {w k hi lo : Nat} (hw : w < 2 ^ k) (hlo : lo < 16) :
    (w ||| hi <<< (k + 4)) ||| lo <<< k = w + 2 ^ k * (16 * hi + lo) := by
  have hpair : hi <<< (k + 4) ||| lo <<< k = 2 ^ k * (16 * hi + lo) := by
    have hadd := Nat.shiftLeft_add_eq_or_of_lt (show lo < 2 ^ 4 from hlo) hi
    rw [Nat.add_comm k 4, Nat.shiftLeft_add, ← Nat.shiftLeft_or_distrib, ← hadd, Nat.shiftLeft_eq,
      Nat.shiftLeft_eq, Nat.mul_comm _ (2 ^ k), Nat.mul_comm hi]
  rw [Nat.or_assoc, hpair, Nat.or_comm, ← Nat.two_pow_add_eq_or_of_lt hw, Nat.add_comm]

theorem toNat_hexDigit_shiftLeft (c : UInt8) {k : UInt32} (hk : k.toNat ≤ 28) :
    (hexDigit c <<< k).toNat = (hexDigit c).toNat <<< k.toNat := by
  have hlt : (hexDigit c).toNat <<< k.toNat < 2 ^ 32 := by
    calc
      (hexDigit c).toNat <<< k.toNat = (hexDigit c).toNat * 2 ^ k.toNat := Nat.shiftLeft_eq _ _
      _ < 2 ^ 4 * 2 ^ k.toNat := Nat.mul_lt_mul_of_pos_right (hexDigit_lt c) (Nat.two_pow_pos _)
      _ = 2 ^ (4 + k.toNat) := (Nat.pow_add 2 4 _).symm
      _ ≤ 2 ^ 32 := Nat.pow_le_pow_right (by decide) (by omega)
  rw [UInt32.toNat_shiftLeft, Nat.mod_eq_of_lt (show k.toNat < 32 by omega), Nat.mod_eq_of_lt hlt]

/-- The word of eight digits is made of the bytes that they spell. -/
theorem storeU32_idWord {l : List UInt8} {i : Nat} {a b c d e f g h : UInt8} (hi : i < l.length / 8)
    (hl : (l.drop (i * 8)).take 8 = [a, b, c, d, e, f, g, h]) :
    storeU32 (idWord l i) = hexPairs [a, b, c, d, e, f, g, h] := by
  have ha := hexDigit_lt a
  have hb := hexDigit_lt b
  have hc := hexDigit_lt c
  have hd := hexDigit_lt d
  have he := hexDigit_lt e
  have hf := hexDigit_lt f
  have hg := hexDigit_lt g
  have hh := hexDigit_lt h
  have hword : (idWord l i).toNat =
      (16 * (hexDigit a).toNat + (hexDigit b).toNat) +
        256 * (16 * (hexDigit c).toNat + (hexDigit d).toNat) +
        65536 * (16 * (hexDigit e).toNat + (hexDigit f).toNat) +
        16777216 * (16 * (hexDigit g).toNat + (hexDigit h).toNat) := by
    have hplaces : (idWord l i).toNat =
        (((((((0 ||| (hexDigit a).toNat <<< 4) ||| (hexDigit b).toNat <<< 0) |||
          (hexDigit c).toNat <<< 12) ||| (hexDigit d).toNat <<< 8) |||
          (hexDigit e).toNat <<< 20) ||| (hexDigit f).toNat <<< 16) |||
          (hexDigit g).toNat <<< 28) ||| (hexDigit h).toNat <<< 24 := by
      rw [idWord, if_pos hi, hl]
      simp only [digitOffset, List.zip_cons_cons, List.zip_nil_right, List.foldl_cons,
        List.foldl_nil, UInt32.toNat_or]
      repeat rw [toNat_hexDigit_shiftLeft _ (by decide)]
      rfl
    rw [hplaces, or_shiftLeft_pair (w := 0) (k := 0) (by omega) hb,
      or_shiftLeft_pair (k := 8) (by omega) hd, or_shiftLeft_pair (k := 16) (by omega) hf,
      or_shiftLeft_pair (k := 24) (by omega) hh]
    omega
  simp only [storeU32, hword, hexPairs, hexPair, List.cons.injEq, ← UInt8.toNat_inj,
    UInt8.toNat_ofNat', and_true]
  omega

theorem eq_nil_of_even {l : List UInt8} (h : 2 ∣ l.length)
    (hl : ∀ a b z, l = a :: b :: z → False) : l = [] := by
  cases l with
  | nil =>
      rfl
  | cons a l =>
      cases l with
      | nil =>
          simp at h
      | cons b l =>
          exact absurd rfl (hl a b l)

theorem hexPairs_append {l : List UInt8} (h : 2 ∣ l.length) (z : List UInt8) :
    hexPairs (l ++ z) = hexPairs l ++ hexPairs z := by
  fun_induction hexPairs l with
  | case1 a b l ih =>
      rw [List.cons_append, List.cons_append, hexPairs, ih (by simpa using h), List.cons_append]
  | case2 l hl =>
      rw [eq_nil_of_even h hl]
      rfl

/-- Eight digits make a word, and the words follow each other. -/
theorem hexPairs_eq_flatMap (n : Nat) {l : List UInt8} (h : l.length = n * 8) :
    hexPairs l = (List.range n).flatMap (fun i => hexPairs ((l.drop (i * 8)).take 8)) := by
  induction n generalizing l with
  | zero =>
      rw [Nat.zero_mul, List.length_eq_zero_iff] at h
      rw [h]
      rfl
  | succ n ih =>
      have htake : (l.take (n * 8)).length = n * 8 := by
        rw [List.length_take]
        omega
      have hlast : (l.drop (n * 8)).take 8 = l.drop (n * 8) := by
        rw [List.take_of_length_le]
        rw [List.length_drop]
        omega
      have hbefore : (List.range n).flatMap
            (fun i => hexPairs (((l.take (n * 8)).drop (i * 8)).take 8)) =
          (List.range n).flatMap (fun i => hexPairs ((l.drop (i * 8)).take 8)) := by
        refine List.flatMap_congr (fun i hi => ?_)
        rw [List.mem_range] at hi
        rw [List.drop_take, List.take_take, Nat.min_eq_left (by omega)]
      calc
        hexPairs l = hexPairs (l.take (n * 8) ++ l.drop (n * 8)) := by rw [List.take_append_drop]
        _ = hexPairs (l.take (n * 8)) ++ hexPairs (l.drop (n * 8)) :=
              hexPairs_append (by rw [htake]; omega) _
        _ = (List.range n).flatMap (fun i => hexPairs ((l.drop (i * 8)).take 8)) ++
              hexPairs ((l.drop (n * 8)).take 8) := by rw [ih htake, hbefore, hlast]
        _ = _ := by
              rw [List.range_succ, List.flatMap_append, List.flatMap_singleton]

/-- The bytes of an id that is read from 40 digits are those that pairs of digits spell. -/
theorem bdStdNodeId_data {l : List UInt8} (h : l.length = 40) :
    (bdStdNodeId l).data = hexPairs l := by
  rw [hexPairs_eq_flatMap 5 h, bdStdNodeId]
  refine List.flatMap_congr (fun i hi => ?_)
  rw [List.mem_range] at hi
  have hlen : ((l.drop (i * 8)).take 8).length = 8 := by
    rw [List.length_take, List.length_drop]
    omega
  match hl : (l.drop (i * 8)).take 8, hlen with
  | [a, b, c, d, e, f, g, h], _ =>
      exact storeU32_idWord (by omega) hl

/-! ## Both ways -/

/-- A hexadecimal digit in either case. -/
def isHexDigit (c : UInt8) : Bool :=
  (chr '0' ≤ c && c ≤ chr '9') || (chr 'A' ≤ c && c ≤ chr 'F') || (chr 'a' ≤ c && c ≤ chr 'f')

/-- `tolower` in the C locale. -/
def toLower (c : UInt8) : UInt8 :=
  if chr 'A' ≤ c ∧ c ≤ chr 'Z' then c + 32 else c

theorem hexDigit_hexChar {d : Nat} (h : d < 16) : (hexDigit (hexChar d)).toNat = d := by
  revert d
  decide

theorem hexChar_hexDigit {c : UInt8} (h : isHexDigit c = true) :
    hexChar (hexDigit c).toNat = toLower c := by
  have hranges : 48 ≤ c.toNat ∧ c.toNat ≤ 57 ∨ 65 ≤ c.toNat ∧ c.toNat ≤ 70 ∨
      97 ≤ c.toNat ∧ c.toNat ≤ 102 := by
    simpa [isHexDigit, chr, UInt8.le_iff_toNat_le, or_assoc] using h
  have hlower : (toLower c).toNat =
      if 65 ≤ c.toNat ∧ c.toNat ≤ 90 then (c.toNat + 32) % 256 else c.toNat := by
    simp only [toLower, UInt8.le_iff_toNat_le]
    rw [apply_ite UInt8.toNat, UInt8.toNat_add]
    rfl
  apply UInt8.toNat_inj.1
  rw [hlower, toNat_hexDigit, hexChar, apply_ite UInt8.toNat, UInt8.toNat_ofNat',
    UInt8.toNat_ofNat']
  split_ifs
  all_goals omega

theorem length_bdStdPrintNodeId (id : BdNodeId) : (bdStdPrintNodeId id).length = 40 := by
  have hbytes : ∀ l : List UInt8,
      (l.flatMap (fun b => setwHex 2 b.toNat)).length = 2 * l.length := by
    intro l
    induction l with
    | nil =>
        rfl
    | cons b l ih =>
        rw [List.flatMap_cons, List.length_append, ih, setwHex_byte, List.length_cons]
        simp only [List.length_cons, List.length_nil]
        omega
  rw [bdStdPrintNodeId, hbytes, id.size]
  rfl

/-- The two digits of a byte spell it. -/
theorem hexPairs_print (l : List UInt8) :
    hexPairs (l.flatMap (fun b => setwHex 2 b.toNat)) = l := by
  induction l with
  | nil =>
      rfl
  | cons b l ih =>
      have hb : b.toNat < 256 := b.toNat_lt
      rw [List.flatMap_cons, setwHex_byte, List.cons_append, List.cons_append, List.nil_append,
        hexPairs, ih, hexPair, hexDigit_hexChar (by omega), hexDigit_hexChar (by omega),
        Nat.div_add_mod, UInt8.ofNat_toNat]

/-- A byte that two digits spell is printed as these digits. -/
theorem print_hexPairs {l : List UInt8} (hlen : 2 ∣ l.length)
    (h : ∀ c ∈ l, isHexDigit c = true) :
    (hexPairs l).flatMap (fun b => setwHex 2 b.toNat) = l.map toLower := by
  fun_induction hexPairs l with
  | case1 a b l ih =>
      rw [List.forall_mem_cons, List.forall_mem_cons] at h
      rcases h with ⟨ha, hb, hl⟩
      have hdigitA := hexDigit_lt a
      have hdigitB := hexDigit_lt b
      have hpair : (hexPair a b).toNat = 16 * (hexDigit a).toNat + (hexDigit b).toNat := by
        rw [hexPair, UInt8.toNat_ofNat']
        omega
      have hhigh : (hexPair a b).toNat / 16 = (hexDigit a).toNat := by omega
      have hlow : (hexPair a b).toNat % 16 = (hexDigit b).toNat := by omega
      rw [List.flatMap_cons, setwHex_byte, hhigh, hlow, hexChar_hexDigit ha, hexChar_hexDigit hb,
        ih (by simpa using hlen) hl]
      rfl
  | case2 l hl =>
      rw [eq_nil_of_even hlen hl]
      rfl

/-- The text of an id names the id, and the id that is named by 40 digits is printed as these digits in
lower case. -/
theorem nodeIdText_roundTrip :
    (∀ id : BdNodeId, bdStdNodeId (bdStdPrintNodeId id) = id) ∧
    (∀ s : List UInt8, s.length = 40 → (∀ c ∈ s, isHexDigit c = true) →
      bdStdPrintNodeId (bdStdNodeId s) = s.map toLower) := by
  constructor
  · intro id
    refine BdNodeId.ext_data ?_
    rw [bdStdNodeId_data (length_bdStdPrintNodeId id), bdStdPrintNodeId, hexPairs_print]
  · intro s hlen hs
    rw [bdStdPrintNodeId, bdStdNodeId_data hlen, print_hexPairs (by rw [hlen]; decide) hs]

end BitDht
