import BitDht.Base
import BitDht.Text.Decimal
import Mathlib.Data.List.TakeWhile

/-!
# CLib — the C library calls of `bencode.c`

A pointer into a buffer is the list of the bytes from it to the end of the buffer, so a read past
the end is a read from the empty list.  `strtoll` is modelled twice: on memory, where it may run
off the buffer, and as `number` on a string that ends where its bytes end.  `strtoll_eq` says that
the two agree unless the memory ends inside the number.
-/

namespace BitDht

open Decimal Outcome

/-! ## Reading memory -/

/-- `*p` -/
def deref : List UInt8 → Exec UInt8
  | [] => .error .overread
  | b :: _ => .ok b

/-- `memcpy(dst, src, n)`, the reading side. -/
def readBytes (n : Nat) (src : List UInt8) : Exec (List UInt8) :=
  if n ≤ src.length then .ok (src.take n) else .error .overread

@[simp] theorem deref_nil : deref [] = .error .overread := rfl

@[simp] theorem deref_cons (b : UInt8) (bs : List UInt8) : deref (b :: bs) = .ok b := rfl

/-- `strlen(p)` -/
def strlen : List UInt8 → Exec Nat
  | [] => .error .overread
  | b :: bs => if b = 0 then .ok 0 else do
      let n ← strlen bs
      pure (n + 1)

/-- The C string that starts a block of bytes: everything before the first NUL. -/
def cstr (bs : List UInt8) : List UInt8 :=
  bs.takeWhile (fun b => b ≠ 0)

/-- `0 == strcmp(a, b)`, for two blocks that are followed by a NUL. -/
def strcmpEq (a b : List UInt8) : Bool :=
  cstr a == cstr b

/-! ## Writing memory -/

/-- `memcpy(&dst[loc], bs, n)`, the writing side. -/
def writeAt (dst : List UInt8) (loc : Nat) (bs : List UInt8) : Exec (List UInt8) :=
  if loc + bs.length ≤ dst.length then
    .ok (dst.take loc ++ (bs ++ dst.drop (loc + bs.length)))
  else
    .error .overrun

/-- `snprintf(&dst[loc], size, ..)` of a format that gives `text`.  The size is converted to
`size_t`, so that a negative one is no limit at all. -/
def snprintf (dst : List UInt8) (loc : Nat) (size : Int) (text : List UInt8) :
    Exec (List UInt8) :=
  -- nothing is written, not even the NUL
  if size = 0 then .ok dst
  else if size < 0 then writeAt dst loc (text ++ [0])
  -- one byte of the size is for the NUL
  else writeAt dst loc (text.take (size.toNat - 1) ++ [0])

theorem writeAt_append {bs rest : List UInt8} (h : bs.length ≤ rest.length) (w : List UInt8) :
    writeAt (w ++ rest) w.length bs = .ok (w ++ (bs ++ rest.drop bs.length)) := by
  simp [writeAt, h]

/-- A text that fits is written in full, with a NUL behind it. -/
theorem snprintf_append {text rest : List UInt8} {size : Int} (hsize : (text.length : Int) < size)
    (hrest : text.length < rest.length) (w : List UInt8) :
    snprintf (w ++ rest) w.length size text =
      .ok (w ++ (text ++ 0 :: rest.drop (text.length + 1))) := by
  have hzero : size ≠ 0 := by omega
  have hneg : ¬ size < 0 := by omega
  have htake : text.take (size.toNat - 1) = text := List.take_of_length_le (by omega)
  have hfit : (text ++ [0]).length ≤ rest.length := by
    simp only [List.length_append, List.length_singleton]
    omega
  rw [snprintf, if_neg hzero, if_neg hneg, htake, writeAt_append hfit]
  simp

theorem strlen_append {text : List UInt8} (htext : ∀ b ∈ text, b ≠ 0) (z : List UInt8) :
    strlen (text ++ 0 :: z) = .ok text.length := by
  induction text with
  | nil =>
      simp [strlen]
  | cons b bs ih =>
      have hb : b ≠ 0 := htext b (by simp)
      have hbs := ih (fun x hx => htext x (by simp [hx]))
      simp [strlen, hb, hbs]

theorem cstr_ne_zero {s : List UInt8} {b : UInt8} (hb : b ∈ cstr s) : b ≠ 0 := by
  simpa using List.mem_takeWhile_imp hb

theorem cstr_of_ne_zero {s : List UInt8} (hs : ∀ b ∈ s, b ≠ 0) : cstr s = s :=
  List.takeWhile_eq_self_iff.2 (by simpa using hs)

/-! ## Words in memory, least significant byte first -/

/-- The bytes of a `uint32_t`. -/
def storeU32 (x : UInt32) : List UInt8 :=
  [UInt8.ofNat x.toNat, UInt8.ofNat (x.toNat / 256), UInt8.ofNat (x.toNat / 65536),
    UInt8.ofNat (x.toNat / 16777216)]

/-- The bytes of a `uint16_t`. -/
def storeU16 (x : UInt16) : List UInt8 :=
  [UInt8.ofNat x.toNat, UInt8.ofNat (x.toNat / 256)]

/-- `*(uint32_t *) p` -/
def loadU32 : List UInt8 → Exec UInt32
  | a :: b :: c :: d :: _ =>
      .ok (UInt32.ofNat (a.toNat + 256 * b.toNat + 65536 * c.toNat + 16777216 * d.toNat))
  | _ => .error .overread

/-- `*(uint16_t *) p` -/
def loadU16 : List UInt8 → Exec UInt16
  | a :: b :: _ => .ok (UInt16.ofNat (a.toNat + 256 * b.toNat))
  | _ => .error .overread

@[simp] theorem length_storeU32 (x : UInt32) : (storeU32 x).length = 4 := rfl

theorem loadU32_storeU32 (x : UInt32) (z : List UInt8) : loadU32 (storeU32 x ++ z) = .ok x := by
  simp only [storeU32, List.cons_append, loadU32, Except.ok.injEq, UInt8.toNat_ofNat']
  apply UInt32.toNat_inj.1
  have hx : x.toNat < 2 ^ 32 := x.toNat_lt
  simp only [UInt32.toNat_ofNat']
  -- the four bytes are the digits of the number in base 256
  omega

theorem loadU16_storeU16 (x : UInt16) (z : List UInt8) : loadU16 (storeU16 x ++ z) = .ok x := by
  simp only [storeU16, List.cons_append, loadU16, Except.ok.injEq, UInt8.toNat_ofNat']
  apply UInt16.toNat_inj.1
  have hx : x.toNat < 2 ^ 16 := x.toNat_lt
  simp only [UInt16.toNat_ofNat']
  omega

/-! ## `strtoll` in base ten -/

/-- `isspace` in the C locale. -/
def isSpace (b : UInt8) : Bool :=
  decide (b.toNat = 32) || (decide (9 ≤ b.toNat) && decide (b.toNat ≤ 13))

/-- The result of `strtoll` stays within `long long`. -/
def clampLL (i : Int) : Int :=
  max llongMin (min i llongMax)

def signed (neg : Bool) (n : Nat) : Int :=
  if neg then -(n : Int) else n

def skipSpace : List UInt8 → Exec (List UInt8)
  | [] => .error .overread
  | b :: bs => if isSpace b then skipSpace bs else .ok (b :: bs)

def skipSign : List UInt8 → Bool × List UInt8
  | [] => (false, [])
  | b :: bs =>
      if b = chr '-' then (true, bs)
      else if b = chr '+' then (false, bs)
      else (false, b :: bs)

def scanDigits (acc : Nat) : List UInt8 → Exec (Nat × List UInt8)
  | [] => .error .overread
  | b :: bs => if isDigit b then scanDigits (10 * acc + digitVal b) bs else .ok (acc, b :: bs)

/-- `strtoll(nptr, &endp, 10)`: the value and the bytes from `endp` on.  Where no digit follows the
blanks and the sign, nothing is consumed, not even the blanks. -/
def strtoll (nptr : List UInt8) : Exec (Int × List UInt8) := do
  let s ← skipSpace nptr
  let (neg, s) := skipSign s
  let b ← deref s
  if isDigit b then do
    let (n, endp) ← scanDigits 0 s
    pure (clampLL (signed neg n), endp)
  else
    -- `endp` is where the call started, in front of the blanks
    pure (0, nptr)

/-- What is left after the blanks and the sign of a number. -/
def afterSign (s : List UInt8) : Bool × List UInt8 :=
  skipSign (s.dropWhile isSpace)

/-- `strtoll` on a string: the value and the rest of the string. -/
def number (s : List UInt8) : Int × List UInt8 :=
  let (neg, t) := afterSign s
  if t.takeWhile isDigit = [] then (0, s)
  else (clampLL (signed neg (value (t.takeWhile isDigit))), t.dropWhile isDigit)

/-- The bytes end inside a number: blanks, then perhaps a sign, then digits up to the end. -/
def OpenNumber (s : List UInt8) : Prop :=
  (afterSign s).2.dropWhile isDigit = []

instance (s : List UInt8) : Decidable (OpenNumber s) :=
  inferInstanceAs (Decidable (_ = _))

theorem skipSpace_eq (s : List UInt8) :
    skipSpace s = if s.dropWhile isSpace = [] then .error .overread
      else .ok (s.dropWhile isSpace) := by
  induction s with
  | nil =>
      rfl
  | cons b bs ih =>
      by_cases hb : isSpace b = true
      · simpa [skipSpace, hb] using ih
      · simp [skipSpace, hb]

theorem scanDigits_eq (acc : Nat) (s : List UInt8) :
    scanDigits acc s = if s.dropWhile isDigit = [] then .error .overread
      else .ok (valueFrom acc (s.takeWhile isDigit), s.dropWhile isDigit) := by
  induction s generalizing acc with
  | nil =>
      rfl
  | cons b bs ih =>
      by_cases hb : isDigit b = true
      · simpa [scanDigits, hb] using ih (10 * acc + digitVal b)
      · simp [scanDigits, hb]

/-- On memory `strtoll` reads the number that is there, or runs off the end inside it. -/
theorem strtoll_eq (s : List UInt8) :
    strtoll s = if OpenNumber s then .error .overread else .ok (number s) := by
  -- follow the scan: the blanks, the sign, the digits
  cases hs : s.dropWhile isSpace with
  | nil =>
      have hopen : OpenNumber s := by simp [OpenNumber, afterSign, hs, skipSign]
      simp [strtoll, skipSpace_eq, hs, hopen]
  | cons b bs =>
      cases ht : skipSign (b :: bs) with
      | mk neg t =>
          cases t with
          | nil =>
              have hopen : OpenNumber s := by simp [OpenNumber, afterSign, hs, ht]
              simp [strtoll, skipSpace_eq, hs, ht, hopen]
          | cons c cs =>
              by_cases hc : isDigit c = true
              -- memory ends inside the number only when nothing is left behind the digits
              · by_cases hend : cs.dropWhile isDigit = []
                · have hopen : OpenNumber s := by simp [OpenNumber, afterSign, hs, ht, hc, hend]
                  simp [strtoll, skipSpace_eq, hs, ht, hc, scanDigits_eq, hend, hopen,
                    -List.dropWhile_eq_nil_iff]
                · have hopen : ¬ OpenNumber s := by
                    simp [OpenNumber, afterSign, hs, ht, hc, hend]
                  simp [strtoll, skipSpace_eq, hs, ht, hc, scanDigits_eq, hend, hopen, number,
                    afterSign, value, -List.dropWhile_eq_nil_iff]
              · have hopen : ¬ OpenNumber s := by simp [OpenNumber, afterSign, hs, ht, hc]
                simp [strtoll, skipSpace_eq, hs, ht, hc, hopen, number, afterSign]

/-! ## What follows the number does not matter -/

theorem skipSign_append {s : List UInt8} (hs : s ≠ []) (z : List UInt8) :
    skipSign (s ++ z) = ((skipSign s).1, (skipSign s).2 ++ z) := by
  cases s with
  | nil =>
      exact absurd rfl hs
  | cons b bs =>
      simp only [List.cons_append, skipSign]
      split
      · rfl
      · split <;> rfl

theorem dropWhile_append_of_ne_nil {p : UInt8 → Bool} {s : List UInt8} (h : s.dropWhile p ≠ [])
    (z : List UInt8) : (s ++ z).dropWhile p = s.dropWhile p ++ z := by
  rw [List.dropWhile_append]
  simp [h]

theorem takeWhile_append_of_ne_nil {p : UInt8 → Bool} {s : List UInt8} (h : s.dropWhile p ≠ [])
    (z : List UInt8) : (s ++ z).takeWhile p = s.takeWhile p := by
  -- a prefix as long as the whole would leave nothing to drop
  have hlen : (s.takeWhile p).length ≠ s.length := by
    intro hl
    have hcat : s.takeWhile p ++ s.dropWhile p = s := List.takeWhile_append_dropWhile
    have : (s.dropWhile p).length = 0 := by
      have := congrArg List.length hcat
      simp only [List.length_append] at this
      omega
    exact h (List.length_eq_zero_iff.1 this)
  rw [List.takeWhile_append]
  simp [hlen]

theorem afterSign_append {s : List UInt8} (h : ¬ OpenNumber s) (z : List UInt8) :
    afterSign (s ++ z) = ((afterSign s).1, (afterSign s).2 ++ z) := by
  have hs : s.dropWhile isSpace ≠ [] := by
    intro hs
    exact h (by simp [OpenNumber, afterSign, hs, skipSign])
  calc
    afterSign (s ++ z) = skipSign (s.dropWhile isSpace ++ z) := by
      rw [afterSign, dropWhile_append_of_ne_nil hs]
    _ = ((afterSign s).1, (afterSign s).2 ++ z) := skipSign_append hs z

theorem not_openNumber_append {s : List UInt8} (h : ¬ OpenNumber s) (z : List UInt8) :
    ¬ OpenNumber (s ++ z) := by
  have ht : (afterSign s).2.dropWhile isDigit ≠ [] := h
  rw [OpenNumber, afterSign_append h, dropWhile_append_of_ne_nil ht]
  simp [ht]

theorem number_append {s : List UInt8} (h : ¬ OpenNumber s) (z : List UInt8) :
    number (s ++ z) = ((number s).1, (number s).2 ++ z) := by
  have ht : (afterSign s).2.dropWhile isDigit ≠ [] := h
  simp only [number, afterSign_append h, takeWhile_append_of_ne_nil ht,
    dropWhile_append_of_ne_nil ht]
  split <;> rfl

/-- A NUL ends every number, also one the bytes before it leave open. -/
theorem afterSign_nul (s : List UInt8) :
    afterSign (s ++ [0]) = ((afterSign s).1, (afterSign s).2 ++ [0]) := by
  by_cases hs : s.dropWhile isSpace = []
  -- only blanks: the NUL is neither a blank nor a sign
  · have hz : (s ++ [0]).dropWhile isSpace = [0] := by
      rw [List.dropWhile_append]
      simp [hs, isSpace]
    simp [afterSign, hz, hs, skipSign, chr]
  · calc
      afterSign (s ++ [0]) = skipSign (s.dropWhile isSpace ++ [0]) := by
        rw [afterSign, dropWhile_append_of_ne_nil hs]
      _ = ((afterSign s).1, (afterSign s).2 ++ [0]) := skipSign_append hs [0]

theorem dropWhile_isDigit_nul (t : List UInt8) :
    (t ++ [0]).dropWhile isDigit = t.dropWhile isDigit ++ [0] := by
  by_cases ht : t.dropWhile isDigit = []
  · rw [List.dropWhile_append]
    simp [ht, isDigit]
  · exact dropWhile_append_of_ne_nil ht _

theorem takeWhile_isDigit_nul (t : List UInt8) :
    (t ++ [0]).takeWhile isDigit = t.takeWhile isDigit := by
  induction t with
  | nil =>
      simp [isDigit]
  | cons b bs ih =>
      by_cases hb : isDigit b = true
      · simpa [hb] using ih
      · simp [hb]

theorem not_openNumber_nul (s : List UInt8) : ¬ OpenNumber (s ++ [0]) := by
  rw [OpenNumber, afterSign_nul, dropWhile_isDigit_nul]
  simp

theorem number_nul (s : List UInt8) :
    number (s ++ [0]) = ((number s).1, (number s).2 ++ [0]) := by
  simp only [number, afterSign_nul, takeWhile_isDigit_nul, dropWhile_isDigit_nul]
  split <;> rfl

/-! ## What a number consumes -/

theorem number_ne_nil {s : List UInt8} (h : ¬ OpenNumber s) : (number s).2 ≠ [] := by
  simp only [number]
  split
  -- no digit: nothing was consumed, so the string itself would be empty
  · rintro rfl
    exact h rfl
  · exact h

theorem skipSign_suffix (s : List UInt8) : (skipSign s).2 <:+ s := by
  cases s with
  | nil =>
      exact List.suffix_refl _
  | cons b bs =>
      simp only [skipSign]
      split
      · exact List.suffix_cons b bs
      · split
        · exact List.suffix_cons b bs
        · exact List.suffix_refl _

theorem number_suffix (s : List UInt8) : (number s).2 <:+ s := by
  simp only [number]
  split
  · exact List.suffix_refl _
  · have hsign : (afterSign s).2 <:+ s :=
      (skipSign_suffix _).trans (List.dropWhile_suffix _)
    exact (List.dropWhile_suffix _).trans hsign

theorem not_isSpace_of_isDigit {b : UInt8} (hb : isDigit b = true) : isSpace b = false := by
  have h := isDigit_iff.1 hb
  simp only [isSpace, Bool.or_eq_false_iff, Bool.and_eq_false_iff, decide_eq_false_iff_not]
  omega

theorem skipSign_of_isDigit {b : UInt8} (hb : isDigit b = true) (s : List UInt8) :
    skipSign (b :: s) = (false, b :: s) := by
  have hminus : b ≠ chr '-' := by
    rintro rfl
    exact absurd hb (by decide)
  have hplus : b ≠ chr '+' := by
    rintro rfl
    exact absurd hb (by decide)
  simp [skipSign, hminus, hplus]

theorem afterSign_of_isDigit {b : UInt8} (hb : isDigit b = true) (s : List UInt8) :
    afterSign (b :: s) = (false, b :: s) := by
  have hspace : (b :: s).dropWhile isSpace = b :: s := by
    simp [not_isSpace_of_isDigit hb]
  rw [afterSign, hspace, skipSign_of_isDigit hb]

/-- A number that starts with a digit is not negative and takes at least that digit. -/
theorem number_of_isDigit {b : UInt8} (hb : isDigit b = true) (s : List UInt8) :
    number (b :: s) =
      (clampLL (value (b :: s.takeWhile isDigit)), s.dropWhile isDigit) := by
  simp [number, afterSign_of_isDigit hb, hb, signed]

theorem takeWhile_append_stop {p : UInt8 → Bool} {w : List UInt8} (hw : ∀ b ∈ w, p b = true)
    {c : UInt8} (hc : p c = false) (r : List UInt8) :
    (w ++ c :: r).takeWhile p = w ∧ (w ++ c :: r).dropWhile p = c :: r := by
  induction w with
  | nil =>
      simp [hc]
  | cons b bs ih =>
      have hb : p b = true := hw b (by simp)
      have ih' := ih (fun x hx => hw x (by simp [hx]))
      simp [hb, ih'.1, ih'.2]

theorem clampLL_of_mem {i : Int} (hlo : llongMin ≤ i) (hhi : i ≤ llongMax) : clampLL i = i := by
  rw [clampLL]
  omega

/-- The text of an integer, with something after it that is not a digit, reads as that integer. -/
theorem number_ofInt {i : Int} (hlo : llongMin ≤ i) (hhi : i ≤ llongMax) {c : UInt8}
    (hc : isDigit c = false) (r : List UInt8) :
    number (ofInt i ++ c :: r) = (i, c :: r) := by
  -- the digits of a natural number are cut off by `c`, and there is at least one
  have hread : ∀ n : Nat, ∃ b ds, ofNat n = b :: ds ∧ isDigit b = true ∧
      (ofNat n ++ c :: r).takeWhile isDigit = ofNat n ∧
      (ofNat n ++ c :: r).dropWhile isDigit = c :: r := by
    intro n
    cases hn : ofNat n with
    | nil =>
        exact absurd hn (ofNat_ne_nil n)
    | cons b ds =>
        have hall : ∀ x ∈ b :: ds, isDigit x = true := by
          intro x hx
          exact ofNat_digits (n := n) (by rw [hn]; exact hx)
        have hstop := takeWhile_append_stop hall hc r
        exact ⟨b, ds, rfl, hall b (by simp), hstop.1, hstop.2⟩
  cases i with
  | ofNat n =>
      rcases hread n with ⟨b, ds, hn, hb, htake, hdrop⟩
      have hsign : afterSign (ofNat n ++ c :: r) = (false, ofNat n ++ c :: r) := by
        rw [hn]
        exact afterSign_of_isDigit hb _
      have hval : clampLL (signed false (value (ofNat n))) = Int.ofNat n := by
        rw [value_ofNat]
        exact clampLL_of_mem hlo hhi
      simp [number, ofInt, hsign, htake, hdrop, ofNat_ne_nil, hval]
  | negSucc n =>
      -- the minus sign is printed for these only, and read back as one
      rcases hread (n + 1) with ⟨b, ds, hn, hb, htake, hdrop⟩
      have hsign : afterSign (45 :: (ofNat (n + 1) ++ c :: r)) =
          (true, ofNat (n + 1) ++ c :: r) := by
        simp [afterSign, isSpace, skipSign, chr]
      have hval : clampLL (signed true (value (ofNat (n + 1)))) = Int.negSucc n := by
        rw [value_ofNat]
        exact clampLL_of_mem hlo hhi
      simp [number, ofInt, hsign, htake, hdrop, ofNat_ne_nil, hval]

end BitDht
