import BitDht.CLib

/-!
# Cipher — the trailer of `bitdht_ecrypt` and `bitdht_decrypt`

A trailer is a checksum word and a token word behind the body of a message.
-/

namespace BitDht

open Outcome

/-! ## The two functions -/

/-- `msg[i]` as it is added to a `uint32_t`: a `char` is signed. -/
def charWord (b : UInt8) : UInt32 :=
  -- a byte from 128 on is the negative `char` 256 below it
  if b.toNat < 128 then UInt32.ofNat b.toNat else UInt32.ofNat b.toNat - 256

/-- `sum += msg[i]` over the body. -/
def charSum (sum : UInt32) (body : List UInt8) : UInt32 :=
  body.foldl (fun sum b => sum + charWord b) sum

/-- `sum % ((uint32_t) -1)` -/
def reduceSum (sum : UInt32) : UInt32 :=
  sum % 4294967295

/-- The checksum on the sending side, which starts from the size. -/
def ecryptSum (body : List UInt8) : UInt32 :=
  reduceSum (charSum (UInt32.ofNat body.length) body)

/-- The checksum on the receiving side, which adds the size at the end. -/
def decryptSum (body : List UInt8) : UInt32 :=
  reduceSum (charSum 0 body + UInt32.ofNat body.length)

/-- `for (j = 0; j < 4 && i + j < avail; i++, j++) msg[i] = c.byte[j]`, from index `j` on. -/
def putWord (msg : List UInt8) (i : Nat) (avail : Int) (j : Nat) :
    List UInt8 → Exec (List UInt8 × Nat)
  | [] => pure (msg, i)
  | b :: bytes =>
      -- `i` has moved on with `j`, so the test sees the index twice
      if (i : Int) + j < avail then do
        let msg ← writeAt msg i [b]
        putWord msg (i + 1) avail (j + 1) bytes
      else
        pure (msg, i)

/-- `bitdht_ecrypt`: the buffer afterwards and the returned length. -/
def bitdhtEcrypt (msg : List UInt8) (size : Nat) (avail : Int) (token : UInt32) :
    Exec (List UInt8 × Nat) := do
  let body ← readBytes size msg
  let (msg, i) ← putWord msg size avail 0 (storeU32 (ecryptSum body))
  putWord msg i avail 0 (storeU32 token)

/-- `msg[j]` -/
def charAt (msg : List UInt8) (j : Int) : Exec UInt8 :=
  if j < 0 then .error .overread else deref (msg.drop j.toNat)

/-- `c.byte[j] = b` -/
def setScratch (c : List UInt8) (j : Int) (b : UInt8) : Exec (List UInt8) :=
  if 0 ≤ j ∧ j < 4 then .ok (c.set j.toNat b) else .error .scratchOverrun

/-- `c.byte[j] = msg[j]` for `count` indices from `j` on. -/
def copyScratch (msg c : List UInt8) : Nat → Int → Exec (List UInt8)
  | 0, _ => pure c
  | count + 1, j => do
      let b ← charAt msg j
      let c ← setScratch c j b
      copyScratch msg c count (j + 1)

/-- `bitdht_decrypt`: the returned flag and `*token`. -/
def bitdhtDecrypt (msg : List UInt8) (size : Nat) : Exec (Bool × UInt32) := do
  -- `c` starts uninitialised; the zeros are never read, since a loop that ends has set all four
  let c ← copyScratch msg [0, 0, 0, 0] 4 ((size : Int) - 4)
  let token ← loadU32 c
  let body ← readBytes (size - 8) msg
  let c ← readBytes 4 (msg.drop (size - 8))
  let sum ← loadU32 c
  pure (sum == decryptSum body, token)

/-! ## The checksums agree -/

theorem charSum_add (sum x : UInt32) (body : List UInt8) :
    charSum (sum + x) body = charSum sum body + x := by
  induction body generalizing sum with
  | nil =>
      rfl
  | cons b body ih =>
      have hswap : sum + x + charWord b = sum + charWord b + x := by
        rw [UInt32.add_assoc, UInt32.add_comm x, ← UInt32.add_assoc]
      calc
        charSum (sum + x) (b :: body) = charSum (sum + charWord b + x) body := by
          rw [charSum, List.foldl_cons, hswap, ← charSum]
        _ = charSum (sum + charWord b) body + x := ih (sum + charWord b)

/-- Both sides compute the same checksum of a body. -/
theorem decryptSum_eq (body : List UInt8) : decryptSum body = ecryptSum body := by
  calc
    decryptSum body = reduceSum (charSum 0 body + UInt32.ofNat body.length) := rfl
    _ = reduceSum (charSum (0 + UInt32.ofNat body.length) body) := by rw [charSum_add]
    _ = ecryptSum body := by rw [UInt32.zero_add, ecryptSum]

/-! ## Where the trailer goes wrong -/

/-- The scratch array is indexed with the index into the message, which is in range only for a
message of four bytes. -/
theorem bitdhtDecrypt_ok {msg : List UInt8} {size : Nat} {r : Bool × UInt32}
    (h : bitdhtDecrypt msg size = .ok r) : size = 4 := by
  have hset : ∀ {c j b c'}, setScratch c j b = .ok c' → 0 ≤ j ∧ j < 4 := by
    intro c j b c' hset
    by_contra hj
    simp [setScratch, hj] at hset
  -- four rounds of the loop; the first index and the last one are in range
  rcases bind_eq_ok.1 h with ⟨c, hc, _⟩
  rcases bind_eq_ok.1 hc with ⟨b, _, hc⟩
  rcases bind_eq_ok.1 hc with ⟨c₁, hfirst, hc⟩
  rcases bind_eq_ok.1 hc with ⟨b, _, hc⟩
  rcases bind_eq_ok.1 hc with ⟨c₂, _, hc⟩
  rcases bind_eq_ok.1 hc with ⟨b, _, hc⟩
  rcases bind_eq_ok.1 hc with ⟨c₃, _, hc⟩
  rcases bind_eq_ok.1 hc with ⟨b, _, hc⟩
  rcases bind_eq_ok.1 hc with ⟨c₄, hlast, _⟩
  have hlo := (hset hfirst).1
  have hhi := (hset hlast).2
  omega

theorem putWord_append {bytes rest : List UInt8} (h : bytes.length ≤ rest.length) {w : List UInt8}
    {avail : Int} {j : Nat} (havail : (w.length : Int) + j + 2 * bytes.length ≤ avail + 1) :
    putWord (w ++ rest) w.length avail j bytes =
      .ok (w ++ (bytes ++ rest.drop bytes.length), w.length + bytes.length) := by
  induction bytes generalizing w j rest with
  | nil =>
      simp [putWord]
  | cons b bytes ih =>
      simp only [List.length_cons] at h havail
      have hroom : (w.length : Int) + j < avail := by omega
      -- one byte is written, and the round after it finds the rest of the buffer
      have hwrite : writeAt (w ++ rest) w.length [b] = .ok ((w ++ [b]) ++ rest.drop 1) := by
        rw [writeAt_append (by simp only [List.length_singleton]; omega)]
        simp
      have hnext := @ih (rest.drop 1) (by simp only [List.length_drop]; omega) (w ++ [b]) (j + 1)
        (by simp only [List.length_append, List.length_singleton]; omega)
      simp only [List.length_append, List.length_singleton] at hnext
      simp only [putWord, hroom, if_true, hwrite, ok_bind, hnext, List.length_cons]
      simp [Nat.add_comm, Nat.add_left_comm]

/-- The whole trailer is written when three bytes more than the trailer needs are available. -/
theorem bitdhtEcrypt_eq {body rest : List UInt8} {avail : Int} (token : UInt32)
    (havail : (body.length : Int) + 11 ≤ avail) (hrest : 8 ≤ rest.length) :
    bitdhtEcrypt (body ++ rest) body.length avail token =
      .ok (body ++ (storeU32 (ecryptSum body) ++ (storeU32 token ++ rest.drop 8)),
        body.length + 8) := by
  have hread : readBytes body.length (body ++ rest) = .ok body := by simp [readBytes]
  -- first the checksum, then the token behind it
  have hsum := @putWord_append (storeU32 (ecryptSum body)) rest
    (by rw [length_storeU32]; omega) body avail 0 (by rw [length_storeU32]; omega)
  have htoken := @putWord_append (storeU32 token) (rest.drop 4)
    (by rw [length_storeU32, List.length_drop]; omega) (body ++ storeU32 (ecryptSum body)) avail 0
    (by rw [length_storeU32, List.length_append, length_storeU32]; omega)
  rw [length_storeU32] at hsum htoken
  rw [List.length_append, length_storeU32, List.append_assoc] at htoken
  simp only [bitdhtEcrypt, hread, ok_bind, hsum, htoken]
  simp

/-- `bitdht_ecrypt` adds a trailer to the first `n` bytes that `bitdht_decrypt` accepts. -/
def TrailerRoundTrips (msg : List UInt8) (n : Nat) (avail : Int) (token : UInt32) : Prop :=
  ∃ msg', bitdhtEcrypt msg n avail token = .ok (msg', n + 8) ∧ msg'.take n = msg.take n ∧
    bitdhtDecrypt (msg'.take (n + 8)) (n + 8) = .ok (true, token)

/-- No message, no length, no room and no token make the trailer come back. -/
theorem not_trailerRoundTrips (msg : List UInt8) (n : Nat) (avail : Int) (token : UInt32) :
    ¬ TrailerRoundTrips msg n avail token := by
  rintro ⟨msg', _, _, hdec⟩
  -- a trailer alone has eight bytes
  have hsize := bitdhtDecrypt_ok hdec
  omega

/-- A body of one byte in a buffer of twelve: the trailer is written, and reading it back indexes
the scratch word with 5. -/
theorem not_trailerRoundTrips_one_byte :
    bitdhtEcrypt (List.replicate 12 65) 1 12 7 =
        .ok ([65, 66, 0, 0, 0, 7, 0, 0, 0, 65, 65, 65], 9) ∧
      bitdhtDecrypt [65, 66, 0, 0, 0, 7, 0, 0, 0] 9 = .error .scratchOverrun ∧
      ¬ TrailerRoundTrips (List.replicate 12 65) 1 12 7 := by
  refine ⟨by decide +kernel, by decide +kernel, ?_⟩
  rintro ⟨msg', _, _, hdec⟩
  have hsize := bitdhtDecrypt_ok hdec
  omega

end BitDht
