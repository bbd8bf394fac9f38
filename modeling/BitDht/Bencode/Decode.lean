import BitDht.CLib

/-!
# Decode — `be_node` trees and the decoder of `bencode.c`

`_be_decode` walks the buffer with a pointer and a remaining length that it updates side by side;
both are kept here as a `Cursor`, and nothing ties them together but the code.  The recursion of
`_be_decode` and its two container loops are bounded by a budget, which `beDecoden` chooses large
enough for every buffer (`beDecoden_ne_outOfFuel` in `Bencode.Run`).
-/

namespace BitDht

open Decimal Outcome

/-! ## The tree -/

/-- A finished `be_node`.  `str none` is a `BE_STR` node whose `val.s` is null; the arrays of a list
or dictionary node are given up to their null terminator. -/
inductive BeNode
  | str (s : Option (List UInt8))
  | int (i : Int)
  | list (l : List BeNode)
  | dict (d : List (List UInt8 × BeNode))
  deriving Repr

namespace BeNode

mutual

/-- Trees are compared by structure, so a decoded packet can be tested against an expected tree. -/
def decEq : (a b : BeNode) → Decidable (a = b)
  | .str s, .str t => decidable_of_iff (s = t) (by simp)
  | .int i, .int j => decidable_of_iff (i = j) (by simp)
  | .list l, .list m => @decidable_of_iff _ (l = m) (by simp) (decEqList l m)
  | .dict d, .dict e => @decidable_of_iff _ (d = e) (by simp) (decEqDict d e)
  | .str _, .int _ => isFalse (by simp)
  | .str _, .list _ => isFalse (by simp)
  | .str _, .dict _ => isFalse (by simp)
  | .int _, .str _ => isFalse (by simp)
  | .int _, .list _ => isFalse (by simp)
  | .int _, .dict _ => isFalse (by simp)
  | .list _, .str _ => isFalse (by simp)
  | .list _, .int _ => isFalse (by simp)
  | .list _, .dict _ => isFalse (by simp)
  | .dict _, .str _ => isFalse (by simp)
  | .dict _, .int _ => isFalse (by simp)
  | .dict _, .list _ => isFalse (by simp)

def decEqList : (l m : List BeNode) → Decidable (l = m)
  | [], [] => isTrue rfl
  | [], _ :: _ => isFalse (by simp)
  | _ :: _, [] => isFalse (by simp)
  | a :: l, b :: m =>
      @decidable_of_iff _ (a = b ∧ l = m) (by simp)
        (@instDecidableAnd _ _ (decEq a b) (decEqList l m))

def decEqDict : (d e : List (List UInt8 × BeNode)) → Decidable (d = e)
  | [], [] => isTrue rfl
  | [], _ :: _ => isFalse (by simp)
  | _ :: _, [] => isFalse (by simp)
  | (k, a) :: d, (k', b) :: e =>
      @decidable_of_iff _ ((k = k' ∧ a = b) ∧ d = e) (by simp)
        (@instDecidableAnd _ _ (@instDecidableAnd _ _ (instDecidableEqList k k') (decEq a b))
          (decEqDict d e))

end

instance : DecidableEq BeNode :=
  decEq

end BeNode

/-- `be_str_len`: the length stored in front of `val.s`, and 0 for a null string. -/
def beStrLen : Option (List UInt8) → Nat
  | some s => s.length
  | none => 0

/-! ## Releasing a container that is not finished -/

/-- One slot of an entry array after `realloc`: never assigned, or a pointer that may be null. -/
inductive Slot (α : Type)
  | unassigned
  | assigned (p : Option α)

/-- The scan of `be_free` over the entries of a list or dictionary node.  It stops at the first null
entry; a finished child ends in its own terminator, so releasing it reads assigned slots only. -/
def beFreeEntries : List (Slot BeNode) → Exec Unit
  | [] => .error .overread
  | .unassigned :: _ => .error .unassigned
  | .assigned none :: _ => .ok ()
  | .assigned (some _) :: slots => beFreeEntries slots

/-- The entry array when a container loop gives up: the finished entries, the slot of this round,
and the spare slot of `realloc(.., (i + 2) * ..)`. -/
def killedEntries (done : List BeNode) (current : Option BeNode) : List (Slot BeNode) :=
  done.map (fun n => .assigned (some n)) ++ [.assigned current, .unassigned]

theorem beFreeEntries_killed (done : List BeNode) (current : Option BeNode) :
    beFreeEntries (killedEntries done current) =
      if current = none then .ok () else .error .unassigned := by
  -- the scan passes over every finished entry, so the slot of this round decides
  induction done with
  | nil =>
      cases current <;> simp [killedEntries, beFreeEntries]
  | cons n done ih =>
      simpa [killedEntries, beFreeEntries] using ih

/-! ## The decoder -/

/-- `*data` and `*data_len`. -/
structure Cursor where
  data : List UInt8
  dataLen : Int

/-- `*data += k; *data_len -= k` -/
def Cursor.skip (c : Cursor) (k : Nat) : Cursor :=
  { data := c.data.drop k, dataLen := c.dataLen - k }

/-- `_be_decode_int` -/
def beDecodeInt (c : Cursor) : Exec (Int × Cursor) := do
  let (ret, endp) ← strtoll c.data
  pure (ret, { data := endp, dataLen := c.dataLen - (c.data.length - endp.length : Int) })

/-- `_be_decode_str` where `long` and `long long` have the same size. -/
def beDecodeStr (c : Cursor) : Exec (Option (List UInt8) × Cursor) := do
  let (sllen, c) ← beDecodeInt c
  -- `slen` is signed, so negative values get rejected
  if sllen < 0 then
    pure (none, c)
  -- make sure we have enough data left
  else if sllen > c.dataLen - 1 then
    pure (none, c)
  else do
    let len := sllen.toNat
    let b ← deref c.data
    if b = chr ':' then do
      let s ← readBytes len (c.data.drop 1)
      pure (some s, c.skip (len + 1))
    else
      pure (none, c)

mutual

/-- `_be_decode` -/
def beDecode : Nat → Cursor → Exec (Option BeNode × Cursor)
  | 0, _ => .error .outOfFuel
  | fuel + 1, c =>
      if c.dataLen = 0 then
        .ok (none, c)
      else do
        let b ← deref c.data
        -- lists
        if b = chr 'l' then
          beDecodeList fuel [] (c.skip 1)
        -- dictionaries
        else if b = chr 'd' then
          beDecodeDict fuel [] (c.skip 1)
        -- integers
        else if b = chr 'i' then do
          let (i, c) ← beDecodeInt (c.skip 1)
          let b ← deref c.data
          if b ≠ chr 'e' then
            pure (none, c)
          else
            pure (some (.int i), c.skip 1)
        -- byte strings: the node is returned whether or not the string was read
        else if isDigit b then do
          let (s, c) ← beDecodeStr c
          pure (some (.str s), c)
        -- invalid
        else
          pure (none, c)

/-- The `while (**data != 'e')` loop for a list whose entries so far are `l`. -/
def beDecodeList : Nat → List BeNode → Cursor → Exec (Option BeNode × Cursor)
  | 0, _, _ => .error .outOfFuel
  | fuel + 1, l, c => do
      let b ← deref c.data
      if b = chr 'e' then
        pure (some (.list l), c.skip 1)
      else do
        let (n, c) ← beDecode fuel c
        match n with
        -- failed decode - kill decode
        | none => do
            beFreeEntries (killedEntries l none)
            pure (none, c)
        | some n => beDecodeList fuel (l ++ [n]) c

/-- The `while (**data != 'e')` loop for a dictionary whose entries so far are `d`. -/
def beDecodeDict : Nat → List (List UInt8 × BeNode) → Cursor → Exec (Option BeNode × Cursor)
  | 0, _, _ => .error .outOfFuel
  | fuel + 1, d, c => do
      let b ← deref c.data
      if b = chr 'e' then
        pure (some (.dict d), c.skip 1)
      else do
        let (key, c) ← beDecodeStr c
        let (val, c) ← beDecode fuel c
        match key, val with
        | some key, some val => beDecodeDict fuel (d ++ [(key, val)]) c
        -- failed decode - kill decode; `be_free` goes by the value, whichever of the two failed
        | _, val => do
            beFreeEntries (killedEntries (d.map Prod.snd) val)
            pure (none, c)

end

/-- The recursion budget for a buffer of `n` bytes. -/
def decodeBudget (n : Nat) : Nat :=
  2 * n + 1

/-- `be_decoden(data, len)` with the final values of its local `data` and `len`. -/
def beDecodenAt (data : List UInt8) (len : Int) : Exec (Option BeNode × Cursor) :=
  beDecode (decodeBudget data.length) { data := data, dataLen := len }

/-- `be_decoden` on a buffer that starts at `data` and ends where the list ends. -/
def beDecoden (data : List UInt8) (len : Int) : Exec (Option BeNode) := do
  let (n, _) ← beDecodenAt data len
  pure n

end BitDht
