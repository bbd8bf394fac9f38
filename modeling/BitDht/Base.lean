import BitDht.Exec.Outcome

/-!
# Base — faults, bytes and constants

Code of the library runs over raw memory.  A model function that may touch memory it does not own
or follow a null pointer returns in `Exec`: either a result, or the first `Fault` on the way.
-/

namespace BitDht

/-- What the C and C++ code must never do. -/
inductive Fault
  /-- a byte past the end of a buffer is read -/
  | overread
  /-- a byte past the end of a buffer is written -/
  | overrun
  /-- `node->type` for a node that is null -/
  | nullNode
  /-- `node->val.s[0]` for a string that is null -/
  | nullString
  /-- `be_free` reads an entry slot that was never assigned -/
  | unassigned
  /-- `token.data[i]` with `i >= BITDHT_TOKEN_MAX_LEN` -/
  | tokenOverrun
  /-- `c.byte[j]` outside the four bytes of the scratch word -/
  | scratchOverrun
  /-- the recursion budget of the model is used up; no run of the code ends so -/
  | outOfFuel
  deriving DecidableEq, Repr

abbrev Exec := Except Fault

instance decidableEqExcept {ε α : Type} [DecidableEq ε] [DecidableEq α] :
    DecidableEq (Except ε α)
  | .ok a, .ok b => decidable_of_iff (a = b) (by simp)
  | .error e, .error e' => decidable_of_iff (e = e') (by simp)
  | .ok _, .error _ => isFalse (by simp)
  | .error _, .ok _ => isFalse (by simp)

/-- The bytes of a string literal of the source, without its terminator. -/
def ascii (s : String) : List UInt8 :=
  s.toList.map (fun c => UInt8.ofNat c.toNat)

/-- The byte of a character literal of the source. -/
def chr (c : Char) : UInt8 :=
  UInt8.ofNat c.toNat

/-! ## Limits of the integer types -/

def intMax : Int := 2147483647

def llongMax : Int := 9223372036854775807

def llongMin : Int := -9223372036854775808

/-! ## Constants of `bdiface.h`, `bdobj.h` and `bdmsgs.h` -/

def bitdhtKeyLen : Nat := 20

def bitdhtKeyBitLen : Nat := 160

def bitdhtTokenMaxLen : Nat := 20

def bitdhtCompactNodeIdLen : Nat := 26

def bitdhtCompactPeerIdLen : Nat := 6

end BitDht
