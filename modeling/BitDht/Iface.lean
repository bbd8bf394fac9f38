import BitDht.CLib
import Mathlib.Data.List.Lex

/-!
# Iface — ids, addresses and tokens of `bdiface.h` and `bdobj.h`
-/

namespace BitDht

/-- `bdNodeId` -/
structure BdNodeId where
  data : List UInt8
  size : data.length = bitdhtKeyLen
  deriving DecidableEq

/-- The loop of `operator<` on `bdNodeId`: the first byte that differs decides. -/
def bytesLt : List UInt8 → List UInt8 → Bool
  | a :: as, b :: bs => if a < b then true else if a > b then false else bytesLt as bs
  | _, _ => false

/-- `operator<` on `bdNodeId` -/
def bdNodeIdLt (a b : BdNodeId) : Bool :=
  bytesLt a.data b.data

theorem BdNodeId.ext_data {a b : BdNodeId} (h : a.data = b.data) : a = b := by
  rcases a with ⟨x, hx⟩
  rcases b with ⟨y, hy⟩
  simpa using h

/-- Ids are ordered as the numbers that they are in big-endian notation. -/
instance : LinearOrder BdNodeId :=
  LinearOrder.lift' (fun id => id.data.map UInt8.toNat) (by
    intro a b h
    have hinj : Function.Injective UInt8.toNat := fun x y hxy => UInt8.toNat_inj.1 hxy
    exact BdNodeId.ext_data (List.map_injective_iff.2 hinj h))

theorem bytesLt_iff {as bs : List UInt8} (h : as.length = bs.length) :
    bytesLt as bs = true ↔ as.map UInt8.toNat < bs.map UInt8.toNat := by
  induction as generalizing bs with
  | nil =>
      cases bs with
      | nil =>
          simp [bytesLt]
      | cons b bs =>
          simp at h
  | cons a as ih =>
      cases bs with
      | nil =>
          simp at h
      | cons b bs =>
          have htail := @ih bs (by simpa using h)
          simp only [bytesLt, List.map_cons, List.cons_lt_cons_iff, ← UInt8.lt_iff_toNat_lt,
            UInt8.toNat_inj, ← htail]
          by_cases hlt : a < b
          · simp [hlt]
          · by_cases hgt : a > b
            · have hne : a ≠ b := fun heq => by simp [heq] at hgt
              simp [hlt, hgt, hne]
            · have heq : a = b := UInt8.le_antisymm (UInt8.not_lt.1 hgt) (UInt8.not_lt.1 hlt)
              simp [heq]

/-- The order of the ids is the one that the source sorts by. -/
theorem bdNodeIdLt_iff {a b : BdNodeId} : bdNodeIdLt a b = true ↔ a < b :=
  bytesLt_iff (a.size.trans b.size.symm)

/-- The fields of `struct sockaddr_in` that the library uses, address and port in network order. -/
structure SockaddrIn where
  sinFamily : Nat
  sAddr : UInt32
  sinPort : UInt16
  deriving DecidableEq, Repr

/-- `AF_INET` -/
def afInet : Nat := 2

/-- `bdId` -/
structure BdId where
  addr : SockaddrIn
  id : BdNodeId
  deriving DecidableEq

/-- An id for examples, which begins with the byte `k`. -/
def byteId (k : Nat) : BdNodeId where
  data := UInt8.ofNat k :: List.replicate 19 0
  size := rfl

/-- A peer with such an id. -/
def bytePeer (k : Nat) : BdId where
  addr := ⟨afInet, 7, 7⟩
  id := byteId k

/-- `bdToken`: the `len` bytes from `data` on.  They lie inside the array as long as there are at
most `bitdhtTokenMaxLen` of them. -/
structure BdToken where
  data : List UInt8
  deriving DecidableEq, Repr

namespace BdToken

/-- `bdToken()` -/
def empty : BdToken := { data := [] }

def len (t : BdToken) : Nat := t.data.length

end BdToken

end BitDht
