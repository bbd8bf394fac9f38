import BitDht.Base
import BitDht.Container.Iterator
import BitDht.Iface
import Mathlib.Data.List.Lex

/-!
# Hash — the stored values of `bdhash.cc`

A `bdHashSet` holds what was stored under one id: a multimap from keys to values, each with the time
at which it was stored, a lifetime, and possibly a secret.  A `bdHashSpace` holds the sets of a node.
The clock is a parameter: `now` is what `time(NULL)` returns.
-/

namespace BitDht

open Container

/-- A `std::string` as a key of an ordered container. -/
structure StdString where
  data : List UInt8
  deriving DecidableEq

/-- The order of `std::string` is that of its bytes, from the first one on. -/
instance : LinearOrder StdString :=
  LinearOrder.lift' (fun s => s.data.map UInt8.toNat) (by
    intro a b h
    have hinj : Function.Injective UInt8.toNat := fun x y hxy => UInt8.toNat_inj.1 hxy
    rcases a with ⟨as⟩
    rcases b with ⟨bs⟩
    exact congrArg StdString.mk (List.map_injective_iff.2 hinj h))

/-- `BITDHT_HASH_ENTRY_ADD` -/
def bitdhtHashEntryAdd : UInt32 := 1

/-- `BITDHT_HASH_ENTRY_DELETE` -/
def bitdhtHashEntryDelete : UInt32 := 2

/-- `bdHashEntry` -/
structure BdHashEntry where
  mValue : List UInt8
  mStoreTS : Int
  mSecret : List UInt8
  mLifetime : Int
  deriving DecidableEq

/-- `bdHashSet` -/
structure BdHashSet where
  mId : BdNodeId
  mEntries : Multimap StdString BdHashEntry

/-- The constructor of `bdHashSet`. -/
def BdHashSet.new (id : BdNodeId) : BdHashSet where
  mId := id
  mEntries := .empty

/-! ## `modify` -/

/-- What the body of the loop of `modify` does with an entry. -/
inductive HashAction
  | leave
  | update
  | erase
  deriving DecidableEq

/-- The body of the loop of `modify`, for the entry `it`. -/
def modifyAction (now : Int) (entry : BdHashEntry) (modFlags : UInt32) (it : BdHashEntry) :
    HashAction :=
  -- check it all
  if it.mValue = entry.mValue then
    let noSecret := it.mSecret == []
    let sameSecret := it.mSecret == entry.mSecret
    if noSecret && sameSecret then
      -- only allowed to increase lifetime
      if modFlags = bitdhtHashEntryAdd then
        let existKillTime := it.mLifetime + it.mStoreTS
        let newKillTime := entry.mLifetime + now
        if newKillTime > existKillTime then .update else .leave
      else
        .leave
    else if sameSecret then
      if modFlags = bitdhtHashEntryAdd then .update
      else if modFlags = bitdhtHashEntryDelete then .erase
      else .leave
    else
      .leave
  else
    .leave

/-- The entry `it` with the time and the lifetime of an update. -/
def BdHashEntry.update (it : BdHashEntry) (now : Int) (entry : BdHashEntry) : BdHashEntry :=
  { it with mStoreTS := now, mLifetime := entry.mLifetime }

/-- The entries of the key after the loop of `modify`, the flag `updated`, and whether the loop was
left with an erasure. -/
structure ModifyLoop where
  entries : List BdHashEntry
  updated : Bool
  erased : Bool

/-- The loop of `modify`, over the entries of the key. -/
def modifyLoop (now : Int) (entry : BdHashEntry) (modFlags : UInt32) :
    Bool → List BdHashEntry → ModifyLoop
  | updated, [] => { entries := [], updated := updated, erased := false }
  | updated, it :: rest =>
      match modifyAction now entry modFlags it with
      | .leave =>
          let r := modifyLoop now entry modFlags updated rest
          { r with entries := it :: r.entries }
      | .update =>
          let r := modifyLoop now entry modFlags true rest
          { r with entries := it.update now entry :: r.entries }
      | .erase => { entries := rest, updated := updated, erased := true }

/-- The entry that `modify` creates. -/
def newHashEntry (now : Int) (entry : BdHashEntry) : BdHashEntry where
  mValue := entry.mValue
  mStoreTS := now
  mSecret := entry.mSecret
  mLifetime := entry.mLifetime

/-- `bdHashSet::modify`: the set afterwards and the returned flag. -/
def BdHashSet.modify (s : BdHashSet) (now : Int) (key : StdString) (entry : BdHashEntry)
    (modFlags : UInt32) : BdHashSet × Bool :=
  let r := modifyLoop now entry modFlags false (s.mEntries.elements key)
  let mEntries := s.mEntries.setElements key r.entries
  if r.erased then
    ({ s with mEntries := mEntries }, true)
  else if !r.updated && modFlags = bitdhtHashEntryAdd then
    -- create a new entry
    ({ s with mEntries := mEntries.insert key (newHashEntry now entry) }, true)
  else
    ({ s with mEntries := mEntries }, r.updated)

/-! ## `cleanupHashSet` -/

/-- The test of `cleanupHashSet`: the entry is too old for the limit, read as a signed number, or for
its own lifetime. -/
def expired (now : Int) (maxAge : UInt32) (it : BdHashEntry) : Bool :=
  let age := now - it.mStoreTS
  age > maxAge.toInt32.toInt || age > it.mLifetime

/-- The loop of `cleanupHashSet`, which starts again after each erasure. -/
def cleanupLoop (now : Int) (maxAge : UInt32) (fuel : Nat) :
    MapIterator StdString BdHashEntry → Exec (MapIterator StdString BdHashEntry) :=
  Loop.run .outOfFuel (MapIterator.eraseStep (fun e => expired now maxAge e.2)) fuel

/-- `bdHashSet::cleanupHashSet` -/
def BdHashSet.cleanupHashSet (s : BdHashSet) (now : Int) (maxAge : UInt32) : Exec BdHashSet := do
  let it ← cleanupLoop now maxAge (s.mEntries.begin.passes + 1) s.mEntries.begin
  return { s with mEntries := it.container }

/-! ## `bdHashSpace` -/

/-- `bdHashSpace` -/
structure BdHashSpace where
  mHashTable : OrdMap BdNodeId BdHashSet

/-- `bdHashSpace::modify` -/
def BdHashSpace.modify (s : BdHashSpace) (now : Int) (id : BdNodeId) (key : StdString)
    (entry : BdHashEntry) (modFlags : UInt32) : BdHashSpace × Bool :=
  match s.mHashTable.find id with
  | some set =>
      let r := set.modify now key entry modFlags
      ({ s with mHashTable := s.mHashTable.assign id r.1 }, r.2)
  | none =>
      if modFlags = bitdhtHashEntryDelete then
        -- done already
        (s, true)
      else
        let r := (BdHashSet.new id).modify now key entry modFlags
        ({ s with mHashTable := s.mHashTable.assign id r.1 }, r.2)

/-- The conversion of a `time_t` to `uint32_t`. -/
def timeToUint32 (t : Int) : UInt32 :=
  UInt32.ofNat (t % 4294967296).toNat

/-- The test of the first loop of `cleanHashSpace`. -/
def outOfRange (min max id : BdNodeId) : Bool :=
  bdNodeIdLt id min || bdNodeIdLt max id

/-- One pass of the first loop of `cleanHashSpace`, over the table and `eraseList`.  Each set is
cleaned at the time at which its turn comes. -/
def cleanPass (now : BdNodeId → Int) (min max : BdNodeId) (maxAge : Int)
    (s : OrdMap BdNodeId BdHashSet × List BdNodeId) (it : BdNodeId × BdHashSet) :
    Exec (OrdMap BdNodeId BdHashSet × List BdNodeId) :=
  if outOfRange min max it.1 then
    -- schedule for erasure
    .ok (s.1, s.2 ++ [it.1])
  else do
    -- clean up Hash Set
    let set ← it.2.cleanupHashSet (now it.1) (timeToUint32 maxAge)
    return (s.1.assign it.1 set, s.2)

/-- One pass of the second loop of `cleanHashSpace`, which leaves `eraseList` as it is. -/
def eraseScheduled (s : OrdMap BdNodeId BdHashSet × List BdNodeId) :
    Option (OrdMap BdNodeId BdHashSet × List BdNodeId) :=
  match s.2 with
  | [] => none
  | eId :: _ =>
      match s.1.find eId with
      | some _ => some (s.1.erase eId, s.2)
      | none => some s

/-- `bdHashSpace::cleanHashSpace`, with at most `fuel` tests of the condition of its second loop. -/
def BdHashSpace.cleanHashSpace (s : BdHashSpace) (fuel : Nat) (now : BdNodeId → Int)
    (min max : BdNodeId) (maxAge : Int) : Exec BdHashSpace := do
  let scan ← s.mHashTable.entries.foldlM (cleanPass now min max maxAge) (s.mHashTable, [])
  let r ← Loop.run .outOfFuel eraseScheduled fuel scan
  return { s with mHashTable := r.1 }

end BitDht
