import BitDht.Container.Recent
import BitDht.Peer.Query
import Mathlib.Data.List.Range

/-!
# Store — the list of known addresses of `bdstore.cc`

A peer that is added moves to the end of the list, which is also the end that is cut off when there
are too many: `addStore_iff` says when the list nevertheless holds the most recent ones.
-/

namespace BitDht

open Container

/-- `MAX_ENTRIES` -/
def maxEntries : Nat := 1000

/-- `bdStore::removeStore` -/
def removeStore (store : List BdPeer) (peer : BdPeer) : List BdPeer :=
  store.filter (fun it => !(it.mPeerId.addr.sAddr == peer.mPeerId.addr.sAddr &&
    it.mPeerId.addr.sinPort == peer.mPeerId.addr.sinPort))

/-- `bdStore::addStore`.  Entries that are too many are dropped at the back, where the new one is. -/
def addStore (store : List BdPeer) (peer : BdPeer) : List BdPeer :=
  (removeStore store peer ++ [peer]).take maxEntries

/-- What the store tells peers apart by. -/
def peerAddr (peer : BdPeer) : UInt32 × UInt16 :=
  (peer.mPeerId.addr.sAddr, peer.mPeerId.addr.sinPort)

theorem addStore_eq_touch (store : List BdPeer) (peer : BdPeer) :
    addStore store peer = touch peerAddr maxEntries store peer := by
  have hremove : removeStore store peer = store.filter (fun it => peerAddr it ≠ peerAddr peer) := by
    apply List.filter_congr
    intro it _
    rw [Bool.eq_iff_iff]
    simp [peerAddr, Prod.ext_iff, imp_iff_not_or]
  rw [addStore, hremove, touch]

theorem foldl_addStore (ops : List BdPeer) :
    ops.foldl addStore [] = ops.foldl (touch peerAddr maxEntries) [] := by
  congr 1
  funext store peer
  exact addStore_eq_touch store peer

/-- After any sequence of additions to an empty store it holds the last addition for each of the
`MAX_ENTRIES` addresses that were added most recently, in this order, exactly when these are among
the first `MAX_ENTRIES` addresses that were added at all. -/
theorem addStore_iff (ops : List BdPeer) :
    ops.foldl addStore [] = (recent peerAddr ops).rtake maxEntries ↔
      ∀ peer ∈ (recent peerAddr ops).rtake maxEntries,
        peerAddr peer ∈ (firstKeys peerAddr ops).take maxEntries := by
  rw [foldl_addStore]
  exact foldl_touch_iff peerAddr maxEntries ops

/-- A peer at the address `n`. -/
def peerAt (n : Nat) : BdPeer where
  mPeerId :=
    { addr := { sinFamily := afInet, sAddr := UInt32.ofNat n, sinPort := 6775 },
      id := bdZeroNodeId }
  mPeerFlags := 0
  mLastSendTime := 0
  mLastRecvTime := 0
  mFoundTime := 0

/-- The last of a thousand and one peers is forgotten, not the first. -/
theorem addStore_thousand_and_one :
    ((List.range 1001).map peerAt).foldl addStore [] ≠
      (recent peerAddr ((List.range 1001).map peerAt)).rtake maxEntries := by
  have hnodup : (((List.range 1001).map peerAt).map peerAddr).Nodup := by
    rw [List.map_map]
    refine List.Nodup.map_on ?_ List.nodup_range
    intro m hm n hn heq
    rw [List.mem_range] at hm hn
    have hword : (UInt32.ofNat m).toNat = (UInt32.ofNat n).toNat :=
      congrArg (fun a => (Prod.fst a).toNat) heq
    rw [UInt32.toNat_ofNat', UInt32.toNat_ofNat'] at hword
    omega
  rw [foldl_addStore, foldl_touch_of_nodup peerAddr maxEntries hnodup,
    recent_of_nodup peerAddr hnodup]
  intro h
  have hhead := congrArg List.head? h
  rw [List.rtake, List.head?_take, List.head?_drop] at hhead
  simp [maxEntries, peerAt, List.head?_range] at hhead

end BitDht
