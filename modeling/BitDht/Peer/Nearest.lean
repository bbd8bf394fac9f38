import BitDht.Container.Least
import BitDht.Peer.Space

/-!
# Nearest — what `find_nearest_nodes` finds

The search collects every entry of the table under its distance to the target and copies the first
ones.  What it finds in an empty map are the nearest of the stored peers (`findNearestNodes_leastBy`).
-/

namespace BitDht

open Container

variable {mFns : BdDhtFunctions}

namespace BdSpace

/-- The ids of the stored peers, one for each entry. -/
def stored (s : BdSpace mFns) : List BdId :=
  s.buckets.flatten.map BdPeer.mPeerId

theorem length_stored (s : BdSpace mFns) : s.stored.length = s.calcSpaceSize := by
  rw [stored, List.length_map, List.length_flatten, calcSpaceSize]

/-- `l` are the nearest of the stored peers, `number` of them if there are so many. -/
def Nearest (s : BdSpace mFns) (id : BdNodeId) (number : Nat) (l : List BdId) : Prop :=
  LeastBy (fun p => mFns.bdDistance id p.id) number s.stored l

/-- The entries of the map that the search makes. -/
def keyed (s : BdSpace mFns) (id : BdNodeId) : List (BdMetric × BdId) :=
  s.stored.map (fun p => (mFns.bdDistance id p.id, p))

/-- The search makes a map of all entries and copies the first `number` of them to another one. -/
theorem findNearestNodes_leastBy (s : BdSpace mFns) (id : BdNodeId) (number : Nat) :
    LeastBy Prod.fst number (s.keyed id)
      (s.findNearestNodes id number Multimap.empty).entries := by
  have hempty : (Multimap.empty : Multimap BdMetric BdId).entries = [] := rfl
  -- the map of all entries
  have hall := Multimap.foldl_insert_perm (fun eit : BdPeer => mFns.bdDistance id eit.mPeerId.id)
    BdPeer.mPeerId s.buckets.flatten Multimap.empty
  have hkeyed : s.keyed id =
      s.buckets.flatten.map (fun eit => (mFns.bdDistance id eit.mPeerId.id, eit.mPeerId)) :=
    List.map_map
  rw [hempty, List.append_nil, ← hkeyed] at hall
  have htake := LeastBy.take (Multimap.sorted _) hall number
  -- the copies
  have hcopy := Multimap.foldl_insert_perm (Prod.fst : BdMetric × BdId → BdMetric) Prod.snd
    ((s.buckets.flatten.foldl (fun closest eit =>
      closest.insert (mFns.bdDistance id eit.mPeerId.id) eit.mPeerId) Multimap.empty).entries.take
        number) Multimap.empty
  rw [hempty, List.append_nil, List.map_id'' (fun _ => rfl)] at hcopy
  exact htake.of_perm hcopy (Multimap.sorted _)

/-- Every entry that is found is keyed by its distance. -/
theorem fst_of_mem_findNearestNodes {s : BdSpace mFns} {id : BdNodeId} {number : Nat}
    {e : BdMetric × BdId} (h : e ∈ (s.findNearestNodes id number Multimap.empty).entries) :
    e.1 = mFns.bdDistance id e.2.id := by
  rcases (s.findNearestNodes_leastBy id number).least with ⟨rest, hall, _⟩
  rcases List.mem_map.1 (hall.mem_iff.1 (List.mem_append_left rest h)) with ⟨p, _, rfl⟩
  rfl

theorem nearest_findNearestNodes (s : BdSpace mFns) (id : BdNodeId) (number : Nat) :
    s.Nearest id number
      ((s.findNearestNodes id number Multimap.empty).entries.map Prod.snd) := by
  have hkey : ∀ e ∈ s.keyed id, mFns.bdDistance id e.2.id = e.1 := by
    intro e he
    rcases List.mem_map.1 he with ⟨p, _, rfl⟩
    rfl
  have hmap : LeastBy (fun p : BdId => mFns.bdDistance id p.id) number _ _ :=
    (s.findNearestNodes_leastBy id number).map hkey
  rw [keyed, List.map_map] at hmap
  have hself : (Prod.snd ∘ fun p : BdId => (mFns.bdDistance id p.id, p)) = fun p => p := rfl
  rw [hself, List.map_id'' (fun _ => rfl)] at hmap
  exact hmap

end BdSpace

/-- The search finds `number` stored peers, or all of them, each entry once and under its XOR
distance to the target, and no peer that it leaves out is closer than one that it finds. -/
theorem findNearestNodes_nearest (s : BdSpace bdStdDht) (id : BdNodeId) (number : Nat) :
    let nearest := s.findNearestNodes id number Multimap.empty
    nearest.size = min number s.calcSpaceSize ∧
      (∀ e ∈ nearest.entries, e.1 = bdStdDistance id e.2.id) ∧
      ∃ rest, (nearest.entries.map Prod.snd ++ rest).Perm
          (s.buckets.flatten.map BdPeer.mPeerId) ∧
        ∀ e ∈ nearest.entries, ∀ p ∈ rest, bdNodeIdLt (bdStdDistance id p.id) e.1 = false := by
  intro nearest
  have hnearest := s.nearest_findNearestNodes id number
  have hdist : ∀ e ∈ nearest.entries, e.1 = bdStdDistance id e.2.id :=
    fun e he => BdSpace.fst_of_mem_findNearestNodes he
  refine ⟨?_, hdist, ?_⟩
  · calc
      nearest.size = (nearest.entries.map Prod.snd).length := List.length_map _ |>.symm
      _ = min number s.stored.length := hnearest.length
      _ = min number s.calcSpaceSize := by rw [s.length_stored]
  · rcases hnearest.least with ⟨rest, hall, hleast⟩
    refine ⟨rest, hall, ?_⟩
    intro e he p hp
    have hle := hleast e.2 (List.mem_map_of_mem he) p hp
    rw [← Bool.not_eq_true, bdNodeIdLt_iff, not_lt, hdist e he]
    exact hle

end BitDht
