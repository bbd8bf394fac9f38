import BitDht.Hash.Hash

/-!
# Cleanup — what `cleanupHashSet` and `cleanHashSpace` leave

The loop of `cleanupHashSet` always ends (`cleanupHashSet_eq`), but it reads its limit as a signed
number.  The second loop of `cleanHashSpace` does not take what it has erased off its list, so it
ends only if that list is empty.
-/

namespace BitDht

open Container Outcome

/-! ## `cleanupHashSet` -/

theorem expired_eq_false {now : Int} {maxAge : UInt32} {it : BdHashEntry} :
    expired now maxAge it = false ↔
      now - it.mStoreTS ≤ maxAge.toInt32.toInt ∧ now - it.mStoreTS ≤ it.mLifetime := by
  simp [expired]

/-- The entries that `cleanupHashSet` keeps. -/
def BdHashSet.unexpired (s : BdHashSet) (now : Int) (maxAge : UInt32) : BdHashSet where
  mId := s.mId
  mEntries := s.mEntries.erase (List.filter_sublist (p := fun e => !expired now maxAge e.2))

/-- The loop ends, and keeps just what it does not find expired. -/
theorem cleanupHashSet_eq (s : BdHashSet) (now : Int) (maxAge : UInt32) :
    s.cleanupHashSet now maxAge = .ok (s.unexpired now maxAge) := by
  rcases MapIterator.run_eraseStep Fault.outOfFuel (fun e => expired now maxAge e.2) s.mEntries with
    ⟨c, hrun, hentries⟩
  have hmap : c.container = (s.unexpired now maxAge).mEntries := Multimap.ext hentries
  rw [BdHashSet.cleanupHashSet, cleanupLoop, hrun, ok_bind, hmap]
  rfl

/-- The limit that the code compares with is the given one below `2 ^ 31`, and negative from there
on. -/
theorem toInt_toInt32 (maxAge : UInt32) :
    maxAge.toInt32.toInt =
      if maxAge.toNat < 2147483648 then (maxAge.toNat : Int) else maxAge.toNat - 4294967296 := by
  have hcond := BitVec.toInt_eq_toNat_cond maxAge.toBitVec
  have hnat : maxAge.toBitVec.toNat = maxAge.toNat := rfl
  rw [hnat] at hcond
  calc
    maxAge.toInt32.toInt = maxAge.toBitVec.toInt := rfl
    _ = _ := by
      rw [hcond]
      split <;> split <;> omega

/-- The age of the entry is at most `maxAge`, and at most its own lifetime. -/
def WithinAge (now : Int) (maxAge : UInt32) (it : BdHashEntry) : Prop :=
  now - it.mStoreTS ≤ maxAge.toNat ∧ now - it.mStoreTS ≤ it.mLifetime

instance (now : Int) (maxAge : UInt32) (it : BdHashEntry) : Decidable (WithinAge now maxAge it) :=
  inferInstanceAs (Decidable (_ ∧ _))

theorem expired_of_small {now : Int} {maxAge : UInt32} (h : maxAge.toNat < 2147483648)
    (it : BdHashEntry) : (!expired now maxAge it) = decide (WithinAge now maxAge it) := by
  rw [Bool.eq_iff_iff, Bool.not_eq_true', expired_eq_false, toInt_toInt32, if_pos h,
    decide_eq_true_iff]
  rfl

theorem expired_of_large {now : Int} {maxAge : UInt32} (h : ¬ maxAge.toNat < 2147483648)
    {it : BdHashEntry} (hpast : it.mStoreTS ≤ now) : expired now maxAge it = true := by
  have hlt : maxAge.toNat < 4294967296 := maxAge.toNat_lt
  have hneg : maxAge.toInt32.toInt < 0 := by
    rw [toInt_toInt32, if_neg h]
    omega
  rw [← Bool.not_eq_false, expired_eq_false]
  omega

/-- `cleanupHashSet` keeps exactly the entries within both limits, unless the limit is `2 ^ 31` or
more and some entry is within both. -/
theorem cleanupHashSet_iff (s : BdHashSet) (now : Int) (maxAge : UInt32)
    (hpast : ∀ e ∈ s.mEntries.entries, e.2.mStoreTS ≤ now) :
    (∃ s', s.cleanupHashSet now maxAge = .ok s' ∧
        s'.mEntries.entries = s.mEntries.entries.filter (fun e => WithinAge now maxAge e.2)) ↔
      maxAge.toNat < 2147483648 ∨
        ∀ e ∈ s.mEntries.entries,
          now - e.2.mStoreTS > maxAge.toNat ∨ now - e.2.mStoreTS > e.2.mLifetime := by
  have hkept : (s.unexpired now maxAge).mEntries.entries =
      s.mEntries.entries.filter (fun e => !expired now maxAge e.2) := rfl
  by_cases hsmall : maxAge.toNat < 2147483648
  · refine iff_of_true ⟨_, cleanupHashSet_eq s now maxAge, ?_⟩ (.inl hsmall)
    rw [hkept]
    exact List.filter_congr (fun e _ => expired_of_small hsmall e.2)
  · have hnone : (s.unexpired now maxAge).mEntries.entries = [] := by
      rw [hkept]
      apply List.filter_eq_nil_iff.2
      intro e he
      rw [expired_of_large hsmall (hpast e he)]
      decide
    constructor
    · rintro ⟨s', hs', hentries⟩
      rw [cleanupHashSet_eq, Except.ok.injEq] at hs'
      subst hs'
      rw [hnone] at hentries
      refine .inr ?_
      intro e he
      have hout := List.filter_eq_nil_iff.1 hentries.symm e he
      rw [decide_eq_true_iff, WithinAge] at hout
      omega
    · intro h
      refine ⟨_, cleanupHashSet_eq s now maxAge, ?_⟩
      rw [hnone]
      refine (List.filter_eq_nil_iff.2 ?_).symm
      intro e he
      have hout := h.resolve_left hsmall e he
      rw [decide_eq_true_iff, WithinAge]
      omega

/-- A set with one entry, which lives for a minute. -/
def minuteSet : BdHashSet where
  mId := ⟨List.replicate 20 0, by decide⟩
  mEntries := Multimap.empty.insert ⟨ascii "key"⟩
    { mValue := ascii "value", mStoreTS := 100, mSecret := [], mLifetime := 60 }

theorem minuteSet_entries : minuteSet.mEntries.entries =
    [(⟨ascii "key"⟩,
      { mValue := ascii "value", mStoreTS := 100, mSecret := [], mLifetime := 60 })] := rfl

/-- An age limit of half a minute, half a minute after the entry was stored. -/
theorem cleanupHashSet_minuteSet :
    ∃ s', minuteSet.cleanupHashSet 130 30 = .ok s' ∧
      s'.mEntries.entries = minuteSet.mEntries.entries.filter (fun e => WithinAge 130 30 e.2) :=
  (cleanupHashSet_iff minuteSet 130 30 (by simp [minuteSet_entries])).2 (.inl (by decide))

/-- The largest age limit there is removes an entry that was stored just now. -/
theorem cleanupHashSet_largest :
    ¬ ∃ s', minuteSet.cleanupHashSet 100 4294967295 = .ok s' ∧
      s'.mEntries.entries =
        minuteSet.mEntries.entries.filter (fun e => WithinAge 100 4294967295 e.2) := by
  rintro ⟨s', hs', hentries⟩
  rw [cleanupHashSet_eq, Except.ok.injEq] at hs'
  subst hs'
  have hlength := congrArg List.length hentries
  revert hlength
  decide

/-! ## `cleanHashSpace` -/

theorem outOfRange_eq_false {min max id : BdNodeId} :
    outOfRange min max id = false ↔ ¬ id < min ∧ ¬ max < id := by
  rw [outOfRange, Bool.or_eq_false_iff, ← Bool.not_eq_true, ← Bool.not_eq_true, bdNodeIdLt_iff,
    bdNodeIdLt_iff]

/-- The first loop schedules the ids that are out of range, and cleans the sets of the others. -/
theorem foldlM_cleanPass (now : BdNodeId → Int) (min max : BdNodeId) (maxAge : Int)
    {l : List (BdNodeId × BdHashSet)} (hl : (l.map Prod.fst).Nodup)
    (s : OrdMap BdNodeId BdHashSet × List BdNodeId) :
    ∃ t, l.foldlM (cleanPass now min max maxAge) s =
        .ok (t, s.2 ++ (l.map Prod.fst).filter (outOfRange min max)) ∧
      (∀ id set, (id, set) ∈ l → outOfRange min max id = false →
        t.find id = some (set.unexpired (now id) (timeToUint32 maxAge))) ∧
      ∀ id, id ∉ l.map Prod.fst → t.find id = s.1.find id := by
  induction l generalizing s with
  | nil =>
      exact ⟨s.1, by simp, by simp, by simp⟩
  | cons it l ih =>
      rw [List.map_cons, List.nodup_cons] at hl
      by_cases hout : outOfRange min max it.1 = true
      · rcases ih hl.2 (s.1, s.2 ++ [it.1]) with ⟨t, hrun, hclean, hother⟩
        refine ⟨t, ?_, ?_, ?_⟩
        · rw [List.foldlM_cons, cleanPass, if_pos hout, ok_bind, hrun]
          simp [hout]
        · intro id set hmem hin
          rcases List.mem_cons.1 hmem with rfl | hmem
          · rw [hout] at hin
            cases hin
          · exact hclean id set hmem hin
        · intro id hid
          rw [List.map_cons, List.mem_cons, not_or] at hid
          exact hother id hid.2
      · rcases ih hl.2 (s.1.assign it.1 (it.2.unexpired (now it.1) (timeToUint32 maxAge)), s.2)
          with ⟨t, hrun, hclean, hother⟩
        refine ⟨t, ?_, ?_, ?_⟩
        · rw [List.foldlM_cons, cleanPass, if_neg hout, cleanupHashSet_eq, ok_bind, pure_eq_ok,
            ok_bind, hrun]
          simp [hout]
        · intro id set hmem hin
          rcases List.mem_cons.1 hmem with rfl | hmem
          -- no later pass comes back to the set that has just been cleaned
          · rw [hother id hl.1, OrdMap.find_assign_self]
          · exact hclean id set hmem hin
        · intro id hid
          rw [List.map_cons, List.mem_cons, not_or] at hid
          rw [hother id hid.2, OrdMap.find_assign_ne _ hid.1]

/-- The ids that the first loop schedules for erasure. -/
def BdHashSpace.scheduled (s : BdHashSpace) (min max : BdNodeId) : List BdNodeId :=
  (s.mHashTable.entries.map Prod.fst).filter (outOfRange min max)

theorem scheduled_eq_nil {s : BdHashSpace} {min max : BdNodeId} :
    s.scheduled min max = [] ↔ ∀ e ∈ s.mHashTable.entries, ¬ e.1 < min ∧ ¬ max < e.1 := by
  rw [BdHashSpace.scheduled, List.filter_eq_nil_iff, List.forall_mem_map]
  apply forall₂_congr
  intro e _
  rw [Bool.not_eq_true, outOfRange_eq_false]

/-- The second loop takes nothing off its list. -/
theorem eraseScheduled_list {s : OrdMap BdNodeId BdHashSet × List BdNodeId} (h : s.2 ≠ []) :
    ∃ s', eraseScheduled s = some s' ∧ s'.2 ≠ [] := by
  rcases s with ⟨t, eraseList⟩
  cases eraseList with
  | nil =>
      exact absurd rfl h
  | cons eId rest =>
      cases hfind : t.find eId with
      | none =>
          exact ⟨(t, eId :: rest), by simp [eraseScheduled, hfind], h⟩
      | some set =>
          exact ⟨(t.erase eId, eId :: rest), by simp [eraseScheduled, hfind], h⟩

/-- What `cleanHashSpace` comes to: it never ends when an id is scheduled for erasure, and otherwise
leaves every set cleaned. -/
theorem cleanHashSpace_cases (s : BdHashSpace) (now : BdNodeId → Int) (min max : BdNodeId)
    (maxAge : Int) :
    (s.scheduled min max ≠ [] ∧
      ∀ fuel, s.cleanHashSpace fuel now min max maxAge = .error .outOfFuel) ∨
    (s.scheduled min max = [] ∧ ∃ s', s.cleanHashSpace 1 now min max maxAge = .ok s' ∧
      ∀ id, s'.mHashTable.find id =
        (s.mHashTable.find id).map (fun set => set.unexpired (now id) (timeToUint32 maxAge))) := by
  rcases foldlM_cleanPass now min max maxAge s.mHashTable.nodup_keys (s.mHashTable, []) with
    ⟨t, hscan, hclean, hother⟩
  rw [List.nil_append] at hscan
  by_cases hnil : s.scheduled min max = []
  · refine .inr ⟨hnil, ⟨t⟩, ?_, ?_⟩
    · have hdone : eraseScheduled (t, s.scheduled min max) = none := by
        rw [hnil, eraseScheduled]
      rw [BdHashSpace.cleanHashSpace, hscan, ok_bind, ← BdHashSpace.scheduled,
        Loop.run_of_none hdone]
      rfl
    · intro id
      cases hfind : s.mHashTable.find id with
      | none =>
          rw [hother id, hfind, Option.map_none]
          intro hid
          rcases List.mem_map.1 hid with ⟨⟨id', set⟩, hmem, rfl⟩
          rw [OrdMap.mem_entries_iff, hfind] at hmem
          cases hmem
      | some set =>
          have hmem := OrdMap.mem_entries_iff.2 hfind
          have hin := scheduled_eq_nil.1 hnil (id, set) hmem
          exact hclean id set hmem (outOfRange_eq_false.2 hin)
  · refine .inl ⟨hnil, ?_⟩
    intro fuel
    have hforever : Loop.run Fault.outOfFuel eraseScheduled fuel (t, s.scheduled min max) =
        .error .outOfFuel :=
      Loop.run_of_forever (fun hs => eraseScheduled_list hs) hnil fuel
    rw [BdHashSpace.cleanHashSpace, hscan, ok_bind, ← BdHashSpace.scheduled, hforever,
      error_bind]

/-- The sets of `s'` are those of `s` with an id in range, each cleaned by `cleanupHashSet`. -/
def BdHashSpace.CleanedTo (s s' : BdHashSpace) (now : BdNodeId → Int) (min max : BdNodeId)
    (maxAge : Int) : Prop :=
  ∀ id set', (id, set') ∈ s'.mHashTable.entries ↔
    ∃ set, (id, set) ∈ s.mHashTable.entries ∧ ¬ id < min ∧ ¬ max < id ∧
      set.cleanupHashSet (now id) (timeToUint32 maxAge) = .ok set'

/-- `cleanHashSpace` does its work exactly when no set has an id out of range; else it never ends. -/
theorem cleanHashSpace_iff (s : BdHashSpace) (now : BdNodeId → Int) (min max : BdNodeId)
    (maxAge : Int) :
    (∃ fuel s', s.cleanHashSpace fuel now min max maxAge = .ok s' ∧
        s.CleanedTo s' now min max maxAge) ↔
      ∀ e ∈ s.mHashTable.entries, ¬ e.1 < min ∧ ¬ max < e.1 := by
  rw [← scheduled_eq_nil]
  rcases cleanHashSpace_cases s now min max maxAge with ⟨hne, hforever⟩ | ⟨hnil, s', hrun, hfind⟩
  · refine iff_of_false ?_ hne
    rintro ⟨fuel, s', hrun, -⟩
    rw [hforever fuel] at hrun
    cases hrun
  · refine iff_of_true ⟨1, s', hrun, ?_⟩ hnil
    intro id set'
    rw [OrdMap.mem_entries_iff, hfind id, Option.map_eq_some_iff]
    apply exists_congr
    intro set
    rw [cleanupHashSet_eq, Except.ok.injEq, OrdMap.mem_entries_iff]
    constructor
    · rintro ⟨hset, heq⟩
      have hin := scheduled_eq_nil.1 hnil (id, set) (OrdMap.mem_entries_iff.2 hset)
      exact ⟨hset, hin.1, hin.2, heq⟩
    · rintro ⟨hset, -, -, heq⟩
      exact ⟨hset, heq⟩

/-- A space with the set of one id, below the range that is asked for. -/
theorem cleanHashSpace_below_range :
    ¬ ∃ fuel s',
      (⟨OrdMap.empty.assign minuteSet.mId minuteSet⟩ : BdHashSpace).cleanHashSpace fuel (fun _ => 100)
        ⟨List.replicate 20 1, by decide⟩ ⟨List.replicate 20 2, by decide⟩ 60 = .ok s' ∧
      (⟨OrdMap.empty.assign minuteSet.mId minuteSet⟩ : BdHashSpace).CleanedTo s' (fun _ => 100)
        ⟨List.replicate 20 1, by decide⟩ ⟨List.replicate 20 2, by decide⟩ 60 := by
  rintro ⟨fuel, s', hrun, -⟩
  rcases cleanHashSpace_cases ⟨OrdMap.empty.assign minuteSet.mId minuteSet⟩ (fun _ => 100)
    ⟨List.replicate 20 1, by decide⟩ ⟨List.replicate 20 2, by decide⟩ 60 with
    ⟨-, hforever⟩ | ⟨hnil, -⟩
  · rw [hforever fuel] at hrun
    cases hrun
  · revert hnil
    decide

end BitDht
