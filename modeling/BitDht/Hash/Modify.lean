import BitDht.Hash.Cleanup
import Mathlib.Data.List.Forall2

/-!
# Modify — the access rule for stored values

`modify_frame` is what a call of `bdHashSet::modify` may do to the entries that are there: without
the secret nobody deletes an entry or shortens its life.  `noDuplicates_iff` says which runs keep the
entries distinct: `modify` makes a second copy of an entry without a secret that it does not extend.
-/

namespace BitDht

open Container Outcome

/-! ## The loop of `modify` -/

theorem modifyAction_update {now : Int} {entry it : BdHashEntry} {modFlags : UInt32}
    (h : modifyAction now entry modFlags it = .update) :
    modFlags = bitdhtHashEntryAdd ∧ it.mValue = entry.mValue ∧ it.mSecret = entry.mSecret ∧
      (it.mSecret = [] → it.mLifetime + it.mStoreTS < entry.mLifetime + now) := by
  unfold modifyAction at h
  grind

theorem modifyAction_erase {now : Int} {entry it : BdHashEntry} {modFlags : UInt32}
    (h : modifyAction now entry modFlags it = .erase) :
    modFlags = bitdhtHashEntryDelete ∧ it.mValue = entry.mValue ∧ it.mSecret = entry.mSecret ∧
      it.mSecret ≠ [] := by
  unfold modifyAction at h
  grind

/-- An entry with the value and the secret of the new one is updated by an addition, unless it has
no secret and lives as long. -/
theorem modifyAction_add {now : Int} {entry it : BdHashEntry} :
    modifyAction now entry bitdhtHashEntryAdd it = .update ↔
      it.mValue = entry.mValue ∧ it.mSecret = entry.mSecret ∧
        ¬ (it.mSecret = [] ∧ entry.mLifetime + now ≤ it.mLifetime + it.mStoreTS) := by
  unfold modifyAction
  grind

/-- What the loop of `modify` makes of an entry that stays. -/
def LoopKeeps (now : Int) (entry : BdHashEntry) (modFlags : UInt32) (it it' : BdHashEntry) : Prop :=
  it' = it ∨ modifyAction now entry modFlags it = .update ∧ it' = it.update now entry

/-- The loop passes over the whole range, or erases one entry and leaves the others as they were. -/
theorem modifyLoop_cases (now : Int) (entry : BdHashEntry) (modFlags : UInt32) (updated : Bool)
    (l : List BdHashEntry) :
    ((modifyLoop now entry modFlags updated l).erased = false ∧
      List.Forall₂ (LoopKeeps now entry modFlags) l
        (modifyLoop now entry modFlags updated l).entries ∧
      ((modifyLoop now entry modFlags updated l).updated = true ↔
        updated = true ∨ ∃ it ∈ l, modifyAction now entry modFlags it = .update)) ∨
    ((modifyLoop now entry modFlags updated l).erased = true ∧
      ∃ pre it post, l = pre ++ it :: post ∧ modifyAction now entry modFlags it = .erase ∧
        (modifyLoop now entry modFlags updated l).entries = pre ++ post) := by
  induction l generalizing updated with
  | nil =>
      exact .inl ⟨rfl, .nil, by simp [modifyLoop]⟩
  | cons it rest ih =>
      cases haction : modifyAction now entry modFlags it with
      | leave =>
          rcases ih updated with ⟨herased, hkeeps, hupdated⟩ | ⟨herased, pre, x, post, hl, hx, hr⟩
          · refine .inl ⟨?_, ?_, ?_⟩
            · rw [modifyLoop, haction]
              exact herased
            · rw [modifyLoop, haction]
              exact .cons (.inl rfl) hkeeps
            · rw [modifyLoop, haction]
              simpa [haction] using hupdated
          · refine .inr ⟨?_, it :: pre, x, post, ?_, hx, ?_⟩
            · rw [modifyLoop, haction]
              exact herased
            · rw [hl, List.cons_append]
            · rw [modifyLoop, haction, List.cons_append, ← hr]
      | update =>
          rcases ih true with ⟨herased, hkeeps, hupdated⟩ | ⟨-, pre, x, post, -, hx, -⟩
          · refine .inl ⟨?_, ?_, ?_⟩
            · rw [modifyLoop, haction]
              exact herased
            · rw [modifyLoop, haction]
              exact .cons (.inr ⟨haction, rfl⟩) hkeeps
            · rw [modifyLoop, haction]
              simpa [haction] using hupdated
          -- one flag does not both update and erase
          · have hadd := (modifyAction_update haction).1
            have hdelete := (modifyAction_erase hx).1
            rw [hadd] at hdelete
            exact absurd hdelete (by decide)
      | erase =>
          refine .inr ⟨?_, [], it, rest, rfl, haction, ?_⟩
          · rw [modifyLoop, haction]
          · rw [modifyLoop, haction]
            rfl

theorem loopKeeps_of_none {now : Int} {entry : BdHashEntry} {modFlags : UInt32}
    {l xs : List BdHashEntry} (h : List.Forall₂ (LoopKeeps now entry modFlags) l xs)
    (hnone : ∀ it ∈ l, modifyAction now entry modFlags it ≠ .update) : xs = l := by
  induction h with
  | nil =>
      rfl
  | cons hkeep _ ih =>
      rw [List.forall_mem_cons] at hnone
      rw [hkeep.resolve_right (fun h => hnone.1 h.1), ih hnone.2]

/-! ## What a call may do -/

/-- A call of `modify` erases an entry of the key, or adds one because it has updated none, or only
updates entries of the key. -/
theorem BdHashSet.modify_cases (s : BdHashSet) (now : Int) (key : StdString) (entry : BdHashEntry)
    (modFlags : UInt32) :
    (∃ pre it post, s.mEntries.elements key = pre ++ it :: post ∧
      modifyAction now entry modFlags it = .erase ∧
      (s.modify now key entry modFlags).1.mEntries =
        s.mEntries.setElements key (pre ++ post)) ∨
    (modFlags = bitdhtHashEntryAdd ∧
      (∀ it ∈ s.mEntries.elements key, modifyAction now entry modFlags it ≠ .update) ∧
      (s.modify now key entry modFlags).1.mEntries =
        s.mEntries.insert key (newHashEntry now entry)) ∨
    ((modFlags = bitdhtHashEntryAdd →
        ∃ it ∈ s.mEntries.elements key, modifyAction now entry modFlags it = .update) ∧
      ∃ xs, List.Forall₂ (LoopKeeps now entry modFlags) (s.mEntries.elements key) xs ∧
        (s.modify now key entry modFlags).1.mEntries = s.mEntries.setElements key xs) := by
  rcases modifyLoop_cases now entry modFlags false (s.mEntries.elements key) with
    ⟨herased, hkeeps, hupdated⟩ | ⟨herased, pre, it, post, hl, hit, hr⟩
  · rw [Bool.false_eq_true, false_or] at hupdated
    by_cases hadd : modFlags = bitdhtHashEntryAdd
    · by_cases hany : ∃ it ∈ s.mEntries.elements key, modifyAction now entry modFlags it = .update
      · refine .inr (.inr ⟨fun _ => hany, _, hkeeps, ?_⟩)
        simp [BdHashSet.modify, herased, hupdated.2 hany]
      -- without an update the loop has changed nothing
      · have hnone : ∀ it ∈ s.mEntries.elements key,
            modifyAction now entry modFlags it ≠ .update :=
          fun it hit h => hany ⟨it, hit, h⟩
        have hflag := Bool.eq_false_iff.2 (fun h => hany (hupdated.1 h))
        have hsame := loopKeeps_of_none hkeeps hnone
        refine .inr (.inl ⟨hadd, hnone, ?_⟩)
        subst hadd
        simp [BdHashSet.modify, herased, hflag, hsame, Multimap.setElements_self]
    · refine .inr (.inr ⟨fun h => absurd h hadd, _, hkeeps, ?_⟩)
      simp [BdHashSet.modify, herased, hadd]
  · refine .inl ⟨pre, it, post, hl, hit, ?_⟩
    simp [BdHashSet.modify, herased, hr]

/-- What `modify` may make of an entry that stays: nothing else, or, by an addition with the same key,
value and secret, the entry with another time and lifetime, and with a later end if it has no
secret. -/
def MayBecome (key : StdString) (entry : BdHashEntry) (modFlags : UInt32)
    (e e' : StdString × BdHashEntry) : Prop :=
  e' = e ∨
    (modFlags = bitdhtHashEntryAdd ∧ e.1 = key ∧ e.2.mValue = entry.mValue ∧
      e.2.mSecret = entry.mSecret ∧
      e' = (e.1, { e.2 with mStoreTS := e'.2.mStoreTS, mLifetime := e'.2.mLifetime }) ∧
      (e.2.mSecret = [] → e.2.mLifetime + e.2.mStoreTS < e'.2.mLifetime + e'.2.mStoreTS))

/-- When `modify` may remove an entry. -/
def MayRemove (key : StdString) (entry : BdHashEntry) (modFlags : UInt32)
    (e : StdString × BdHashEntry) : Prop :=
  modFlags = bitdhtHashEntryDelete ∧ e.1 = key ∧ e.2.mValue = entry.mValue ∧
    e.2.mSecret = entry.mSecret ∧ e.2.mSecret ≠ []

theorem mayBecome_refl (key : StdString) (entry : BdHashEntry) (modFlags : UInt32)
    (l : List (StdString × BdHashEntry)) : List.Forall₂ (MayBecome key entry modFlags) l l :=
  List.forall₂_same.2 (fun _ _ => .inl rfl)

theorem LoopKeeps.mayBecome {now : Int} {entry it it' : BdHashEntry} {modFlags : UInt32}
    (h : LoopKeeps now entry modFlags it it') (key : StdString) :
    MayBecome key entry modFlags (key, it) (key, it') := by
  rcases h with rfl | ⟨haction, rfl⟩
  · exact .inl rfl
  · rcases modifyAction_update haction with ⟨hadd, hvalue, hsecret, hlater⟩
    exact .inr ⟨hadd, rfl, hvalue, hsecret, rfl, hlater⟩

/-- The access rule: of the entries that are there, a call removes at most one, which it may remove,
and leaves the others as they may become; it adds at most one, and does not do both. -/
theorem modify_frame (s : BdHashSet) (now : Int) (key : StdString) (entry : BdHashEntry)
    (modFlags : UInt32) :
    ∃ removed added kept kept',
      s.mEntries.entries.Perm (removed ++ kept) ∧
      (s.modify now key entry modFlags).1.mEntries.entries.Perm (added ++ kept') ∧
      List.Forall₂ (MayBecome key entry modFlags) kept kept' ∧
      (∀ e ∈ removed, MayRemove key entry modFlags e) ∧
      removed.length + added.length ≤ 1 := by
  have hentries := s.mEntries.entries_eq_append key
  rcases s.modify_cases now key entry modFlags with
    ⟨pre, it, post, hl, hit, hmodify⟩ | ⟨-, -, hmodify⟩ | ⟨-, xs, hxs, hmodify⟩
  · refine ⟨[(key, it)], [], (s.mEntries.setElements key (pre ++ post)).entries,
      (s.mEntries.setElements key (pre ++ post)).entries, ?_, ?_, mayBecome_refl .., ?_, le_rfl⟩
    · rw [← hentries, hl, Multimap.setElements]
      simp only [List.map_append, List.map_cons, List.append_assoc, List.cons_append]
      exact (List.perm_middle.append_left _ |>.trans List.perm_middle)
    · rw [hmodify, List.nil_append]
    · rcases modifyAction_erase hit with ⟨hdelete, hvalue, hsecret, hne⟩
      intro e he
      rw [List.mem_singleton.1 he]
      exact ⟨hdelete, rfl, hvalue, hsecret, hne⟩
  · refine ⟨[], [(key, newHashEntry now entry)], s.mEntries.entries, s.mEntries.entries,
      List.Perm.refl _, ?_, mayBecome_refl .., by simp, le_rfl⟩
    rw [hmodify]
    exact Multimap.insertEntry_perm _ _
  · refine ⟨[], [], s.mEntries.entries, (s.mEntries.setElements key xs).entries,
      List.Perm.refl _, ?_, ?_, by simp, Nat.zero_le 1⟩
    · rw [hmodify, List.nil_append]
    · have hmid : List.Forall₂ (MayBecome key entry modFlags)
          ((s.mEntries.elements key).map (fun x => (key, x))) (xs.map (fun x => (key, x))) := by
        rw [List.forall₂_map_left_iff, List.forall₂_map_right_iff]
        exact hxs.imp (fun _ _ h => h.mayBecome key)
      rw [← hentries]
      exact List.rel_append (List.rel_append (mayBecome_refl ..) hmid) (mayBecome_refl ..)

/-- In a space a call reaches the set of its id only, which it makes first if it is to add there. -/
theorem BdHashSpace.modify_find (s : BdHashSpace) (now : Int) (id : BdNodeId) (key : StdString)
    (entry : BdHashEntry) (modFlags : UInt32) (id' : BdNodeId) :
    (s.modify now id key entry modFlags).1.mHashTable.find id' =
      if id' ≠ id ∨ s.mHashTable.find id = none ∧ modFlags = bitdhtHashEntryDelete then
        s.mHashTable.find id'
      else
        some (((s.mHashTable.find id).getD (.new id)).modify now key entry modFlags).1 := by
  cases hfind : s.mHashTable.find id with
  | some set =>
      by_cases hid : id' = id
      · subst hid
        simp [BdHashSpace.modify, hfind]
      · simp [BdHashSpace.modify, hfind, hid, OrdMap.find_assign_ne]
  | none =>
      by_cases hdelete : modFlags = bitdhtHashEntryDelete
      · simp [BdHashSpace.modify, hfind, hdelete]
      · by_cases hid : id' = id
        · subst hid
          simp [BdHashSpace.modify, hfind, hdelete]
        · simp [BdHashSpace.modify, hfind, hdelete, hid, OrdMap.find_assign_ne]

/-! ## Duplicates -/

/-- The key, the value and the secret of an entry. -/
def hashIdentity (e : StdString × BdHashEntry) : StdString × List UInt8 × List UInt8 :=
  (e.1, e.2.mValue, e.2.mSecret)

/-- No two entries have the same key, value and secret. -/
def BdHashSet.NoDuplicates (s : BdHashSet) : Prop :=
  (s.mEntries.entries.map hashIdentity).Nodup

instance (s : BdHashSet) : Decidable s.NoDuplicates :=
  inferInstanceAs (Decidable (List.Nodup _))

/-- The new entry has no secret, and is there already with a life that is not shorter. -/
def BdHashSet.Repeats (s : BdHashSet) (now : Int) (key : StdString) (entry : BdHashEntry)
    (modFlags : UInt32) : Prop :=
  modFlags = bitdhtHashEntryAdd ∧ entry.mSecret = [] ∧
    ∃ it, (key, it) ∈ s.mEntries.entries ∧ it.mValue = entry.mValue ∧ it.mSecret = [] ∧
      entry.mLifetime + now ≤ it.mLifetime + it.mStoreTS

/-- Updates leave key, value and secret of every entry. -/
theorem map_hashIdentity_setElements {s : BdHashSet} {now : Int} {key : StdString}
    {entry : BdHashEntry} {modFlags : UInt32} {xs : List BdHashEntry}
    (h : List.Forall₂ (LoopKeeps now entry modFlags) (s.mEntries.elements key) xs) :
    (s.mEntries.setElements key xs).entries.map hashIdentity =
      s.mEntries.entries.map hashIdentity := by
  have hxs : ∀ {l xs : List BdHashEntry}, List.Forall₂ (LoopKeeps now entry modFlags) l xs →
      (xs.map (fun x => (key, x))).map hashIdentity =
        (l.map (fun x => (key, x))).map hashIdentity := by
    intro l xs h
    induction h with
    | nil =>
        rfl
    | cons hkeep _ ih =>
        rw [List.map_cons, List.map_cons, List.map_cons, List.map_cons, ih]
        rcases hkeep with rfl | ⟨-, rfl⟩
        · rfl
        · rfl
  rw [← s.mEntries.entries_eq_append key, Multimap.setElements, List.map_append, List.map_append,
    List.map_append, List.map_append, hxs h]

/-- An addition that finds its entry but does not update it has not made its life longer. -/
theorem repeats_of_ne_update {s : BdHashSet} {now : Int} {key : StdString} {entry it : BdHashEntry}
    (hit : (key, it) ∈ s.mEntries.entries) (hvalue : it.mValue = entry.mValue)
    (hsecret : it.mSecret = entry.mSecret)
    (hne : modifyAction now entry bitdhtHashEntryAdd it ≠ .update) :
    s.Repeats now key entry bitdhtHashEntryAdd := by
  have hlong : it.mSecret = [] ∧ entry.mLifetime + now ≤ it.mLifetime + it.mStoreTS := by
    by_contra hcon
    exact hne (modifyAction_add.2 ⟨hvalue, hsecret, hcon⟩)
  exact ⟨rfl, hsecret.symm.trans hlong.1, it, hit, hvalue, hlong⟩

/-- Without duplicates no other entry is updated either. -/
theorem BdHashSet.Repeats.ne_update {s : BdHashSet} {now : Int} {key : StdString}
    {entry : BdHashEntry} {modFlags : UInt32} (hrep : s.Repeats now key entry modFlags)
    (h : s.NoDuplicates) {it : BdHashEntry} (hit : it ∈ s.mEntries.elements key) :
    modifyAction now entry modFlags it ≠ .update := by
  rcases hrep with ⟨rfl, hsecret, it', hit', hvalue', hempty', hlong⟩
  intro hupdate
  rcases modifyAction_add.1 hupdate with ⟨hvalue, hsame, hshort⟩
  have hident : hashIdentity (key, it) = hashIdentity (key, it') := by
    rw [hashIdentity, hashIdentity, hvalue, hvalue', hsame, hsecret, hempty']
  have heq : (key, it) = (key, it') :=
    List.inj_on_of_nodup_map h (Multimap.mem_elements.1 hit) hit' hident
  cases heq
  exact hshort ⟨hempty', hlong⟩

/-- What a call does to a set without duplicates. -/
theorem modify_noDuplicates {s : BdHashSet} (h : s.NoDuplicates) (now : Int) (key : StdString)
    (entry : BdHashEntry) (modFlags : UInt32) :
    (s.modify now key entry modFlags).1.NoDuplicates ↔ ¬ s.Repeats now key entry modFlags := by
  rcases s.modify_cases now key entry modFlags with
    ⟨pre, it, post, hl, hit, hmodify⟩ | ⟨rfl, hnone, hmodify⟩ | ⟨hsome, xs, hxs, hmodify⟩
  -- an erasure is no addition
  · have hdelete := (modifyAction_erase hit).1
    refine iff_of_true ?_ (fun hrep => absurd (hrep.1.symm.trans hdelete) (by decide))
    have hsub : List.Sublist (s.mEntries.setElements key (pre ++ post)).entries
        s.mEntries.entries := by
      rw [← s.mEntries.entries_eq_append key, Multimap.setElements, hl]
      refine List.Sublist.append_right (List.Sublist.append_left (List.Sublist.map _ ?_) _) _
      exact List.Sublist.append_left (List.sublist_cons_self it post) pre
    rw [BdHashSet.NoDuplicates, hmodify]
    exact List.Nodup.sublist (hsub.map hashIdentity) h
  · have hperm : (s.mEntries.insert key (newHashEntry now entry)).entries.Perm
        ((key, newHashEntry now entry) :: s.mEntries.entries) := Multimap.insertEntry_perm _ _
    have hnew : (s.modify now key entry bitdhtHashEntryAdd).1.NoDuplicates ↔
        hashIdentity (key, newHashEntry now entry) ∉ s.mEntries.entries.map hashIdentity := by
      rw [BdHashSet.NoDuplicates, hmodify, (hperm.map hashIdentity).nodup_iff, List.map_cons,
        List.nodup_cons]
      exact and_iff_left h
    rw [hnew, not_iff_not]
    constructor
    · intro hmem
      rcases List.mem_map.1 hmem with ⟨⟨key', it⟩, hit, hident⟩
      rw [hashIdentity, hashIdentity, Prod.mk.injEq, Prod.mk.injEq] at hident
      rcases hident with ⟨hkey, hvalue, hsecret⟩
      rw [show key' = key from hkey] at hit
      exact repeats_of_ne_update hit hvalue hsecret (hnone it (Multimap.mem_elements.2 hit))
    · rintro ⟨-, hsecret, it, hit, hvalue, hempty, -⟩
      refine List.mem_map.2 ⟨(key, it), hit, ?_⟩
      rw [hashIdentity, hashIdentity, hvalue, hempty, ← hsecret]
      rfl
  · refine iff_of_true ?_ ?_
    · rw [BdHashSet.NoDuplicates, hmodify, map_hashIdentity_setElements hxs]
      exact h
    · intro hrep
      rcases hsome hrep.1 with ⟨it, hit, hupdate⟩
      exact hrep.ne_update h hit hupdate

theorem unexpired_noDuplicates {s : BdHashSet} (h : s.NoDuplicates) (now : Int) (maxAge : UInt32) :
    (s.unexpired now maxAge).NoDuplicates :=
  List.Nodup.sublist (List.filter_sublist.map hashIdentity) h

/-! ## Runs -/

/-- What can be done to a `bdHashSet` that changes it. -/
inductive HashSetOp
  | modify (key : StdString) (entry : BdHashEntry) (modFlags : UInt32)
  | cleanupHashSet (maxAge : UInt32)

/-- A call at the time `o.1`. -/
def hashSetStep (s : BdHashSet) (o : Int × HashSetOp) : Exec BdHashSet :=
  match o.2 with
  | .modify key entry modFlags => .ok (s.modify o.1 key entry modFlags).1
  | .cleanupHashSet maxAge => s.cleanupHashSet o.1 maxAge

/-- The call is an addition without a secret of an entry that is there and lives as long. -/
def BdHashSet.RepeatedBy (s : BdHashSet) (o : Int × HashSetOp) : Prop :=
  ∃ key entry modFlags, o.2 = .modify key entry modFlags ∧ s.Repeats o.1 key entry modFlags

theorem hashSetStep_ok (s : BdHashSet) (o : Int × HashSetOp) : ∃ s', hashSetStep s o = .ok s' := by
  rcases o with ⟨now, op⟩
  cases op with
  | modify key entry modFlags =>
      exact ⟨_, rfl⟩
  | cleanupHashSet maxAge =>
      exact ⟨_, cleanupHashSet_eq s now maxAge⟩

theorem hashSetStep_noDuplicates {s s' : BdHashSet} {o : Int × HashSetOp} (h : s.NoDuplicates)
    (hstep : hashSetStep s o = .ok s') : s'.NoDuplicates ↔ ¬ s.RepeatedBy o := by
  rcases o with ⟨now, op⟩
  cases op with
  | modify key entry modFlags =>
      rw [hashSetStep, Except.ok.injEq] at hstep
      subst hstep
      rw [modify_noDuplicates h, not_iff_not]
      constructor
      · intro hrep
        exact ⟨key, entry, modFlags, rfl, hrep⟩
      · rintro ⟨_, _, _, hop, hrep⟩
        cases hop
        exact hrep
  | cleanupHashSet maxAge =>
      have hclean : s.cleanupHashSet now maxAge = .ok s' := hstep
      rw [cleanupHashSet_eq, Except.ok.injEq] at hclean
      subst hclean
      refine iff_of_true (unexpired_noDuplicates h now maxAge) ?_
      rintro ⟨_, _, _, hop, -⟩
      cases hop

/-- The entries of a set stay distinct all through a run exactly when no call of it adds, without a
secret, an entry that is there and lives as long. -/
theorem noDuplicates_iff (id : BdNodeId) (ops : List (Int × HashSetOp)) :
    Always hashSetStep BdHashSet.NoDuplicates (.new id) ops ↔
      Guarded hashSetStep (fun s o => ¬ s.RepeatedBy o) (.new id) ops := by
  have hnew : (BdHashSet.new id).NoDuplicates := List.nodup_nil
  rw [always_iff_guarded hnew (fun h hstep => hashSetStep_noDuplicates h hstep) ops]
  constructor
  · intro h pre o post s hops hrun
    rcases hashSetStep_ok s o with ⟨s', hs'⟩
    exact h pre o post s hops hrun s' hs'
  · intro h pre o post s hops hrun _ _
    exact h pre o post s hops hrun

/-- An entry without a secret that is stored twice in one second is there twice. -/
theorem noDuplicates_stored_twice :
    [(100, HashSetOp.modify ⟨ascii "key"⟩ (newHashEntry 100 ⟨ascii "value", 0, [], 60⟩)
        bitdhtHashEntryAdd),
      ((100 : Int), HashSetOp.modify ⟨ascii "key"⟩ (newHashEntry 100 ⟨ascii "value", 0, [], 60⟩)
        bitdhtHashEntryAdd)].Pairwise (fun a b => a.1 ≤ b.1) ∧
    ¬ Always hashSetStep BdHashSet.NoDuplicates (.new ⟨List.replicate 20 0, by decide⟩)
      [(100, .modify ⟨ascii "key"⟩ (newHashEntry 100 ⟨ascii "value", 0, [], 60⟩)
          bitdhtHashEntryAdd),
        (100, .modify ⟨ascii "key"⟩ (newHashEntry 100 ⟨ascii "value", 0, [], 60⟩)
          bitdhtHashEntryAdd)] := by
  refine ⟨by simp, ?_⟩
  intro h
  have hlast := h _ [] _ (List.append_nil _).symm rfl
  revert hlast
  decide

end BitDht
