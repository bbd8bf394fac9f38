import BitDht.Hash.Modify

/-!
# Search — looking up stored values

`search_set_eq` is the search in one set, whose flag says whether the list holds anything.  The space
answers for an id without a set by itself, and `searchExact_iff` says for which ids its flag agrees
with what it has appended: those that some call of `modify` has named otherwise than to delete.
-/

namespace BitDht

open Container

/-! ## `search` -/

/-- The body of the loop of `search`, for the entry `it`. -/
def searchEntry (now : Int) (maxAge : UInt32) (entries : List BdHashEntry) (it : BdHashEntry) :
    List BdHashEntry :=
  let age := now - it.mStoreTS
  if age < maxAge.toInt32.toInt then entries ++ [it] else entries

/-- `bdHashSet::search`: the list afterwards and the returned flag. -/
def BdHashSet.search (s : BdHashSet) (now : Int) (key : StdString) (maxAge : UInt32)
    (entries : List BdHashEntry) : List BdHashEntry × Bool :=
  let entries := (s.mEntries.elements key).foldl (searchEntry now maxAge) entries
  (entries, 0 < entries.length)

/-- The constructor of `bdHashSpace`. -/
def BdHashSpace.new : BdHashSpace where
  mHashTable := .empty

/-- `bdHashSpace::search` -/
def BdHashSpace.search (s : BdHashSpace) (now : Int) (id : BdNodeId) (key : StdString)
    (maxAge : UInt32) (entries : List BdHashEntry) : List BdHashEntry × Bool :=
  match s.mHashTable.find id with
  -- no entry
  | none => (entries, true)
  | some set => set.search now key maxAge entries

/-- The entry is younger than the limit. -/
def YoungerThan (now : Int) (maxAge : UInt32) (it : BdHashEntry) : Prop :=
  now - it.mStoreTS < maxAge.toNat

instance (now : Int) (maxAge : UInt32) : DecidablePred (YoungerThan now maxAge) :=
  fun _ => inferInstanceAs (Decidable (_ < _))

theorem foldl_searchEntry {now : Int} {maxAge : UInt32} (h : maxAge.toNat < 2147483648)
    (l entries : List BdHashEntry) :
    l.foldl (searchEntry now maxAge) entries =
      entries ++ l.filter (fun it => YoungerThan now maxAge it) := by
  induction l generalizing entries with
  | nil =>
      exact (List.append_nil entries).symm
  | cons it l ih =>
      have hbody : searchEntry now maxAge entries it =
          if YoungerThan now maxAge it then entries ++ [it] else entries := by
        rw [searchEntry, toInt_toInt32, if_pos h]
        rfl
      rw [List.foldl_cons, ih, hbody]
      by_cases hyoung : YoungerThan now maxAge it
      · rw [if_pos hyoung, List.filter_cons_of_pos (by simpa using hyoung), List.append_assoc]
        rfl
      · rw [if_neg hyoung, List.filter_cons_of_neg (by simpa using hyoung)]

/-- The search in a set appends the young entries of the key, and says whether the list is empty. -/
theorem search_set_eq (s : BdHashSet) {maxAge : UInt32} (h : maxAge.toNat < 2147483648) (now : Int)
    (key : StdString) :
    s.search now key maxAge [] =
      ((s.mEntries.elements key).filter (fun it => YoungerThan now maxAge it),
        decide ((s.mEntries.elements key).filter (fun it => YoungerThan now maxAge it) ≠ [])) := by
  rw [BdHashSet.search, foldl_searchEntry h, List.nil_append]
  refine Prod.ext rfl (decide_eq_decide.2 ?_)
  exact List.length_pos_iff

/-! ## Runs of `modify` -/

/-- The arguments of a call of `bdHashSpace::modify`, and the time at which it is made. -/
structure HashSpaceCall where
  now : Int
  id : BdNodeId
  key : StdString
  entry : BdHashEntry
  modFlags : UInt32

/-- The space after some calls of `modify`. -/
def BdHashSpace.modifyAll (s : BdHashSpace) (calls : List HashSpaceCall) : BdHashSpace :=
  calls.foldl (fun s c => (s.modify c.now c.id c.key c.entry c.modFlags).1) s

/-- The entries stored under an id and a key. -/
def BdHashSpace.stored (s : BdHashSpace) (id : BdNodeId) (key : StdString) : List BdHashEntry :=
  match s.mHashTable.find id with
  | none => []
  | some set => set.mEntries.elements key

/-- The call makes a set for its id if there is none. -/
def HashSpaceCall.Makes (c : HashSpaceCall) (id : BdNodeId) : Prop :=
  c.id = id ∧ c.modFlags ≠ bitdhtHashEntryDelete

theorem modify_find_isSome (s : BdHashSpace) (c : HashSpaceCall) (id : BdNodeId) :
    ((s.modify c.now c.id c.key c.entry c.modFlags).1.mHashTable.find id).isSome ↔
      (s.mHashTable.find id).isSome ∨ c.Makes id := by
  rw [BdHashSpace.modify_find, HashSpaceCall.Makes]
  by_cases hid : id = c.id
  · subst hid
    cases hfind : s.mHashTable.find c.id with
    | some set =>
        simp
    | none =>
        by_cases hdelete : c.modFlags = bitdhtHashEntryDelete
        · simp [hdelete]
        · simp [hdelete]
  · have hne : ¬ c.id = id := fun h => hid h.symm
    simp [hid, hne]

/-- A run of `modify` never takes a set away, so the ids that have one are those it has named. -/
theorem modifyAll_find_isSome (s : BdHashSpace) (calls : List HashSpaceCall) (id : BdNodeId) :
    ((s.modifyAll calls).mHashTable.find id).isSome ↔
      (s.mHashTable.find id).isSome ∨ ∃ c ∈ calls, c.Makes id := by
  induction calls generalizing s with
  | nil =>
      simp [BdHashSpace.modifyAll]
  | cons c calls ih =>
      have hrest := ih (s.modify c.now c.id c.key c.entry c.modFlags).1
      rw [modify_find_isSome, or_assoc] at hrest
      rw [List.exists_mem_cons_iff]
      exact hrest

/-! ## The flag of a search -/

/-- A search appends exactly the young entries that are stored under the id and the key, and returns
non-zero if and only if there is one. -/
def BdHashSpace.SearchExact (s : BdHashSpace) (now : Int) (id : BdNodeId) (key : StdString)
    (maxAge : UInt32) : Prop :=
  (s.search now id key maxAge []).1 = (s.stored id key).filter (fun it => YoungerThan now maxAge it) ∧
    ((s.search now id key maxAge []).2 = true ↔ (s.search now id key maxAge []).1 ≠ [])

/-- With a limit below 2³¹ a search does what it says exactly for the ids that have a set. -/
theorem searchExact_iff_isSome (s : BdHashSpace) {maxAge : UInt32}
    (h : maxAge.toNat < 2147483648) (now : Int) (id : BdNodeId) (key : StdString) :
    s.SearchExact now id key maxAge ↔ (s.mHashTable.find id).isSome := by
  cases hfind : s.mHashTable.find id with
  | none =>
      refine iff_of_false ?_ Bool.false_ne_true
      rintro ⟨-, hflag⟩
      -- nothing is appended, and the flag is set
      have hsearch : s.search now id key maxAge [] = ([], true) := by
        rw [BdHashSpace.search, hfind]
      rw [hsearch] at hflag
      exact hflag.1 rfl rfl
  | some set =>
      refine iff_of_true ?_ rfl
      have hsearch : s.search now id key maxAge [] = set.search now key maxAge [] := by
        rw [BdHashSpace.search, hfind]
      have hstored : s.stored id key = set.mEntries.elements key := by
        rw [BdHashSpace.stored, hfind]
      rw [BdHashSpace.SearchExact, hsearch, hstored, search_set_eq set h]
      exact ⟨rfl, decide_eq_true_iff⟩

/-- After any run of `modify`, a search does what it says exactly for the ids that a call of the run
has named otherwise than to delete. -/
theorem searchExact_iff (calls : List HashSpaceCall) {maxAge : UInt32}
    (h : maxAge.toNat < 2147483648) (now : Int) (id : BdNodeId) (key : StdString) :
    (BdHashSpace.new.modifyAll calls).SearchExact now id key maxAge ↔
      ∃ c ∈ calls, c.Makes id := by
  rw [searchExact_iff_isSome _ h, modifyAll_find_isSome]
  simp [BdHashSpace.new]

/-- After one addition a search for its id is exact. -/
theorem searchExact_after_add :
    (600 : UInt32).toNat < 2147483648 ∧
      (BdHashSpace.new.modifyAll [⟨1000, ⟨List.replicate 20 0, rfl⟩, ⟨ascii "key"⟩,
        ⟨ascii "value", 0, [], 60⟩, bitdhtHashEntryAdd⟩]).SearchExact
        1030 ⟨List.replicate 20 0, rfl⟩ ⟨ascii "key"⟩ 600 :=
  ⟨by decide, (searchExact_iff _ (by decide) _ _ _).2
    ⟨_, List.mem_cons_self .., rfl, show bitdhtHashEntryAdd ≠ bitdhtHashEntryDelete by decide⟩⟩

/-- In a new space a search finds nothing and returns 1. -/
theorem search_new_flag :
    ¬ (BdHashSpace.new.modifyAll []).SearchExact
      1000 ⟨List.replicate 20 0, rfl⟩ ⟨ascii "key"⟩ 600 := by
  rintro ⟨-, hflag⟩
  exact hflag.1 rfl rfl

end BitDht
