import Mathlib.Data.List.Induction
import Mathlib.Data.List.Sort
import Mathlib.Order.Defs.LinearOrder

/-!
# Ordered — the ordered containers of the standard library

`Multimap` and `OrdMap` are `std::multimap` and `std::map` over a linearly ordered key type, as the
sequence of their entries in the order of iteration.  The order is a field, so it holds of every
container that can be built.
-/

namespace Container

universe u v

variable {κ : Type u} {α : Type v} [LinearOrder κ]

/-! ## `std::multimap` -/

/-- Entries in the order of their keys; entries with equal keys in the order of insertion. -/
@[ext]
structure Multimap (κ : Type u) (α : Type v) [LinearOrder κ] where
  entries : List (κ × α)
  sorted : entries.Pairwise (fun a b => a.1 ≤ b.1)

namespace Multimap

def empty : Multimap κ α where
  entries := []
  sorted := .nil

def size (m : Multimap κ α) : Nat := m.entries.length

/-- A new entry stands behind those whose key is not greater. -/
def insertEntry (e : κ × α) (l : List (κ × α)) : List (κ × α) :=
  l.orderedInsert (fun a b => a.1 < b.1) e

theorem insertEntry_perm (e : κ × α) (l : List (κ × α)) : (insertEntry e l).Perm (e :: l) :=
  List.perm_orderedInsert _ e l

theorem insertEntry_sorted (e : κ × α) {l : List (κ × α)}
    (h : l.Pairwise (fun a b => a.1 ≤ b.1)) :
    (insertEntry e l).Pairwise (fun a b => a.1 ≤ b.1) := by
  induction l with
  | nil =>
      exact List.pairwise_singleton _ _
  | cons a l ih =>
      rcases List.pairwise_cons.1 h with ⟨ha, hl⟩
      by_cases hlt : e.1 < a.1
      -- the new entry stands in front of the first one with a greater key
      · have hins : insertEntry e (a :: l) = e :: a :: l := by simp [insertEntry, hlt]
        rw [hins]
        refine List.pairwise_cons.2 ⟨?_, h⟩
        intro b hb
        rcases List.mem_cons.1 hb with rfl | hb
        · exact hlt.le
        · exact hlt.le.trans (ha b hb)
      -- what stands behind `a` is from the old list or the new entry
      · have hins : insertEntry e (a :: l) = a :: insertEntry e l := by simp [insertEntry, hlt]
        rw [hins]
        refine List.pairwise_cons.2 ⟨?_, ih hl⟩
        intro b hb
        rcases List.mem_cons.1 ((insertEntry_perm e l).mem_iff.1 hb) with rfl | hb
        · exact not_lt.1 hlt
        · exact ha b hb

/-- `insert(pair(k, x))` -/
def insert (m : Multimap κ α) (k : κ) (x : α) : Multimap κ α where
  entries := insertEntry (k, x) m.entries
  sorted := insertEntry_sorted (k, x) m.sorted

theorem length_insert (m : Multimap κ α) (k : κ) (x : α) :
    (m.insert k x).entries.length = m.entries.length + 1 :=
  (insertEntry_perm (k, x) m.entries).length_eq

theorem insert_ne_nil (m : Multimap κ α) (k : κ) (x : α) : (m.insert k x).entries ≠ [] := by
  rw [← List.length_pos_iff, length_insert]
  exact Nat.succ_pos _

theorem mem_insert {m : Multimap κ α} {k : κ} {x : α} {e : κ × α} :
    e ∈ (m.insert k x).entries ↔ e = (k, x) ∨ e ∈ m.entries := by
  rw [← List.mem_cons]
  exact (insertEntry_perm (k, x) m.entries).mem_iff

/-- A symmetric relation between the entries holds after an insertion if it relates the new entry to
the old ones. -/
theorem pairwise_insert {R : κ × α → κ × α → Prop} (hsymm : ∀ {a b}, R a b → R b a)
    {m : Multimap κ α} {k : κ} {x : α} (hm : m.entries.Pairwise R)
    (hnew : ∀ e ∈ m.entries, R (k, x) e) : (m.insert k x).entries.Pairwise R :=
  ((insertEntry_perm (k, x) m.entries).pairwise_iff hsymm).2 (List.pairwise_cons.2 ⟨hnew, hm⟩)

theorem foldl_insert_perm {β : Type*} (k : β → κ) (x : β → α) (l : List β) (m : Multimap κ α) :
    (l.foldl (fun m b => m.insert (k b) (x b)) m).entries.Perm
      (l.map (fun b => (k b, x b)) ++ m.entries) := by
  induction l generalizing m with
  | nil =>
      exact List.Perm.refl _
  | cons b l ih =>
      rw [List.foldl_cons, List.map_cons, List.cons_append]
      exact ((ih (m.insert (k b) (x b))).trans
        ((insertEntry_perm (k b, x b) m.entries).append_left _)).trans List.perm_middle

theorem length_foldl_insert {β : Type*} (k : β → κ) (x : β → α) (l : List β) (m : Multimap κ α) :
    (l.foldl (fun m b => m.insert (k b) (x b)) m).entries.length = m.entries.length + l.length := by
  rw [(foldl_insert_perm k x l m).length_eq, List.length_append, List.length_map, Nat.add_comm]

/-- What is left after some entries are erased. -/
def erase (m : Multimap κ α) {l : List (κ × α)} (h : l.Sublist m.entries) : Multimap κ α where
  entries := l
  sorted := m.sorted.sublist h

/-- The first entry that satisfies `p` gets the element that `f` makes of its own. -/
def updateEntry (p : κ × α → Bool) (f : α → α) : List (κ × α) → List (κ × α)
  | [] => []
  | e :: l => if p e then (e.1, f e.2) :: l else e :: updateEntry p f l

omit [LinearOrder κ] in
/-- What the update of an element does not change can be read off the updated entries. -/
theorem map_updateEntry {β : Type*} {g : κ × α → β} (p : κ × α → Bool) {f : α → α}
    (hg : ∀ e, g (e.1, f e.2) = g e) (l : List (κ × α)) :
    (updateEntry p f l).map g = l.map g := by
  induction l with
  | nil =>
      rfl
  | cons e l ih =>
      by_cases hp : p e
      · simp [updateEntry, hp, hg]
      · simp [updateEntry, hp, ih]

omit [LinearOrder κ] in
theorem map_fst_updateEntry (p : κ × α → Bool) (f : α → α) (l : List (κ × α)) :
    (updateEntry p f l).map Prod.fst = l.map Prod.fst :=
  map_updateEntry p (fun _ => rfl) l

omit [LinearOrder κ] in
theorem mem_updateEntry {p : κ × α → Bool} {f : α → α} {l : List (κ × α)} {b : κ × α}
    (h : b ∈ updateEntry p f l) : b ∈ l ∨ ∃ e ∈ l, p e = true ∧ b = (e.1, f e.2) := by
  induction l with
  | nil =>
      cases h
  | cons e l ih =>
      by_cases hp : p e
      · simp only [updateEntry, hp, if_true, List.mem_cons] at h
        rcases h with rfl | h
        · exact .inr ⟨e, List.mem_cons_self .., hp, rfl⟩
        · exact .inl (List.mem_cons_of_mem e h)
      · simp only [updateEntry, hp, Bool.false_eq_true, if_false, List.mem_cons] at h
        rcases h with rfl | h
        · exact .inl (List.mem_cons_self ..)
        · rcases ih h with h | ⟨e', he', hpe', hb⟩
          · exact .inl (List.mem_cons_of_mem e h)
          · exact .inr ⟨e', List.mem_cons_of_mem e he', hpe', hb⟩

omit [LinearOrder κ] in
/-- The updated entry is the one that a search for `p` finds. -/
theorem mem_updateEntry_find {p : κ × α → Bool} {f : α → α} {l : List (κ × α)} {b e : κ × α}
    (hfind : l.find? p = some e) (h : b ∈ updateEntry p f l) : b ∈ l ∨ b = (e.1, f e.2) := by
  induction l with
  | nil =>
      cases h
  | cons a l ih =>
      by_cases hp : p a
      · rw [List.find?_cons_of_pos hp, Option.some_inj] at hfind
        subst hfind
        simp only [updateEntry, hp, if_true, List.mem_cons] at h
        exact h.symm.imp (List.mem_cons_of_mem a) id
      · rw [List.find?_cons_of_neg hp] at hfind
        simp only [updateEntry, hp, Bool.false_eq_true, if_false, List.mem_cons] at h
        rcases h with rfl | h
        · exact .inl (List.mem_cons_self ..)
        · exact (ih hfind h).imp (List.mem_cons_of_mem a) id

omit [LinearOrder κ] in
/-- What an update does to a count: the entry that is found is replaced. -/
theorem countP_updateEntry {p : κ × α → Bool} {f : α → α} {l : List (κ × α)} {e : κ × α}
    (hfind : l.find? p = some e) (r : κ × α → Bool) :
    (updateEntry p f l).countP r + [e].countP r = l.countP r + [(e.1, f e.2)].countP r := by
  induction l with
  | nil =>
      cases hfind
  | cons a l ih =>
      by_cases hp : p a
      · rw [List.find?_cons_of_pos hp, Option.some_inj] at hfind
        subst hfind
        rw [updateEntry, if_pos hp]
        simp only [List.countP_cons, List.countP_nil]
        omega
      · rw [List.find?_cons_of_neg hp] at hfind
        have hrest := ih hfind
        rw [updateEntry, if_neg hp]
        simp only [List.countP_cons] at hrest ⊢
        omega

/-- An assignment through an iterator, which cannot change the key. -/
def update (m : Multimap κ α) (p : κ × α → Bool) (f : α → α) : Multimap κ α where
  entries := updateEntry p f m.entries
  sorted := by
    -- the order is a statement about the keys alone
    have hkeys : (m.entries.map Prod.fst).Pairwise (fun a b => a ≤ b) :=
      List.pairwise_map.2 m.sorted
    rw [← map_fst_updateEntry p f] at hkeys
    exact List.pairwise_map.1 hkeys

theorem size_update (m : Multimap κ α) (p : κ × α → Bool) (f : α → α) :
    (m.update p f).size = m.size := by
  have hkeys := congrArg List.length (map_fst_updateEntry p f m.entries)
  rwa [List.length_map, List.length_map] at hkeys

theorem update_ne_nil {m : Multimap κ α} {p : κ × α → Bool} {f : α → α} :
    (m.update p f).entries ≠ [] ↔ m.entries ≠ [] := by
  have hsize := m.size_update p f
  rw [size, size] at hsize
  rw [← List.length_pos_iff, hsize, List.length_pos_iff]

/-- The entries before `lower_bound(k)`. -/
def below (m : Multimap κ α) (k : κ) : List (κ × α) :=
  m.entries.filter (fun e => e.1 < k)

/-- The entries before `upper_bound(k)`. -/
def upTo (m : Multimap κ α) (k : κ) : List (κ × α) :=
  m.entries.filter (fun e => e.1 ≤ k)

/-- The entries from `lower_bound(k)` to `upper_bound(k)`. -/
def equalRange (m : Multimap κ α) (k : κ) : List (κ × α) :=
  m.entries.filter (fun e => e.1 = k)

/-- The entries from `upper_bound(k)` on. -/
def above (m : Multimap κ α) (k : κ) : List (κ × α) :=
  m.entries.filter (fun e => k < e.1)

/-- The elements from `lower_bound(k)` to `upper_bound(k)`. -/
def elements (m : Multimap κ α) (k : κ) : List α :=
  (m.equalRange k).map Prod.snd

theorem filter_append_of_sorted (k : κ) {l : List (κ × α)}
    (h : l.Pairwise (fun a b => a.1 ≤ b.1)) :
    l.filter (fun e => e.1 < k) ++ l.filter (fun e => e.1 = k) ++ l.filter (fun e => k < e.1) =
      l := by
  induction l with
  | nil =>
      rfl
  | cons a l ih =>
      rcases List.pairwise_cons.1 h with ⟨ha, hl⟩
      -- nothing behind `a` is smaller
      have hbelow : k ≤ a.1 → l.filter (fun e => e.1 < k) = [] := fun hk =>
        List.filter_eq_nil_iff.2 (fun e he => by simpa using hk.trans (ha e he))
      have htail := ih hl
      rcases lt_trichotomy a.1 k with hlt | heq | hgt
      · simpa [hlt, hlt.ne, hlt.le] using htail
      · rw [hbelow heq.ge] at htail
        simpa [heq, hbelow heq.ge] using htail
      · have hequal : l.filter (fun e => e.1 = k) = [] :=
          List.filter_eq_nil_iff.2 (fun e he => by simpa using (hgt.trans_le (ha e he)).ne')
        rw [hbelow hgt.le, hequal] at htail
        simpa [hgt, hgt.ne', hgt.le, hbelow hgt.le, hequal] using htail

theorem entries_eq_append (m : Multimap κ α) (k : κ) :
    m.below k ++ (m.elements k).map (fun x => (k, x)) ++ m.above k = m.entries := by
  have hrange : (m.elements k).map (fun x => (k, x)) = m.equalRange k := by
    rw [elements, List.map_map]
    refine (List.map_congr_left ?_).trans (List.map_id _)
    intro e he
    have hk : e.1 = k := by simpa using (List.mem_filter.1 he).2
    exact Prod.ext hk.symm rfl
  rw [hrange]
  exact filter_append_of_sorted k m.sorted

theorem below_prefix (m : Multimap κ α) (k : κ) : m.below k <+: m.entries := by
  refine ⟨(m.elements k).map (fun x => (k, x)) ++ m.above k, ?_⟩
  rw [← List.append_assoc]
  exact m.entries_eq_append k

/-- The first `n` entries include those below a key if these are at most `n`. -/
theorem mem_take_of_below {m : Multimap κ α} {k : κ} {n : Nat} (hn : (m.below k).length ≤ n)
    {e : κ × α} (he : e ∈ m.entries) (hlt : e.1 < k) : e ∈ m.entries.take n := by
  have hbelow : e ∈ m.below k := List.mem_filter.2 ⟨he, decide_eq_true hlt⟩
  have hprefix : m.below k <+: m.entries.take n := by
    refine List.prefix_of_prefix_length_le (m.below_prefix k) (List.take_prefix n m.entries) ?_
    have hle := (m.below_prefix k).length_le
    rw [List.length_take]
    omega
  exact hprefix.subset hbelow

/-- Other elements for the key `k`, in the place of the old ones. -/
def setElements (m : Multimap κ α) (k : κ) (xs : List α) : Multimap κ α where
  entries := m.below k ++ xs.map (fun x => (k, x)) ++ m.above k
  sorted := by
    have hbelow : ∀ e ∈ m.below k, e.1 < k := fun e he => by
      simpa using (List.mem_filter.1 he).2
    have habove : ∀ e ∈ m.above k, k < e.1 := fun e he => by
      simpa using (List.mem_filter.1 he).2
    have hmid : ∀ e ∈ xs.map (fun x => (k, x)), e.1 = k := fun e he => by
      rcases List.mem_map.1 he with ⟨x, -, rfl⟩
      rfl
    refine List.pairwise_append.2 ⟨List.pairwise_append.2 ⟨?_, ?_, ?_⟩, ?_, ?_⟩
    · exact m.sorted.sublist List.filter_sublist
    · exact List.pairwise_map.2 (List.pairwise_of_forall (fun _ _ => le_rfl))
    · intro a ha b hb
      exact (hmid b hb).symm ▸ (hbelow a ha).le
    · exact m.sorted.sublist List.filter_sublist
    · intro a ha b hb
      rcases List.mem_append.1 ha with ha | ha
      · exact ((hbelow a ha).trans (habove b hb)).le
      · exact (hmid a ha).symm ▸ (habove b hb).le

theorem setElements_self (m : Multimap κ α) (k : κ) : m.setElements k (m.elements k) = m :=
  Multimap.ext (m.entries_eq_append k)

theorem mem_elements {m : Multimap κ α} {k : κ} {x : α} : x ∈ m.elements k ↔ (k, x) ∈ m.entries := by
  rw [elements, List.mem_map]
  constructor
  · rintro ⟨e, he, rfl⟩
    rcases List.mem_filter.1 he with ⟨hmem, hk⟩
    rw [decide_eq_true_iff] at hk
    subst hk
    exact hmem
  · intro h
    exact ⟨(k, x), List.mem_filter.2 ⟨h, by simp⟩, rfl⟩

end Multimap

/-! ## `std::map` -/

/-- Entries in the order of their keys, which are distinct. -/
structure OrdMap (κ : Type u) (α : Type v) [LinearOrder κ] where
  entries : List (κ × α)
  sorted : entries.Pairwise (fun a b => a.1 < b.1)

namespace OrdMap

def empty : OrdMap κ α where
  entries := []
  sorted := .nil

/-- `find(k)` -/
def find (m : OrdMap κ α) (k : κ) : Option α :=
  (m.entries.find? (fun e => e.1 = k)).map Prod.snd

def assignEntry (k : κ) (x : α) : List (κ × α) → List (κ × α)
  | [] => [(k, x)]
  | a :: l =>
      if k < a.1 then (k, x) :: a :: l
      else if a.1 < k then a :: assignEntry k x l
      -- the key is there, and its element is replaced
      else (k, x) :: l

theorem mem_assignEntry {k : κ} {x : α} {l : List (κ × α)} {b : κ × α}
    (h : b ∈ assignEntry k x l) : b.1 = k ∨ b ∈ l := by
  induction l with
  | nil =>
      exact .inl (by rw [List.mem_singleton.1 h])
  | cons a l ih =>
      simp only [assignEntry] at h
      split at h
      · rcases List.mem_cons.1 h with rfl | h
        · exact .inl rfl
        · exact .inr h
      · split at h
        · rcases List.mem_cons.1 h with rfl | h
          · exact .inr (List.mem_cons_self ..)
          · exact (ih h).imp id (List.mem_cons_of_mem a)
        · rcases List.mem_cons.1 h with rfl | h
          · exact .inl rfl
          · exact .inr (List.mem_cons_of_mem a h)

theorem assignEntry_sorted (k : κ) (x : α) {l : List (κ × α)}
    (h : l.Pairwise (fun a b => a.1 < b.1)) :
    (assignEntry k x l).Pairwise (fun a b => a.1 < b.1) := by
  induction l with
  | nil =>
      exact List.pairwise_singleton _ _
  | cons a l ih =>
      rcases List.pairwise_cons.1 h with ⟨ha, hl⟩
      simp only [assignEntry]
      split
      · rename_i hlt
        refine List.pairwise_cons.2 ⟨?_, h⟩
        intro b hb
        rcases List.mem_cons.1 hb with rfl | hb
        · exact hlt
        · exact hlt.trans (ha b hb)
      · split
        · rename_i hlt
          refine List.pairwise_cons.2 ⟨?_, ih hl⟩
          intro b hb
          rcases mem_assignEntry hb with rfl | hb
          · exact hlt
          · exact ha b hb
        · rename_i hnlt hngt
          -- two keys of which neither is smaller are equal
          have heq : k = a.1 := le_antisymm (not_lt.1 hngt) (not_lt.1 hnlt)
          refine List.pairwise_cons.2 ⟨?_, hl⟩
          intro b hb
          rw [heq]
          exact ha b hb

/-- `m[k] = x` -/
def assign (m : OrdMap κ α) (k : κ) (x : α) : OrdMap κ α where
  entries := assignEntry k x m.entries
  sorted := assignEntry_sorted k x m.sorted

/-- `erase(k)` -/
def erase (m : OrdMap κ α) (k : κ) : OrdMap κ α where
  entries := m.entries.filter (fun e => e.1 ≠ k)
  sorted := m.sorted.sublist List.filter_sublist

/-- An assignment to every element. -/
def mapVals (m : OrdMap κ α) (f : α → α) : OrdMap κ α where
  entries := m.entries.map (fun e => (e.1, f e.2))
  sorted := List.pairwise_map.2 m.sorted

theorem find?_assignEntry (k k' : κ) (x : α) (l : List (κ × α)) :
    (assignEntry k x l).find? (fun e => e.1 = k') =
      if k' = k then some (k, x) else l.find? (fun e => e.1 = k') := by
  induction l with
  | nil =>
      simp [assignEntry, eq_comm]
  | cons a l ih =>
      by_cases hk : k' = k
      · subst hk
        rw [if_pos rfl] at ih ⊢
        simp only [assignEntry]
        split
        · simp
        · split
          · rename_i hlt
            rw [List.find?_cons_of_neg (by simpa using hlt.ne), ih]
          · simp
      · have hne : ¬ k = k' := fun h => hk h.symm
        rw [if_neg hk] at ih ⊢
        simp only [assignEntry]
        split
        · simp [hne]
        · split
          · simp only [List.find?_cons, ih]
          · rename_i hnlt hngt
            -- the entry that is replaced has the key `k`
            have heq : k = a.1 := le_antisymm (not_lt.1 hngt) (not_lt.1 hnlt)
            rw [List.find?_cons_of_neg (by simpa using hne),
              List.find?_cons_of_neg (by simpa [← heq] using hne)]

@[simp] theorem find_assign_self (m : OrdMap κ α) (k : κ) (x : α) :
    (m.assign k x).find k = some x := by
  rw [find, assign, find?_assignEntry, if_pos rfl]
  rfl

theorem find_assign_ne (m : OrdMap κ α) {k k' : κ} (h : k' ≠ k) (x : α) :
    (m.assign k x).find k' = m.find k' := by
  rw [find, assign, find?_assignEntry, if_neg h]
  rfl

/-- The element for a key is that of its last assignment. -/
theorem find_foldl_assign {β : Type*} {k : β → κ} {y : κ} {p : β → Bool}
    (hp : ∀ b, p b = true ↔ k b = y) (x : β → α) (l : List β) (m : OrdMap κ α) :
    (l.foldl (fun m b => m.assign (k b) (x b)) m).find y =
      ((l.reverse.find? p).map x).or (m.find y) := by
  induction l using List.reverseRecOn with
  | nil =>
      rfl
  | append_singleton l b ih =>
      rw [List.foldl_append, List.foldl_cons, List.foldl_nil, List.reverse_append]
      by_cases hb : p b = true
      · have hkey := (hp b).1 hb
        subst hkey
        simp [hb]
      · have hkey : y ≠ k b := fun h => hb ((hp b).2 h.symm)
        rw [find_assign_ne _ hkey, ih]
        simp [hb]

theorem nodup_keys (m : OrdMap κ α) : (m.entries.map Prod.fst).Nodup :=
  List.pairwise_map.2 (m.sorted.imp ne_of_lt)

/-- The entries are the keys with their elements. -/
theorem mem_entries_iff {m : OrdMap κ α} {k : κ} {x : α} :
    (k, x) ∈ m.entries ↔ m.find k = some x := by
  constructor
  · intro h
    -- no other entry has the key
    have hkey : ∀ e ∈ m.entries, e.1 = k → e = (k, x) :=
      fun e he hk => List.inj_on_of_nodup_map m.nodup_keys he h hk
    cases hfind : m.entries.find? (fun e => e.1 = k) with
    | none =>
        exact absurd (List.find?_eq_none.1 hfind _ h) (by simp)
    | some e =>
        have hek : e.1 = k := by simpa using List.find?_some hfind
        rw [find, hfind, hkey e (List.mem_of_find?_eq_some hfind) hek]
        rfl
  · intro h
    rcases Option.map_eq_some_iff.1 h with ⟨e, he, hex⟩
    have hek : e.1 = k := by simpa using List.find?_some he
    rw [← hek, ← hex]
    exact List.mem_of_find?_eq_some he

/-- An entry afterwards is the assigned one, or it was there. -/
theorem mem_entries_assign {m : OrdMap κ α} {k : κ} {x : α} {e : κ × α}
    (h : e ∈ (m.assign k x).entries) : e = (k, x) ∨ e ∈ m.entries := by
  have hfind := mem_entries_iff.1 h
  by_cases hk : e.1 = k
  · rw [hk, find_assign_self, Option.some.injEq] at hfind
    exact .inl (Prod.ext hk hfind.symm)
  · rw [find_assign_ne m hk] at hfind
    exact .inr (mem_entries_iff.2 hfind)

/-- At most one entry has the key. -/
theorem filter_key (m : OrdMap κ α) {k : κ} {p : κ × α → Bool}
    (hp : ∀ e, p e = true ↔ e.1 = k) :
    m.entries.filter p = ((m.find k).map (fun x => (k, x))).toList := by
  have hnodup : (m.entries.filter p).Nodup :=
    (List.Nodup.of_map Prod.fst m.nodup_keys).filter _
  cases hfind : m.find k with
  | none =>
      apply List.filter_eq_nil_iff.2
      rintro ⟨k', x⟩ he hk
      cases (hp _).1 hk
      rw [mem_entries_iff, hfind] at he
      cases he
  | some x =>
      refine List.perm_singleton.1 ((List.perm_ext_iff_of_nodup hnodup (List.nodup_singleton _)).2 ?_)
      rintro ⟨k', x'⟩
      rw [List.mem_filter, mem_entries_iff, List.mem_singleton, hp, Prod.mk.injEq]
      constructor
      · rintro ⟨hx', rfl⟩
        rw [hfind] at hx'
        cases hx'
        exact ⟨rfl, rfl⟩
      · rintro ⟨rfl, rfl⟩
        exact ⟨hfind, rfl⟩

theorem find_mapVals (m : OrdMap κ α) (f : α → α) (k : κ) :
    (m.mapVals f).find k = (m.find k).map f := by
  rw [find, mapVals, List.find?_map, find, Option.map_map, Option.map_map]
  rfl

theorem find_erase_self (m : OrdMap κ α) (k : κ) : (m.erase k).find k = none := by
  have hnone : (m.entries.filter (fun e => e.1 ≠ k)).find? (fun e => e.1 = k) = none := by
    refine List.find?_eq_none.2 ?_
    intro e he
    simpa using (List.mem_filter.1 he).2
  rw [find, erase, hnone]
  rfl

theorem find_erase_ne (m : OrdMap κ α) {k k' : κ} (h : k' ≠ k) :
    (m.erase k).find k' = m.find k' := by
  rw [find, erase, List.find?_filter, find]
  congr 2
  funext e
  by_cases he : e.1 = k'
  · simp [he, h]
  · simp [he]

@[simp] theorem find_empty (k : κ) : (empty : OrdMap κ α).find k = none := rfl

end OrdMap

end Container
