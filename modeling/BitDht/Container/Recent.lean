import Mathlib.Data.List.DropRight
import Mathlib.Data.List.Nodup
import Mathlib.Data.List.Pairwise
import Mathlib.Data.List.Perm.Basic
import Mathlib.Tactic.Common

/-!
# Recent — bounded lists of what was added last

What is added to such a list moves to its end.  `recent` is the list without a bound: for each key
what was added last, in the order of the last additions.  `touch` keeps to a bound by dropping what
is at the end; `foldl_touch` says what it then holds, and `foldl_touch_iff` when these are the most
recent ones.
-/

namespace Container

universe u v

variable {α : Type u} {β : Type v} [DecidableEq β] (k : α → β)

/-- For each key the last element that has it. -/
def recent (l : List α) : List α := l.pwFilter (fun a b => k a ≠ k b)

/-- The keys, in the order in which they first occur. -/
def firstKeys (l : List α) : List β := (l.map k).eraseDups

theorem recent_nodup (l : List α) : ((recent k l).map k).Nodup :=
  List.pairwise_map.2 (List.pairwise_pwFilter l)

/-- A key is new to the last elements if it is new to all. -/
theorem forall_recent {l : List α} {b : β} :
    (∀ a ∈ recent k l, k a ≠ b) ↔ ∀ a ∈ l, k a ≠ b := by
  constructor
  · intro h
    induction l with
    | nil =>
        simp
    | cons x l ih =>
        by_cases hx : ∀ a ∈ recent k l, k x ≠ k a
        · rw [recent, List.pwFilter_cons_of_pos hx, List.forall_mem_cons] at h
          exact List.forall_mem_cons.2 ⟨h.1, ih h.2⟩
        -- the key of `x` is that of a later element, which stays
        · have hrest : recent k (x :: l) = recent k l := List.pwFilter_cons_of_neg hx
          rw [hrest] at h
          refine List.forall_mem_cons.2 ⟨?_, ih h⟩
          push Not at hx
          rcases hx with ⟨a, ha, heq⟩
          rw [heq]
          exact h a ha
  · intro h a ha
    exact h a (List.pwFilter_subset l ha)

theorem mem_map_recent {l : List α} {b : β} : b ∈ (recent k l).map k ↔ b ∈ l.map k := by
  have h := forall_recent k (l := l) (b := b)
  rw [List.mem_map, List.mem_map]
  grind

/-- The last element of all comes to the end. -/
theorem recent_concat (l : List α) (x : α) :
    recent k (l ++ [x]) = (recent k l).filter (fun a => k a ≠ k x) ++ [x] := by
  induction l with
  | nil =>
      rfl
  | cons y l ih =>
      have hcons : recent k (y :: l ++ [x]) =
          if ∀ a ∈ recent k (l ++ [x]), k y ≠ k a then y :: recent k (l ++ [x])
          else recent k (l ++ [x]) := by
        split
        · exact List.pwFilter_cons_of_pos (by assumption)
        · exact List.pwFilter_cons_of_neg (by assumption)
      by_cases hy : ∀ a ∈ recent k l, k y ≠ k a
      · have hrest : recent k (y :: l) = y :: recent k l := List.pwFilter_cons_of_pos hy
        rw [hcons, ih, hrest]
        by_cases hxy : k y = k x
        · rw [if_neg (fun h => h x (by simp) hxy), List.filter_cons_of_neg (by simpa using hxy)]
        · rw [if_pos, List.filter_cons_of_pos (by simpa using hxy), List.cons_append]
          intro a ha
          rcases List.mem_append.1 ha with ha | ha
          · exact hy a (List.mem_filter.1 ha).1
          · rw [List.mem_singleton.1 ha]
            exact hxy
      · have hrest : recent k (y :: l) = recent k l := List.pwFilter_cons_of_neg hy
        rw [hcons, ih, hrest, if_neg]
        push Not at hy ⊢
        rcases hy with ⟨a, ha, heq⟩
        by_cases hxy : k y = k x
        · exact ⟨x, by simp, hxy⟩
        · refine ⟨a, List.mem_append.2 (.inl (List.mem_filter.2 ⟨ha, ?_⟩)), heq⟩
          simpa [← heq] using hxy

theorem mem_firstKeys {l : List α} {b : β} : b ∈ firstKeys k l ↔ b ∈ l.map k :=
  List.mem_eraseDups

/-- A key that is new comes to the end. -/
theorem firstKeys_concat (l : List α) (x : α) :
    firstKeys k (l ++ [x]) =
      if k x ∈ firstKeys k l then firstKeys k l else firstKeys k l ++ [k x] := by
  rw [firstKeys, firstKeys, List.map_append, List.eraseDups_append, List.map_singleton]
  split
  · rename_i hmem
    have hold : [k x].removeAll (l.map k) = [] := by
      simpa [List.removeAll] using (mem_firstKeys k).1 hmem
    rw [hold, List.eraseDups_nil, List.append_nil]
  · rename_i hmem
    have hnew : [k x].removeAll (l.map k) = [k x] := by
      simpa [List.removeAll] using fun h => hmem ((mem_firstKeys k).2 h)
    rw [hnew, List.eraseDups_cons, List.filter_nil, List.eraseDups_nil]

theorem firstKeys_nodup (l : List α) : (firstKeys k l).Nodup := by
  induction l using List.reverseRecOn with
  | nil =>
      exact List.nodup_nil
  | append_singleton l x ih =>
      rw [firstKeys_concat]
      split
      · exact ih
      · rename_i hx
        exact List.nodup_append.2 ⟨ih, List.nodup_singleton _, by
          intro a ha b hb
          rw [List.mem_singleton.1 hb]
          exact fun h => hx (h ▸ ha)⟩

theorem map_recent_perm (l : List α) : ((recent k l).map k).Perm (firstKeys k l) := by
  refine (List.perm_ext_iff_of_nodup (recent_nodup k l) (firstKeys_nodup k l)).2 ?_
  intro b
  rw [mem_map_recent, mem_firstKeys]

/-! ## With a bound -/

/-- `x` is put at the end, in place of what has its key; of more than `n` the last are dropped. -/
def touch (n : Nat) (l : List α) (x : α) : List α :=
  (l.filter (fun a => k a ≠ k x) ++ [x]).take n

/-- The last elements for the first `n` keys. -/
def touched (n : Nat) (l : List α) : List α :=
  (recent k l).filter (fun a => k a ∈ (firstKeys k l).take n)

theorem map_touched_perm (n : Nat) (l : List α) :
    ((touched k n l).map k).Perm ((firstKeys k l).take n) := by
  refine (List.perm_ext_iff_of_nodup ?_ ?_).2 ?_
  · exact List.Nodup.sublist (List.filter_sublist.map k) (recent_nodup k l)
  · exact List.Nodup.sublist (List.take_sublist n _) (firstKeys_nodup k l)
  · intro b
    constructor
    · intro hb
      rcases List.mem_map.1 hb with ⟨a, ha, rfl⟩
      exact of_decide_eq_true (List.mem_filter.1 ha).2
    · intro hb
      have hkey : b ∈ (recent k l).map k :=
        (map_recent_perm k l).mem_iff.2 (List.mem_of_mem_take hb)
      rcases List.mem_map.1 hkey with ⟨a, ha, rfl⟩
      exact List.mem_map.2 ⟨a, List.mem_filter.2 ⟨ha, decide_eq_true hb⟩, rfl⟩

theorem length_touched (n : Nat) (l : List α) :
    (touched k n l).length = min n (firstKeys k l).length := by
  calc
    (touched k n l).length = ((touched k n l).map k).length := (List.length_map k).symm
    _ = ((firstKeys k l).take n).length := (map_touched_perm k n l).length_eq
    _ = min n (firstKeys k l).length := List.length_take

/-- One more element brings at most its own key among the first `n`. -/
theorem mem_take_firstKeys_concat {n : Nat} {l : List α} {x : α} {b : β} (hb : b ≠ k x) :
    b ∈ (firstKeys k (l ++ [x])).take n ↔ b ∈ (firstKeys k l).take n := by
  rw [firstKeys_concat]
  split
  · rfl
  · rw [List.take_append, List.mem_append]
    apply or_iff_left
    intro h
    exact hb (List.mem_singleton.1 (List.mem_of_mem_take h))

/-- If the key of one more element is not among the first `n`, then there are `n` others. -/
theorem length_of_not_mem_take {n : Nat} {l : List α} {x : α}
    (hx : k x ∉ (firstKeys k (l ++ [x])).take n) : n ≤ (firstKeys k l).length := by
  by_contra hlt
  rw [firstKeys_concat] at hx
  split at hx
  · rename_i hmem
    rw [List.take_of_length_le (by omega)] at hx
    exact hx hmem
  · rw [List.take_of_length_le (by simp; omega)] at hx
    exact hx (by simp)

/-- A bounded list holds the last elements for the first `n` keys. -/
theorem foldl_touch (n : Nat) (l : List α) : l.foldl (touch k n) [] = touched k n l := by
  induction l using List.reverseRecOn with
  | nil =>
      rfl
  | append_singleton l x ih =>
      rw [List.foldl_append, ih, List.foldl_cons, List.foldl_nil]
      -- the others are those that were there
      have hothers : (touched k n l).filter (fun a => k a ≠ k x) =
          ((recent k l).filter (fun a => k a ≠ k x)).filter
            (fun a => k a ∈ (firstKeys k (l ++ [x])).take n) := by
        rw [touched, List.filter_filter, List.filter_filter]
        apply List.filter_congr
        intro a _
        by_cases ha : k a = k x
        · simp [ha]
        · simp only [ne_eq, ha, not_false_eq_true, decide_true, Bool.true_and, Bool.and_true,
            mem_take_firstKeys_concat k ha]
      by_cases hx : k x ∈ (firstKeys k (l ++ [x])).take n
      · have hnew : touched k n (l ++ [x]) =
            (touched k n l).filter (fun a => k a ≠ k x) ++ [x] := by
          rw [hothers, touched, recent_concat, List.filter_append,
            List.filter_cons_of_pos (by simpa using hx), List.filter_nil]
        have hlength := length_touched k n (l ++ [x])
        rw [hnew] at hlength
        rw [touch, hnew, List.take_of_length_le]
        omega
      · have hfull := length_of_not_mem_take k hx
        have hsame : touched k n (l ++ [x]) =
            (touched k n l).filter (fun a => k a ≠ k x) := by
          rw [hothers, touched, recent_concat, List.filter_append,
            List.filter_cons_of_neg (by simpa using hx), List.filter_nil, List.append_nil]
        -- none of the `n` there are has the key of `x`
        have hlength := length_touched k n (l ++ [x])
        have hmore : (firstKeys k l).length ≤ (firstKeys k (l ++ [x])).length := by
          rw [firstKeys_concat]
          split <;> simp
        rw [hsame] at hlength
        rw [touch, hsame, List.take_left' (by omega)]

/-- A bounded list holds the most recent elements exactly when their keys are among the first. -/
theorem foldl_touch_iff (n : Nat) (l : List α) :
    l.foldl (touch k n) [] = (recent k l).rtake n ↔
      ∀ a ∈ (recent k l).rtake n, k a ∈ (firstKeys k l).take n := by
  rw [foldl_touch]
  constructor
  · intro h a ha
    rw [← h] at ha
    exact of_decide_eq_true (List.mem_filter.1 ha).2
  · intro h
    have hsuffix : (recent k l).rtake n <:+ touched k n l := by
      have hall : ((recent k l).rtake n).filter (fun a => k a ∈ (firstKeys k l).take n) =
          (recent k l).rtake n :=
        List.filter_eq_self.2 (fun a ha => decide_eq_true (h a ha))
      rw [touched, ← hall]
      exact (List.drop_suffix _ _).filter _
    -- there is no room for more
    have hlength := length_touched k n l
    have hrecent : (recent k l).length = (firstKeys k l).length := by
      rw [← (map_recent_perm k l).length_eq, List.length_map]
    have hrtake : ((recent k l).rtake n).length = min n (recent k l).length := by
      rw [List.rtake, List.length_drop]
      omega
    exact (hsuffix.eq_of_length (by omega)).symm

/-- Of elements with distinct keys, a bounded list holds the first ones. -/
theorem foldl_touch_of_nodup (n : Nat) {l : List α} (h : (l.map k).Nodup) :
    l.foldl (touch k n) [] = l.take n := by
  induction l using List.reverseRecOn with
  | nil =>
      rw [List.foldl_nil, List.take_nil]
  | append_singleton l x ih =>
      rw [List.map_append, List.map_singleton, List.nodup_append] at h
      have hother : (l.take n).filter (fun a => k a ≠ k x) = l.take n := by
        apply List.filter_eq_self.2
        intro a ha
        have hmem : k a ∈ l.map k := List.mem_map_of_mem (List.mem_of_mem_take ha)
        simpa using h.2.2 (k a) hmem (k x) (by simp)
      rw [List.foldl_append, ih h.1, List.foldl_cons, List.foldl_nil, touch, hother]
      by_cases hn : l.length ≤ n
      · rw [List.take_of_length_le hn]
      · rw [List.take_append_of_le_length (by rw [List.length_take]; omega),
          List.take_append_of_le_length (by omega), List.take_take, min_self]

theorem recent_of_nodup {l : List α} (h : (l.map k).Nodup) : recent k l = l :=
  List.pwFilter_eq_self.2 (List.pairwise_map.1 h)

end Container
