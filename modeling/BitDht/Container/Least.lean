import Mathlib.Data.Finset.Card
import Mathlib.Data.List.Sort

/-!
# Least — the `k` least elements of a set

`Least k S l` says that `l` lists the `k` least elements of `S` in their order, or all of them if
there are fewer.  Such a list is unique, and it is kept up by insertions that drop the greatest
element when there are too many: the rule that a bounded best-list is maintained by.

`LeastBy key k all l` is the same for a list `all`, which may hold elements with equal keys: the
first `k` of a sorted list.
-/

namespace Container

universe u

variable {κ : Type u} [LinearOrder κ]

/-- `l` lists the `k` least elements of `S`, or all of `S` if it has fewer. -/
structure Least (k : Nat) (S : Finset κ) (l : List κ) : Prop where
  sorted : l.Pairwise (· < ·)
  mem : ∀ x ∈ l, x ∈ S
  length : l.length = min k S.card
  least : ∀ x ∈ l, ∀ y ∈ S, y ∉ l → x < y

namespace Least

variable {k : Nat} {S : Finset κ} {l : List κ}

theorem nodup (h : Least k S l) : l.Nodup :=
  h.sorted.imp (fun hlt => hlt.ne)

theorem length_le (h : Least k S l) : l.length ≤ k := by
  rw [h.length]
  exact min_le_left _ _

/-- A list that misses an element of the set is full. -/
theorem length_eq_of_not_mem (h : Least k S l) {x : κ} (hx : x ∈ S) (hl : x ∉ l) :
    l.length = k := by
  have hsub : l.toFinset ⊂ S := by
    refine Finset.ssubset_iff_subset_ne.2 ⟨fun y hy => h.mem y (List.mem_toFinset.1 hy), ?_⟩
    intro heq
    exact hl (List.mem_toFinset.1 (heq ▸ hx))
  have hcard := Finset.card_lt_card hsub
  rw [List.toFinset_card_of_nodup h.nodup] at hcard
  have hlen := h.length
  omega

/-- All elements of the list are below one that it misses. -/
theorem length_filter_of_not_mem (h : Least k S l) {x : κ} (hx : x ∈ S) (hl : x ∉ l) :
    (l.filter (· < x)).length = k := by
  have hall : l.filter (· < x) = l :=
    List.filter_eq_self.2 (fun y hy => decide_eq_true (h.least y hy x hx hl))
  rw [hall, h.length_eq_of_not_mem hx hl]

/-- The whole set is listed when it is small enough. -/
theorem of_card_le (hsorted : l.Pairwise (· < ·)) (hmem : ∀ x, x ∈ l ↔ x ∈ S) (hcard : S.card ≤ k) :
    Least k S l := by
  refine ⟨hsorted, fun x hx => (hmem x).1 hx, ?_, fun x _ y hy hl => absurd ((hmem y).2 hy) hl⟩
  have hset : l.toFinset = S := by
    ext x
    rw [List.mem_toFinset, hmem]
  calc
    l.length = l.toFinset.card :=
          (List.toFinset_card_of_nodup (hsorted.imp (fun hlt => hlt.ne))).symm
    _ = S.card := by rw [hset]
    _ = min k S.card := (min_eq_right hcard).symm

/-- There is one list of the `k` least elements. -/
theorem unique {l' : List κ} (h : Least k S l) (h' : Least k S l') : l = l' := by
  have hsub : ∀ x ∈ l, x ∈ l' := by
    intro x hx
    by_contra hx'
    -- as long as `l`, but without `x`, the other list has an element that `l` misses
    have hy : ∃ y ∈ l', y ∉ l := by
      by_contra hno
      have hsub' : l' ⊆ l := fun y hy => by_contra fun hl => hno ⟨y, hy, hl⟩
      have hlen : l.length ≤ l'.length := by rw [h.length, h'.length]
      have hperm : l'.Perm l := (List.subperm_of_subset h'.nodup hsub').perm_of_length_le hlen
      exact hx' (hperm.mem_iff.2 hx)
    rcases hy with ⟨y, hy, hyl⟩
    exact lt_asymm (h.least x hx y (h'.mem y hy) hyl) (h'.least y hy x (h.mem x hx) hx')
  have hlen : l'.length ≤ l.length := by rw [h.length, h'.length]
  have hperm : l.Perm l' := (List.subperm_of_subset h.nodup hsub).perm_of_length_le hlen
  exact hperm.eq_of_pairwise (fun a b _ _ hab hba => absurd hab (lt_asymm hba)) h.sorted h'.sorted

/-- An element with `k` of the list below it does not get into the list. -/
theorem insert_far [DecidableEq κ] (h : Least k S l) {x : κ} (hfar : k ≤ (l.filter (· < x)).length) :
    Least k (insert x S) l := by
  have hle := h.length_le
  have hfilter := List.length_filter_le (fun y => decide (y < x)) l
  have hall : ∀ y ∈ l, y < x := by
    have hself : l.filter (· < x) = l :=
      List.filter_sublist.eq_of_length_le (hle.trans hfar)
    intro y hy
    rw [← hself] at hy
    simpa using (List.mem_filter.1 hy).2
  refine ⟨h.sorted, fun y hy => Finset.mem_insert_of_mem (h.mem y hy), ?_, ?_⟩
  · have hcard := Finset.card_le_card (Finset.subset_insert x S)
    have hlen := h.length
    omega
  · intro y hy z hz hzl
    rcases Finset.mem_insert.1 hz with rfl | hz
    · exact hall y hy
    · exact h.least y hy z hz hzl

/-- An element with fewer than `k` of the list below it takes its place among the first `k - 1`. -/
theorem insert_near [DecidableEq κ] (h : Least k S l) {x : κ} (hx : x ∉ S)
    (hnear : (l.filter (· < x)).length < k) {l' : List κ}
    (hperm : l'.Perm (x :: l.take (k - 1))) (hsorted : l'.Pairwise (· ≤ ·)) :
    Least k (insert x S) l' := by
  have hxl : x ∉ l := fun hmem => hx (h.mem x hmem)
  have hlen := h.length
  have hcard : (insert x S).card = S.card + 1 := Finset.card_insert_of_notMem hx
  have hnodup : l'.Nodup := by
    refine hperm.nodup_iff.2 (List.nodup_cons.2 ⟨?_, h.nodup.sublist (List.take_sublist _ _)⟩)
    exact fun hmem => hxl (List.mem_of_mem_take hmem)
  have hstrict : l'.Pairwise (· < ·) :=
    (hsorted.and hnodup).imp (fun hab => lt_of_le_of_ne hab.1 hab.2)
  -- a full list has an element above `x`, since those below are too few
  have habove : l.length = k → ∃ w ∈ l, x < w := by
    intro hfull
    by_contra hno
    have hself : l.filter (· < x) = l := by
      refine List.filter_eq_self.2 (fun y hy => decide_eq_true ?_)
      refine lt_of_le_of_ne (not_lt.1 fun hlt => hno ⟨y, hy, hlt⟩) ?_
      rintro rfl
      exact hxl hy
    rw [hself] at hnear
    omega
  refine ⟨hstrict, ?_, ?_, ?_⟩
  · intro y hy
    rcases List.mem_cons.1 (hperm.mem_iff.1 hy) with rfl | hy
    · exact Finset.mem_insert_self y S
    · exact Finset.mem_insert_of_mem (h.mem y (List.mem_of_mem_take hy))
  · rw [hperm.length_eq, List.length_cons, List.length_take, hcard]
    omega
  · intro z hz y hy hyl
    have hyx : y ≠ x := by
      rintro rfl
      exact hyl (hperm.mem_iff.2 (List.mem_cons_self ..))
    have hyS : y ∈ S := (Finset.mem_insert.1 hy).resolve_left hyx
    have hytake : y ∉ l.take (k - 1) :=
      fun hmem => hyl (hperm.mem_iff.2 (List.mem_cons_of_mem x hmem))
    by_cases hmem : y ∈ l
    -- `y` is the element that was dropped at the back
    · have hsplit := h.sorted
      rw [← List.take_append_drop (k - 1) l] at hmem hsplit
      have hdrop := (List.mem_append.1 hmem).resolve_left hytake
      have hbelow := fun w hw => (List.pairwise_append.1 hsplit).2.2 w hw y hdrop
      rcases List.mem_cons.1 (hperm.mem_iff.1 hz) with rfl | hz
      · have hpos := List.length_pos_of_mem hdrop
        have hle := h.length_le
        rw [List.length_drop] at hpos
        rcases habove (by omega) with ⟨w, hw, hlt⟩
        rw [← List.take_append_drop (k - 1) l] at hw
        rcases List.mem_append.1 hw with hw | hw
        · exact hlt.trans (hbelow w hw)
        · have hone : (l.drop (k - 1)).length = 1 := by
            rw [List.length_drop]
            omega
          rcases List.length_eq_one_iff.1 hone with ⟨a, ha⟩
          rw [ha, List.mem_singleton] at hdrop hw
          rwa [hdrop, ← hw]
      · exact hbelow z hz
    · rcases List.mem_cons.1 (hperm.mem_iff.1 hz) with rfl | hz
      · rcases habove (h.length_eq_of_not_mem hyS hmem) with ⟨w, hw, hlt⟩
        exact hlt.trans (h.least w hw y hyS hmem)
      · exact h.least z (List.mem_of_mem_take hz) y hyS hmem

end Least

/-! ## Lists with keys -/

section keys

variable {α β : Type*} {key : α → κ} {k : Nat} {all l : List α}

/-- `l` are `k` of the elements of `all`, each at most as often as it stands there, in the order of
their keys, and no element that is left out has a smaller key. -/
structure LeastBy (key : α → κ) (k : Nat) (all l : List α) : Prop where
  length : l.length = min k all.length
  sorted : l.Pairwise (fun x y => key x ≤ key y)
  least : ∃ rest, (l ++ rest).Perm all ∧ ∀ x ∈ l, ∀ y ∈ rest, key x ≤ key y

namespace LeastBy

/-- The first elements of a sorted list. -/
theorem take (hsorted : l.Pairwise (fun x y => key x ≤ key y)) (hperm : l.Perm all) (k : Nat) :
    LeastBy key k all (l.take k) := by
  refine ⟨?_, hsorted.sublist (List.take_sublist k l), l.drop k, ?_, ?_⟩
  · rw [List.length_take, hperm.length_eq]
  · rw [List.take_append_drop]
    exact hperm
  · rw [← List.take_append_drop k l] at hsorted
    exact (List.pairwise_append.1 hsorted).2.2

/-- The order of elements with equal keys does not matter. -/
theorem of_perm {l' : List α} (h : LeastBy key k all l) (hperm : l'.Perm l)
    (hsorted : l'.Pairwise (fun x y => key x ≤ key y)) : LeastBy key k all l' := by
  rcases h.least with ⟨rest, hall, hleast⟩
  refine ⟨hperm.length_eq.trans h.length, hsorted, rest, (hperm.append_right rest).trans hall, ?_⟩
  intro x hx
  exact hleast x (hperm.mem_iff.1 hx)

/-- The same elements under other names. -/
theorem map {f : α → β} {key' : β → κ} (h : LeastBy key k all l)
    (hkey : ∀ x ∈ all, key' (f x) = key x) : LeastBy key' k (all.map f) (l.map f) := by
  rcases h.least with ⟨rest, hall, hleast⟩
  have hmem : ∀ x ∈ l, x ∈ all := fun x hx => hall.mem_iff.1 (List.mem_append_left rest hx)
  have hmem' : ∀ x ∈ rest, x ∈ all := fun x hx => hall.mem_iff.1 (List.mem_append_right l hx)
  refine ⟨?_, ?_, rest.map f, ?_, ?_⟩
  · rw [List.length_map, List.length_map]
    exact h.length
  · refine List.pairwise_map.2 (h.sorted.imp_of_mem ?_)
    intro x y hx hy hxy
    rw [hkey x (hmem x hx), hkey y (hmem y hy)]
    exact hxy
  · rw [← List.map_append]
    exact hall.map f
  · intro x' hx' y' hy'
    rcases List.mem_map.1 hx' with ⟨x, hx, rfl⟩
    rcases List.mem_map.1 hy' with ⟨y, hy, rfl⟩
    rw [hkey x (hmem x hx), hkey y (hmem' y hy)]
    exact hleast x hx y hy

end LeastBy

end keys

end Container
