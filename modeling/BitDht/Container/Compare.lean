import Mathlib.Data.List.Basic
import Mathlib.Data.List.TakeWhile
import Mathlib.Tactic.Common

/-!
# Compare — a map with a comparison of its own

`CmpMap` is `std::map<κ, α>` with a comparison that need not be an order.  A lookup walks down a search
tree and asks the comparison at each node, so where the comparison is no order it may miss an element that
is there.  How the tree is kept in balance is the library's own affair: `TreeLib` has the two operations
that change its shape, and what they promise.  Over keys that the comparison does order, the elements stay
in order and a lookup finds what is there (`CmpMap.Ascending.find`, `.assign`).
-/

namespace Container

universe u v

variable {κ : Type u} {α : Type v} {lt : κ → κ → Bool}

/-- Neither key comes before the other. -/
def sameKey (lt : κ → κ → Bool) (a b : κ) : Bool := !lt a b && !lt b a

/-! ## Trees -/

/-- A tree with elements at its nodes.  The mark of a node is the library's own, such as its colour. -/
inductive SearchTree (β : Type u)
  | leaf
  | node (mark : Bool) (left : SearchTree β) (a : β) (right : SearchTree β)

namespace SearchTree

/-- The elements as an iterator passes them. -/
def toList {β : Type u} : SearchTree β → List β
  | .leaf => []
  | .node _ left a right => left.toList ++ a :: right.toList

/-- A change to every element that leaves the tree as it is. -/
def map {β : Type u} {γ : Type v} (f : β → γ) : SearchTree β → SearchTree γ
  | .leaf => .leaf
  | .node mark left a right => .node mark (left.map f) (f a) (right.map f)

theorem toList_map {β : Type u} {γ : Type v} (f : β → γ) (t : SearchTree β) :
    (t.map f).toList = t.toList.map f := by
  induction t with
  | leaf => rfl
  | node mark left a right ihl ihr => simp [map, toList, ihl, ihr]

/-- A tree without a left branch anywhere. -/
def ofList {β : Type u} : List β → SearchTree β
  | [] => .leaf
  | a :: l => .node false .leaf a (ofList l)

theorem toList_ofList {β : Type u} (l : List β) : (ofList l).toList = l := by
  induction l with
  | nil => rfl
  | cons a l ih => simp [ofList, toList, ih]

/-- `lower_bound(k)`: how many elements the iterator has passed where the walk for `k` ends.  The walk
goes to the right of an element that comes before `k`. -/
def lowerBound (lt : κ → κ → Bool) (k : κ) : SearchTree (κ × α) → Nat
  | .leaf => 0
  | .node _ left a right =>
      if lt a.1 k then left.toList.length + 1 + lowerBound lt k right else lowerBound lt k left

/-- `find(k)`: the place of the element, none for `end()`. -/
def find (lt : κ → κ → Bool) (t : SearchTree (κ × α)) (k : κ) : Option Nat :=
  match t.toList[t.lowerBound lt k]? with
  | none => none
  | some e => if lt k e.1 then none else some (t.lowerBound lt k)

/-- Where the first `n` elements are those that come before `k`, the walk ends behind them. -/
theorem lowerBound_eq {k : κ} {t : SearchTree (κ × α)} {n : Nat} (hn : n ≤ t.toList.length)
    (h : ∀ i e, t.toList[i]? = some e → (lt e.1 k = true ↔ i < n)) : t.lowerBound lt k = n := by
  induction t generalizing n with
  | leaf => exact (Nat.le_zero.1 hn).symm
  | node mark left a right ihl ihr =>
      simp only [toList, List.length_append, List.length_cons] at hn h
      have hroot := h left.toList.length a (by simp)
      rw [lowerBound]
      split_ifs with hlt
      · have hlen := hroot.1 hlt
        rw [ihr (n := n - (left.toList.length + 1)) (by omega)]
        · omega
        · intro i e he
          rw [h (left.toList.length + 1 + i) e (by
            rw [List.getElem?_append_right (by omega), show left.toList.length + 1 + i -
              left.toList.length = i + 1 by omega, List.getElem?_cons_succ, he])]
          omega
      · have hlen : n ≤ left.toList.length := not_lt.1 (fun hlt' => hlt (hroot.2 hlt'))
        refine ihl hlen ?_
        intro i e he
        rcases List.getElem?_eq_some_iff.1 he with ⟨hi, -⟩
        exact h i e (by rwa [List.getElem?_append_left hi])

theorem lowerBound_append {k : κ} {t : SearchTree (κ × α)} {l r : List (κ × α)}
    (ht : t.toList = l ++ r) (hl : ∀ a ∈ l, lt a.1 k = true) (hr : ∀ b ∈ r, lt b.1 k = false) :
    t.lowerBound lt k = l.length := by
  refine lowerBound_eq (by rw [ht, List.length_append]; omega) ?_
  intro i e he
  rw [ht] at he
  by_cases hi : i < l.length
  · rw [List.getElem?_append_left hi] at he
    exact iff_of_true (hl e (List.mem_of_getElem? he)) hi
  · rw [List.getElem?_append_right (not_lt.1 hi)] at he
    simp [hr e (List.mem_of_getElem? he), hi]

end SearchTree

/-! ## The library -/

/-- Between `l` and `r` is the place of the key. -/
structure Place (lt : κ → κ → Bool) (k : κ) (l r : List (κ × α)) : Prop where
  left : ∀ a ∈ l, lt a.1 k = true ∧ lt k a.1 = false
  right : ∀ b ∈ r, lt b.1 k = false ∧ lt k b.1 = true

theorem Place.find {k : κ} {l r : List (κ × α)} (h : Place lt k l r) {t : SearchTree (κ × α)}
    (ht : t.toList = l ++ r) : t.find lt k = none := by
  have hend := SearchTree.lowerBound_append ht (fun a ha => (h.left a ha).1)
    (fun b hb => (h.right b hb).1)
  rw [SearchTree.find, hend, ht, List.getElem?_append_right le_rfl, Nat.sub_self]
  cases r with
  | nil => rfl
  | cons b r => simp [(h.right b List.mem_cons_self).2]

/-- The operations of a library that change the shape of the tree, and what is documented of them.
`m[k] = x` brings no key but `k`, and where the key has a place among the others it is put there.
`erase(it)` takes out the element that the iterator is at, and compares nothing. -/
structure TreeLib (κ : Type u) (α : Type v) (lt : κ → κ → Bool) where
  assign : SearchTree (κ × α) → κ → α → SearchTree (κ × α)
  unlink : SearchTree (κ × α) → Nat → SearchTree (κ × α)
  keys_assign : ∀ (t : SearchTree (κ × α)) (k : κ) (x : α), ∀ e ∈ (assign t k x).toList,
    e.1 = k ∨ ∃ e' ∈ t.toList, e'.1 = e.1
  toList_assign : ∀ (t : SearchTree (κ × α)) (k : κ) (x : α) (l r : List (κ × α)),
    t.toList = l ++ r → Place lt k l r → (assign t k x).toList = l ++ (k, x) :: r
  toList_unlink : ∀ (t : SearchTree (κ × α)) (i : Nat), (unlink t i).toList = t.toList.eraseIdx i

/-- A library that keeps no balance. -/
def TreeLib.plain (κ : Type u) (α : Type v) (lt : κ → κ → Bool) : TreeLib κ α lt where
  assign t k x :=
    match t.find lt k with
    | some i => .ofList (t.toList.modify i (fun e => (e.1, x)))
    | none =>
        .ofList (t.toList.take (t.lowerBound lt k) ++ (k, x) :: t.toList.drop (t.lowerBound lt k))
  unlink t i := .ofList (t.toList.eraseIdx i)
  keys_assign := by
    intro t k x e he
    split at he
    · rw [SearchTree.toList_ofList, List.mem_iff_getElem?] at he
      rcases he with ⟨j, hj⟩
      rw [List.getElem?_modify] at hj
      rcases Option.map_eq_some_iff.1 hj with ⟨e', he', rfl⟩
      refine .inr ⟨e', List.mem_of_getElem? he', ?_⟩
      split_ifs
      · rfl
      · rfl
    · rw [SearchTree.toList_ofList] at he
      rcases List.mem_append.1 he with hold | he
      · exact .inr ⟨e, List.mem_of_mem_take hold, rfl⟩
      · rcases List.mem_cons.1 he with rfl | hold
        · exact .inl rfl
        · exact .inr ⟨e, List.mem_of_mem_drop hold, rfl⟩
  toList_assign := by
    intro t k x l r ht hplace
    have hend := SearchTree.lowerBound_append ht (fun a ha => (hplace.left a ha).1)
      (fun b hb => (hplace.right b hb).1)
    rw [hplace.find ht, SearchTree.toList_ofList, hend, ht, List.take_left, List.drop_left]
  toList_unlink t i := SearchTree.toList_ofList _

/-! ## The map -/

/-- `std::map<κ, α>` -/
structure CmpMap (κ : Type u) (α : Type v) (lt : κ → κ → Bool) where
  lib : TreeLib κ α lt
  tree : SearchTree (κ × α)

namespace CmpMap

def empty (lib : TreeLib κ α lt) : CmpMap κ α lt where
  lib := lib
  tree := .leaf

/-- The elements from `begin()` to `end()`. -/
def entries (m : CmpMap κ α lt) : List (κ × α) := m.tree.toList

/-- `find(k)` -/
def find (m : CmpMap κ α lt) (k : κ) : Option Nat := m.tree.find lt k

/-- `count(k) > 0` -/
def contains (m : CmpMap κ α lt) (k : κ) : Bool := (m.find k).isSome

/-- `m[k] = x` -/
def assign (m : CmpMap κ α lt) (k : κ) (x : α) : CmpMap κ α lt :=
  { m with tree := m.lib.assign m.tree k x }

/-- `erase(it)` -/
def erase (m : CmpMap κ α lt) (it : Nat) : CmpMap κ α lt :=
  { m with tree := m.lib.unlink m.tree it }

/-- An assignment to every element. -/
def mapVals (m : CmpMap κ α lt) (f : α → α) : CmpMap κ α lt :=
  { m with tree := m.tree.map (fun e => (e.1, f e.2)) }

theorem mem_assign {m : CmpMap κ α lt} {k : κ} {x : α} {e : κ × α}
    (h : e ∈ (m.assign k x).entries) : e.1 = k ∨ ∃ e' ∈ m.entries, e'.1 = e.1 :=
  m.lib.keys_assign m.tree k x e h

theorem entries_erase (m : CmpMap κ α lt) (it : Nat) :
    (m.erase it).entries = m.entries.eraseIdx it :=
  m.lib.toList_unlink m.tree it

theorem entries_mapVals (m : CmpMap κ α lt) (f : α → α) :
    (m.mapVals f).entries = m.entries.map (fun e => (e.1, f e.2)) :=
  SearchTree.toList_map _ _

/-! ## Keys that are in order -/

/-- On these keys the comparison is a strict weak order. -/
structure OrderedOn (lt : κ → κ → Bool) (P : κ → Prop) : Prop where
  asymm : ∀ {a b}, P a → P b → lt a b = true → lt b a = false
  trans : ∀ {a b c}, P a → P b → P c → lt a b = true → lt b c = true → lt a c = true
  total : ∀ {a b c}, P a → P b → P c → lt a c = true → lt a b = true ∨ lt b c = true

/-- The elements come in the order of their keys. -/
structure Ascending (lt : κ → κ → Bool) (P : κ → Prop) (l : List (κ × α)) : Prop where
  keys : ∀ e ∈ l, P e.1
  order : l.Pairwise (fun a b => lt a.1 b.1 = true)

namespace Ascending

variable {P : κ → Prop} {l : List (κ × α)} {k : κ}

theorem sublist {l' : List (κ × α)} (h : Ascending lt P l) (hl : l'.Sublist l) : Ascending lt P l' :=
  ⟨fun e he => h.keys e (hl.subset he), h.order.sublist hl⟩

theorem mapVals (h : Ascending lt P l) (f : α → α) :
    Ascending lt P (l.map (fun e => (e.1, f e.2))) := by
  refine ⟨?_, List.pairwise_map.2 h.order⟩
  intro e he
  rcases List.mem_map.1 he with ⟨e', he', rfl⟩
  exact h.keys e' he'

/-- A lookup of a key finds the element that has it. -/
theorem find (hlt : OrderedOn lt P) {t : SearchTree (κ × α)} (h : Ascending lt P t.toList) (hk : P k)
    {i : Nat} {e : κ × α} (he : t.toList[i]? = some e) (hsame : sameKey lt e.1 k = true) :
    t.find lt k = some i := by
  rw [sameKey, Bool.and_eq_true, Bool.not_eq_true', Bool.not_eq_true'] at hsame
  rcases List.getElem?_eq_some_iff.1 he with ⟨hi, rfl⟩
  have hP : ∀ {j} (hj : j < t.toList.length), P t.toList[j].1 := fun hj =>
    h.keys _ (List.getElem_mem hj)
  -- what comes before the element comes before the key, and what comes behind it does not
  have hend : t.lowerBound lt k = i := by
    refine SearchTree.lowerBound_eq hi.le ?_
    intro j e' he'
    rcases List.getElem?_eq_some_iff.1 he' with ⟨hj, rfl⟩
    constructor
    · intro hbefore
      rcases lt_trichotomy j i with hlt' | rfl | hgt
      · exact hlt'
      · rw [hsame.1] at hbefore
        cases hbefore
      · have hij := List.pairwise_iff_getElem.1 h.order i j hi hj hgt
        have hwrong := hlt.trans (hP hi) (hP hj) hk hij hbefore
        rw [hsame.1] at hwrong
        cases hwrong
    · intro hji
      have hbefore := List.pairwise_iff_getElem.1 h.order j i hj hi hji
      rcases hlt.total (hP hj) hk (hP hi) hbefore with hleft | hright
      · exact hleft
      · rw [hsame.2] at hright
        cases hright
  rw [SearchTree.find, hend, he]
  simp [hsame.2]

theorem of_mem_dropWhile (hlt : OrderedOn lt P) (h : Ascending lt P l) (hk : P k) :
    ∀ b ∈ l.dropWhile (fun e => lt e.1 k), lt b.1 k = false := by
  induction l with
  | nil => exact fun b hb => absurd hb List.not_mem_nil
  | cons a l ih =>
      rcases List.pairwise_cons.1 h.order with ⟨ha, _⟩
      cases hfirst : lt a.1 k with
      | true =>
          rw [List.dropWhile_cons_of_pos (by simpa using hfirst)]
          exact ih (h.sublist (List.sublist_cons_self a l))
      | false =>
          rw [List.dropWhile_cons_of_neg (by simp [hfirst])]
          intro b hb
          rcases List.mem_cons.1 hb with rfl | hb
          · exact hfirst
          · -- what follows the first that does not come before the key does not either
            rw [← Bool.not_eq_true]
            intro hbk
            have hwrong := hlt.trans (h.keys a List.mem_cons_self)
              (h.keys b (List.mem_cons_of_mem a hb)) hk (ha b hb) hbk
            rw [hfirst] at hwrong
            cases hwrong

/-- A key that is not found has a place, and with an element there the others stay in order. -/
theorem assign (hlt : OrderedOn lt P) {m : CmpMap κ α lt} (h : Ascending lt P m.entries) (hk : P k)
    (hfind : m.find k = none) (x : α) : Ascending lt P (m.assign k x).entries := by
  have hsplit : m.entries = m.entries.takeWhile (fun e => lt e.1 k) ++
      m.entries.dropWhile (fun e => lt e.1 k) := List.takeWhile_append_dropWhile.symm
  have hplace : Place lt k (m.entries.takeWhile (fun e => lt e.1 k))
      (m.entries.dropWhile (fun e => lt e.1 k)) := by
    constructor
    · intro a ha
      have hleft := List.mem_takeWhile_imp ha
      exact ⟨hleft, hlt.asymm (h.keys a ((List.takeWhile_sublist _).subset ha)) hk hleft⟩
    · intro b hb
      have hright := of_mem_dropWhile hlt h hk b hb
      refine ⟨hright, ?_⟩
      by_contra hno
      rw [Bool.not_eq_true] at hno
      rcases List.mem_iff_getElem?.1 ((List.dropWhile_sublist _).subset hb) with ⟨i, hi⟩
      rw [CmpMap.find, h.find hlt hk hi (by simp [sameKey, hright, hno])] at hfind
      cases hfind
  have hentries : (m.assign k x).entries = _ := m.lib.toList_assign m.tree k x _ _ hsplit hplace
  rw [hentries]
  refine ⟨fun e he => ?_, List.pairwise_append.2 ⟨h.order.sublist (List.takeWhile_sublist _),
    List.pairwise_cons.2 ⟨fun b hb => (hplace.right b hb).2,
      h.order.sublist (List.dropWhile_sublist _)⟩, ?_⟩⟩
  · rcases List.mem_append.1 he with he | he
    · exact h.keys e ((List.takeWhile_sublist _).subset he)
    · rcases List.mem_cons.1 he with rfl | he
      · exact hk
      · exact h.keys e ((List.dropWhile_sublist _).subset he)
  · intro a ha b hb
    rcases List.mem_cons.1 hb with rfl | hb
    · exact (hplace.left a ha).1
    · have horder := h.order
      rw [hsplit, List.pairwise_append] at horder
      exact horder.2.2 a ha b hb

end Ascending

end CmpMap

end Container
