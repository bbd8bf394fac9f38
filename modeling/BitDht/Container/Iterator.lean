import BitDht.Container.Ordered
import BitDht.Exec.Loop

/-!
# Iterator — iterators into a multimap

A loop over a multimap that erases an entry has to find its way back.  The one here starts again at
the first entry after each erasure; `run_eraseStep` says that it ends, and with which entries.
-/

namespace Container

universe u v w

variable {κ : Type u} {α : Type v} [LinearOrder κ]

/-- An iterator: the entries in front of it, and those from it on. -/
structure MapIterator (κ : Type u) (α : Type v) [LinearOrder κ] where
  before : List (κ × α)
  after : List (κ × α)
  sorted : (before ++ after).Pairwise (fun a b => a.1 ≤ b.1)

/-- `begin()` -/
def Multimap.begin (m : Multimap κ α) : MapIterator κ α where
  before := []
  after := m.entries
  sorted := m.sorted

namespace MapIterator

/-- The multimap that is iterated over. -/
def container (c : MapIterator κ α) : Multimap κ α where
  entries := c.before ++ c.after
  sorted := c.sorted

/-- `*it`, unless the iterator is at the end. -/
def entry (c : MapIterator κ α) : Option (κ × α) := c.after.head?

/-- `it++` -/
def next (c : MapIterator κ α) : MapIterator κ α where
  before := c.before ++ c.after.take 1
  after := c.after.drop 1
  sorted := by
    rw [List.append_assoc, List.take_append_drop]
    exact c.sorted

/-- `erase(it)` -/
def erase (c : MapIterator κ α) : Multimap κ α where
  entries := c.before ++ c.after.drop 1
  sorted := c.sorted.sublist (List.Sublist.append_left (List.drop_sublist 1 c.after) c.before)

/-- One pass of a loop that erases the entries with `p`, and then starts again. -/
def eraseStep (p : κ × α → Bool) (c : MapIterator κ α) : Option (MapIterator κ α) :=
  match c.entry with
  | none => none
  | some e => if p e then some c.erase.begin else some c.next

/-- The passes that are left: at most the size of the multimap before each erasure. -/
def passes (c : MapIterator κ α) : Nat :=
  c.container.size * c.container.size + c.after.length

theorem container_begin (m : Multimap κ α) : m.begin.container = m := rfl

/-- What is true of the iterator in a loop that has started with the entries `l`. -/
structure Erasing (p : κ × α → Bool) (l : List (κ × α)) (c : MapIterator κ α) : Prop where
  passed : ∀ e ∈ c.before, p e = false
  rest : (c.before ++ c.after).filter (fun e => !p e) = l.filter (fun e => !p e)

theorem erasing_begin (p : κ × α → Bool) (m : Multimap κ α) : Erasing p m.entries m.begin where
  passed := by simp [Multimap.begin]
  rest := rfl

theorem eraseStep_none {p : κ × α → Bool} {c : MapIterator κ α} (h : eraseStep p c = none) :
    c.after = [] := by
  cases hc : c.after with
  | nil =>
      rfl
  | cons e rest =>
      rw [eraseStep, entry, hc] at h
      by_cases hp : p e <;> simp [hp] at h

theorem Erasing.step {p : κ × α → Bool} {l : List (κ × α)} {c c' : MapIterator κ α}
    (h : Erasing p l c) (hstep : eraseStep p c = some c') :
    Erasing p l c' ∧ c'.passes < c.passes := by
  cases hc : c.after with
  | nil =>
      rw [eraseStep, entry, hc] at hstep
      cases hstep
  | cons e rest =>
      have hrest := h.rest
      rw [hc] at hrest
      by_cases hp : p e = true
      · have heq : c' = c.erase.begin := by
          simpa [eraseStep, entry, hc, hp] using hstep.symm
        subst heq
        refine ⟨⟨by simp [Multimap.begin], ?_⟩, ?_⟩
        · rw [← hrest]
          simp [Multimap.begin, erase, hc, hp]
        -- a multimap of `n + 1` entries becomes one of `n`, to be passed once
        · have hsize : c.container.size = c.before.length + rest.length + 1 := by
            simp [container, Multimap.size, hc, Nat.add_assoc]
          have hlength : c.erase.entries.length = c.before.length + rest.length := by
            simp [erase, hc]
          have hsquare : ∀ n : Nat, n * n + n < (n + 1) * (n + 1) + (rest.length + 1) := by
            intro n
            have hsucc : (n + 1) * (n + 1) = n * n + n + n + 1 := Nat.succ_mul_succ_eq n n
            omega
          rw [passes, passes, container_begin, Multimap.size, Multimap.begin, hlength, hsize, hc,
            List.length_cons]
          exact hsquare _
      · rw [Bool.not_eq_true] at hp
        have heq : c' = c.next := by
          simpa [eraseStep, entry, hc, hp] using hstep.symm
        subst heq
        refine ⟨⟨?_, ?_⟩, ?_⟩
        · intro x hx
          rcases List.mem_append.1 hx with hx | hx
          · exact h.passed x hx
          · rw [hc] at hx
            rw [List.mem_singleton.1 hx]
            exact hp
        · rw [← hrest]
          simp [next, hc, List.append_assoc]
        · simp [passes, container, Multimap.size, next, hc]

/-- The loop ends, and leaves just the entries without `p`. -/
theorem run_eraseStep {ε : Type w} (stuck : ε) (p : κ × α → Bool) (m : Multimap κ α) :
    ∃ c, Loop.run stuck (eraseStep p) (m.begin.passes + 1) m.begin = .ok c ∧
      c.container.entries = m.entries.filter (fun e => !p e) := by
  have hends : ∃ c, Loop.run stuck (eraseStep p) (m.begin.passes + 1) m.begin = .ok c ∧
      Erasing p m.entries c ∧ eraseStep p c = none :=
    Loop.run_of_measure passes (fun hc hstep => Erasing.step hc hstep) (erasing_begin p m)
      (Nat.lt_succ_self _)
  rcases hends with ⟨c, hrun, hc, hend⟩
  refine ⟨c, hrun, ?_⟩
  have hafter : c.after = [] := eraseStep_none hend
  have hrest := hc.rest
  rw [hafter, List.append_nil, List.filter_eq_self.2 (fun e he => by rw [hc.passed e he]; rfl)]
    at hrest
  calc
    c.container.entries = c.before ++ c.after := rfl
    _ = c.before := by rw [hafter, List.append_nil]
    _ = m.entries.filter (fun e => !p e) := hrest

end MapIterator

end Container
