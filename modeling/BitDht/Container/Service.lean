import Mathlib.Data.List.Forall2

/-!
# Service — requests that are answered in the order of their arrival

Requests arrive, some of them wait, and those that wait are answered or given up from the front.  What
was answered and what waits then match requests in the order in which these came (`InOrder`), each of
them another one.
-/

namespace Container

universe u v w

variable {α : Type u} {β : Type v} {γ : Type w}

/-- The answers, and behind them what waits, belong to some of the requests, in their order: `R` says
that an answer is one to a request, `W` that what waits stands for one. -/
def InOrder (R : α → γ → Prop) (W : β → γ → Prop) (answered : List α) (waiting : List β)
    (arrived : List γ) : Prop :=
  ∃ old new, (old ++ new).Sublist arrived ∧ List.Forall₂ R answered old ∧ List.Forall₂ W waiting new

namespace InOrder

variable {R : α → γ → Prop} {W : β → γ → Prop} {answered : List α} {waiting : List β}
  {arrived : List γ}

theorem nil : InOrder R W [] [] [] :=
  ⟨[], [], List.Sublist.refl [], .nil, .nil⟩

/-- Requests that nothing waits for may arrive at any time. -/
theorem arrive (h : InOrder R W answered waiting arrived) (requests : List γ) :
    InOrder R W answered waiting (arrived ++ requests) := by
  rcases h with ⟨old, new, hsub, hold, hnew⟩
  exact ⟨old, new, hsub.trans (List.sublist_append_left _ _), hold, hnew⟩

/-- A request arrives and waits behind the others. -/
theorem enqueue (h : InOrder R W answered waiting arrived) {b : β} {c : γ} (hb : W b c) :
    InOrder R W answered (waiting ++ [b]) (arrived ++ [c]) := by
  rcases h with ⟨old, new, hsub, hold, hnew⟩
  refine ⟨old, new ++ [c], ?_, hold, List.rel_append hnew (.cons hb .nil)⟩
  rw [← List.append_assoc]
  exact hsub.append (List.Sublist.refl [c])

/-- The first that waits is given up. -/
theorem drop {b : β} (h : InOrder R W answered (b :: waiting) arrived) :
    InOrder R W answered waiting arrived := by
  rcases h with ⟨old, new, hsub, hold, hnew⟩
  cases hnew with
  | @cons _ c _ new _ hnew =>
      have hless : (old ++ new).Sublist (old ++ c :: new) :=
        (List.Sublist.refl old).append (List.sublist_cons_self c new)
      exact ⟨old, new, hless.trans hsub, hold, hnew⟩

/-- The first that waits stands for a request. -/
theorem exists_head {b : β} (h : InOrder R W answered (b :: waiting) arrived) : ∃ c, W b c := by
  rcases h with ⟨_, _, _, _, hnew⟩
  cases hnew with
  | cons hb _ => exact ⟨_, hb⟩

/-- The first that waits is answered. -/
theorem answer {a : α} {b : β} (h : InOrder R W answered (b :: waiting) arrived)
    (ha : ∀ c, W b c → R a c) : InOrder R W (answered ++ [a]) waiting arrived := by
  rcases h with ⟨old, new, hsub, hold, hnew⟩
  cases hnew with
  | @cons _ c _ new hb hnew =>
      refine ⟨old ++ [c], new, ?_, List.rel_append hold (.cons (ha c hb) .nil), hnew⟩
      rwa [List.append_assoc, List.singleton_append]

/-- All that waits is given up. -/
theorem clear (h : InOrder R W answered waiting arrived) : InOrder R W answered [] arrived := by
  rcases h with ⟨old, new, hsub, hold, _⟩
  refine ⟨old, [], ?_, hold, .nil⟩
  rw [List.append_nil]
  exact (List.sublist_append_left old new).trans hsub

/-- The answers are answers to requests, in their order. -/
theorem sublistForall₂ (h : InOrder R W answered waiting arrived) :
    List.SublistForall₂ R answered arrived := by
  rcases h with ⟨old, new, hsub, hold, _⟩
  exact List.sublistForall₂_iff.2 ⟨old, hold, (List.sublist_append_left old new).trans hsub⟩

end InOrder

end Container
