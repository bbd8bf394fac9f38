import Mathlib.Data.List.Induction
import Mathlib.Order.Defs.PartialOrder
import Mathlib.Tactic.Common

/-!
# Outcome — reasoning about computations that may fail

Rules for `Except`-valued computations: how a bind succeeds or fails, what a computation comes to
(`Meets`, for partial and total correctness alike), and how an invariant of one step carries over a run
of a list of inputs, whether its steps can fail (`List.foldlM`) or take place at given times
(`List.foldl`). A run is also read with a condition on each of its steps (`Guarded`), with what happened
before each of them (`Once`), and beside the run of another system (`foldlM_refines`).
-/

namespace Outcome

universe u v w

variable {ε : Type u} {α β : Type v}

/-! ## Binds -/

@[simp] theorem ok_bind (a : α) (f : α → Except ε β) : (Except.ok a >>= f) = f a := rfl

@[simp] theorem error_bind (e : ε) (f : α → Except ε β) :
    ((Except.error e : Except ε α) >>= f) = Except.error e := rfl

@[simp] theorem pure_eq_ok (a : α) : (pure a : Except ε α) = Except.ok a := rfl

theorem bind_eq_ok {x : Except ε α} {f : α → Except ε β} {b : β} :
    (x >>= f) = .ok b ↔ ∃ a, x = .ok a ∧ f a = .ok b := by
  cases x with
  | error e =>
      simp
  | ok a =>
      simp

theorem bind_eq_error {x : Except ε α} {f : α → Except ε β} {e : ε} :
    (x >>= f) = .error e ↔ x = .error e ∨ ∃ a, x = .ok a ∧ f a = .error e := by
  cases x with
  | error e' =>
      simp
  | ok a =>
      simp

/-- The computation succeeds with a result that passes the test. -/
def holds (x : Except ε α) (p : α → Bool) : Bool :=
  match x with
  | .ok a => p a
  | .error _ => false

theorem holds_iff {x : Except ε α} {p : α → Bool} :
    holds x p = true ↔ ∃ a, x = .ok a ∧ p a = true := by
  cases x with
  | error e =>
      simp [holds]
  | ok a =>
      simp [holds]

/-! ## What a computation comes to -/

section meets

variable {Bad : Prop} {x : Except ε α} {P : α → Prop} {Q : β → Prop}

/-- A result has `P`, and only if `Bad` there may be a fault instead.  With `False` for `Bad` the
computation has a result; with `True` nothing is said where it has none. -/
def Meets (Bad : Prop) (x : Except ε α) (P : α → Prop) : Prop :=
  match x with
  | .ok a => P a
  | .error _ => Bad

theorem meets_true_iff : Meets True x P ↔ ∀ a, x = .ok a → P a := by
  cases x with
  | error e =>
      simp [Meets]
  | ok a =>
      simp [Meets]

theorem meets_false_iff : Meets False x P ↔ ∃ a, x = .ok a ∧ P a := by
  cases x with
  | error e =>
      simp [Meets]
  | ok a =>
      simp [Meets]

theorem Meets.of_ok {a : α} (h : x = .ok a) (ha : P a) : Meets Bad x P := by
  rw [h]
  exact ha

theorem Meets.bind {f : α → Except ε β} (h : Meets Bad x P) (hf : ∀ a, P a → Meets Bad (f a) Q) :
    Meets Bad (x >>= f) Q := by
  cases x with
  | error e => exact h
  | ok a => exact hf a h

theorem Meets.foldlM {step : β → α → Except ε β} {ops : List α} {b : β}
    (hstep : ∀ a ∈ ops, ∀ b, Q b → Meets Bad (step b a) Q) (hb : Q b) :
    Meets Bad (ops.foldlM step b) Q := by
  induction ops generalizing b with
  | nil => exact hb
  | cons a ops ih =>
      rw [List.foldlM_cons]
      exact (hstep a List.mem_cons_self b hb).bind
        (fun b hb => ih (fun a ha => hstep a (List.mem_cons_of_mem _ ha)) hb)

end meets

/-! ## Computations that may also give up -/

section optional

@[simp] theorem mk_some_bind (a : α) (f : α → OptionT (Except ε) β) :
    (OptionT.mk (.ok (some a)) >>= f) = f a := rfl

@[simp] theorem mk_none_bind (f : α → OptionT (Except ε) β) :
    (OptionT.mk (.ok none) >>= f) = OptionT.mk (.ok none) := rfl

@[simp] theorem mk_error_bind (e : ε) (f : α → OptionT (Except ε) β) :
    (OptionT.mk (.error e) >>= f) = OptionT.mk (.error e) := rfl

@[simp] theorem lift_ok_bind (a : α) (f : α → OptionT (Except ε) β) :
    (OptionT.lift (.ok a) >>= f) = f a := rfl

@[simp] theorem lift_error_bind (e : ε) (f : α → OptionT (Except ε) β) :
    (OptionT.lift (.error e) >>= f) = OptionT.mk (.error e) := rfl

theorem bind_of_some {x : OptionT (Except ε) α} {a : α} (h : x.run = .ok (some a))
    (f : α → OptionT (Except ε) β) : (x >>= f) = f a := by
  have hx : x = OptionT.mk (.ok (some a)) := h
  rw [hx, mk_some_bind]

theorem bind_of_none {x : OptionT (Except ε) α} (h : x.run = .ok none)
    (f : α → OptionT (Except ε) β) : (x >>= f) = OptionT.mk (.ok none) := by
  have hx : x = OptionT.mk (.ok none) := h
  rw [hx, mk_none_bind]

theorem bind_of_error {x : OptionT (Except ε) α} {e : ε} (h : x.run = .error e)
    (f : α → OptionT (Except ε) β) : (x >>= f) = OptionT.mk (.error e) := by
  have hx : x = OptionT.mk (.error e) := h
  rw [hx, mk_error_bind]

@[simp] theorem run_failure : (failure : OptionT (Except ε) α).run = .ok none := rfl

end optional

/-! ## Runs -/

section runs

variable {σ α : Type v} {step : σ → α → Except ε σ} {Ok : σ → α → Prop} {Inv : σ → Prop}

/-- Every input of a run meets the guard in the state in which its turn comes. -/
def Guarded (step : σ → α → Except ε σ) (Ok : σ → α → Prop) (s : σ) (ops : List α) : Prop :=
  ∀ pre a post s', ops = pre ++ a :: post → pre.foldlM step s = .ok s' → Ok s' a

theorem Guarded.head {s : σ} {a : α} {ops : List α} (h : Guarded step Ok s (a :: ops)) : Ok s a :=
  h [] a ops s rfl rfl

theorem Guarded.tail {s s₁ : σ} {a : α} {ops : List α} (h : Guarded step Ok s (a :: ops))
    (hstep : step s a = .ok s₁) : Guarded step Ok s₁ ops := by
  intro pre b post s' hops hrun
  -- what follows the first input in the short run follows it in the long one
  apply h (a :: pre) b post s' (by rw [hops, List.cons_append])
  rw [List.foldlM_cons, hstep, ok_bind]
  exact hrun

/-- What every guarded step preserves holds at the end of a guarded run. -/
theorem Guarded.inv (hstep : ∀ {s a s'}, Inv s → Ok s a → step s a = .ok s' → Inv s')
    {ops : List α} {s s' : σ} (h : Guarded step Ok s ops) (hs : Inv s)
    (hrun : ops.foldlM step s = .ok s') : Inv s' := by
  induction ops generalizing s with
  | nil =>
      cases hrun
      exact hs
  | cons a ops ih =>
      rw [List.foldlM_cons] at hrun
      rcases bind_eq_ok.1 hrun with ⟨s₁, hs₁, hrest⟩
      exact ih (h.tail hs₁) (hstep hs h.head hs₁) hrest

/-- What every step preserves holds at the end of every run. -/
theorem foldlM_inv (hstep : ∀ {s a s'}, Inv s → step s a = .ok s' → Inv s') {ops : List α}
    {s s' : σ} (hs : Inv s) (hrun : ops.foldlM step s = .ok s') : Inv s' := by
  have hguard : Guarded step (fun _ _ => True) s ops := fun _ _ _ _ _ _ => trivial
  exact hguard.inv (fun hs _ ha => hstep hs ha) hs hrun

/-- What holds over every step, and over one step after another, holds over every run. -/
theorem foldlM_rel {R : σ → σ → Prop} (hrefl : ∀ s, R s s)
    (htrans : ∀ {s s' s''}, R s s' → R s' s'' → R s s'')
    (hstep : ∀ {s a s'}, step s a = .ok s' → R s s') {ops : List α} {s s' : σ}
    (hrun : ops.foldlM step s = .ok s') : R s s' :=
  foldlM_inv (fun hs ha => htrans hs (hstep ha)) (hrefl s) hrun

/-- What every step preserves of the inputs so far and the state holds of every run and its end. -/
theorem foldlM_log {Inv : List α → σ → Prop}
    (hstep : ∀ {pre s a s'}, Inv pre s → step s a = .ok s' → Inv (pre ++ [a]) s') {ops : List α}
    {s s' : σ} (hs : Inv [] s) (hrun : ops.foldlM step s = .ok s') : Inv ops s' := by
  have hall : ∀ (ops pre : List α) (s : σ), Inv pre s → ops.foldlM step s = .ok s' →
      Inv (pre ++ ops) s' := by
    intro ops
    induction ops with
    | nil =>
        intro pre s hs hrun
        cases hrun
        rwa [List.append_nil]
    | cons a ops ih =>
        intro pre s hs hrun
        rw [List.foldlM_cons] at hrun
        rcases bind_eq_ok.1 hrun with ⟨s₁, hs₁, hrest⟩
        have hlater := ih (pre ++ [a]) s₁ (hstep hs hs₁) hrest
        rwa [List.append_assoc] at hlater
  exact hall ops [] s hs hrun

/-- Two guards that agree wherever an invariant holds are met by the same runs. -/
theorem Guarded.congr {Ok' : σ → α → Prop}
    (hstep : ∀ {s a s'}, Inv s → step s a = .ok s' → Inv s')
    (hiff : ∀ {s a}, Inv s → (Ok s a ↔ Ok' s a)) {s : σ} (hs : Inv s) (ops : List α) :
    Guarded step Ok s ops ↔ Guarded step Ok' s ops := by
  constructor
  · intro h pre a post s' hops hrun
    exact (hiff (foldlM_inv hstep hs hrun)).1 (h pre a post s' hops hrun)
  · intro h pre a post s' hops hrun
    exact (hiff (foldlM_inv hstep hs hrun)).2 (h pre a post s' hops hrun)

/-- A fault that no guarded step from a good state raises is raised nowhere in a guarded run. -/
theorem Guarded.ne_error (hstep : ∀ {s a s'}, Inv s → Ok s a → step s a = .ok s' → Inv s') {e : ε}
    (hfault : ∀ {s a}, Inv s → Ok s a → step s a ≠ .error e) {ops : List α} {s : σ}
    (h : Guarded step Ok s ops) (hs : Inv s) : ops.foldlM step s ≠ .error e := by
  induction ops generalizing s with
  | nil =>
      intro hrun
      cases hrun
  | cons a ops ih =>
      intro hrun
      rw [List.foldlM_cons] at hrun
      rcases bind_eq_error.1 hrun with hs₁ | ⟨s₁, hs₁, hrest⟩
      · exact hfault hs h.head hs₁
      · exact ih (h.tail hs₁) (hstep hs h.head hs₁) hrest

/-- A run all of whose steps succeed comes to an end. -/
theorem exists_run {Good : α → Prop}
    (hstep : ∀ {s a}, Inv s → Good a → ∃ s', step s a = .ok s' ∧ Inv s') {ops : List α}
    (hops : ∀ a ∈ ops, Good a) {s : σ} (hs : Inv s) :
    ∃ s', ops.foldlM step s = .ok s' ∧ Inv s' := by
  induction ops generalizing s with
  | nil =>
      exact ⟨s, rfl, hs⟩
  | cons a ops ih =>
      rcases hstep hs (hops a (List.mem_cons_self ..)) with ⟨s₁, hs₁, hinv⟩
      rw [List.foldlM_cons, hs₁, ok_bind]
      exact ih (fun b hb => hops b (List.mem_cons_of_mem a hb)) hinv

/-- Every step comes back and is matched by a run of the steps of another kind; so is every run. -/
theorem foldlM_refines {τ γ : Type v} {step' : τ → γ → Except ε τ} {R : σ → τ → Prop}
    (hstep : ∀ {s t} a, R s t → ∃ s' t', step s a = .ok s' ∧
      (∃ ops' : List γ, ops'.foldlM step' t = .ok t') ∧ R s' t')
    (ops : List α) {s : σ} {t : τ} (h : R s t) : ∃ s' t', ops.foldlM step s = .ok s' ∧
      (∃ ops' : List γ, ops'.foldlM step' t = .ok t') ∧ R s' t' := by
  induction ops generalizing s t with
  | nil => exact ⟨s, t, rfl, ⟨[], rfl⟩, h⟩
  | cons a ops ih =>
      rcases hstep a h with ⟨s₁, t₁, hs₁, ⟨ops₁, ht₁⟩, h₁⟩
      rcases ih h₁ with ⟨s', t', hs', ⟨ops', ht'⟩, h'⟩
      refine ⟨s', t', ?_, ⟨ops₁ ++ ops', ?_⟩, h'⟩
      · rw [List.foldlM_cons, hs₁, ok_bind, hs']
      · rw [List.foldlM_append, ht₁, ok_bind, ht']

theorem Guarded.append_left {s : σ} {pre post : List α} (h : Guarded step Ok s (pre ++ post)) :
    Guarded step Ok s pre := by
  intro pre' a post' s' hpre hrun
  apply h pre' a (post' ++ post) s' _ hrun
  rw [hpre, List.append_assoc, List.cons_append]

/-- `P` holds in every state of a run, the first one included. -/
def Always (step : σ → α → Except ε σ) (P : σ → Prop) (s : σ) (ops : List α) : Prop :=
  ∀ pre post s', ops = pre ++ post → pre.foldlM step s = .ok s' → P s'

/-- A condition that says of each step when it preserves `P` says of each run when `P` always
holds. -/
theorem always_iff_guarded {s : σ} (hs : Inv s)
    (hstep : ∀ {s a s'}, Inv s → step s a = .ok s' → (Inv s' ↔ Ok s a)) (ops : List α) :
    Always step Inv s ops ↔
      Guarded step (fun s a => ∀ s', step s a = .ok s' → Ok s a) s ops := by
  constructor
  · intro h pre a post s₁ hops hrun s₂ hs₂
    have hbefore : Inv s₁ := h pre (a :: post) s₁ hops hrun
    have hafter : Inv s₂ := by
      apply h (pre ++ [a]) post s₂ (by rw [hops, List.append_assoc, List.singleton_append])
      rw [List.foldlM_append, hrun, ok_bind, List.foldlM_cons, hs₂, ok_bind]
      rfl
    exact (hstep hbefore hs₂).1 hafter
  · intro h pre post s' hops hrun
    subst hops
    exact h.append_left.inv (fun hinv hok ha => (hstep hinv ha).2 (hok _ ha)) hs hrun

/-- `P` holds in some state of a run. -/
def Once (step : σ → α → Except ε σ) (P : σ → Prop) (s : σ) (ops : List α) : Prop :=
  ∃ pre post s', ops = pre ++ post ∧ pre.foldlM step s = .ok s' ∧ P s'

theorem Once.cons {P : σ → Prop} {s s₁ : σ} {a : α} {ops : List α} (hstep : step s a = .ok s₁)
    (h : Once step P s₁ ops) : Once step P s (a :: ops) := by
  rcases h with ⟨pre, post, s', hops, hrun, hp⟩
  refine ⟨a :: pre, post, s', by rw [hops, List.cons_append], ?_, hp⟩
  rw [List.foldlM_cons, hstep, ok_bind]
  exact hrun

theorem Once.not_of_always {P : σ → Prop} {s : σ} {ops : List α}
    (h : Always step (fun s => ¬ P s) s ops) : ¬ Once step P s ops := by
  rintro ⟨pre, post, s', hops, hrun, hp⟩
  exact h pre post s' hops hrun hp

/-- If a step only notes what is noted or seen in the state before it, what is noted at the end of a
run was seen on the way, or noted when it began. -/
theorem Guarded.once_seen {Noted Seen : σ → Prop}
    (hstep : ∀ {s a s'}, Inv s → Ok s a → step s a = .ok s' → Inv s')
    (hnoted : ∀ {s a s'}, Inv s → Ok s a → step s a = .ok s' → Noted s' → Noted s ∨ Seen s)
    {ops : List α} {s s' : σ} (h : Guarded step Ok s ops) (hs : Inv s)
    (hrun : ops.foldlM step s = .ok s') (hend : Noted s') : Noted s ∨ Once step Seen s ops := by
  induction ops generalizing s with
  | nil =>
      cases hrun
      exact .inl hend
  | cons a ops ih =>
      rw [List.foldlM_cons] at hrun
      rcases bind_eq_ok.1 hrun with ⟨s₁, hs₁, hrest⟩
      rcases ih (h.tail hs₁) (hstep hs h.head hs₁) hrest with hfirst | honce
      · rcases hnoted hs h.head hs₁ hfirst with hbefore | hseen
        · exact .inl hbefore
        · exact .inr ⟨[], a :: ops, s, rfl, rfl, hseen⟩
      · exact .inr (honce.cons hs₁)

/-- The run comes to an end, all its states pass `p`, and the last one passes `last` too. -/
def checkRun (step : σ → α → Except ε σ) (p last : σ → Bool) : σ → List α → Bool
  | s, [] => p s && last s
  | s, a :: ops => p s && holds (step s a) (fun s' => checkRun step p last s' ops)

theorem always_of_checkRun {p last : σ → Bool} {s : σ} {ops : List α}
    (h : checkRun step p last s ops = true) : Always step (fun s => p s = true) s ops ∧
      ∃ s', ops.foldlM step s = .ok s' ∧ last s' = true := by
  induction ops generalizing s with
  | nil =>
      rw [checkRun, Bool.and_eq_true] at h
      refine ⟨?_, s, rfl, h.2⟩
      intro pre post s' hops hrun
      rcases List.append_eq_nil_iff.1 hops.symm with ⟨rfl, rfl⟩
      cases hrun
      exact h.1
  | cons a ops ih =>
      rw [checkRun, Bool.and_eq_true] at h
      rcases holds_iff.1 h.2 with ⟨s₁, hs₁, hrest⟩
      rcases ih hrest with ⟨halways, s', hrun, hlast⟩
      constructor
      · intro pre post s'' hops hpre
        cases pre with
        | nil =>
            cases hpre
            exact h.1
        | cons a' pre =>
            rw [List.cons_append, List.cons.injEq] at hops
            rcases hops with ⟨rfl, hops⟩
            rw [List.foldlM_cons, hs₁, ok_bind] at hpre
            exact halways pre post s'' hops hpre
      · refine ⟨s', ?_, hlast⟩
        rw [List.foldlM_cons, hs₁, ok_bind]
        exact hrun

/-- A run ends with the first fault that one of its steps raises. -/
theorem foldlM_of_error {pre post : List α} {a : α} {s s' : σ} {e : ε}
    (hpre : pre.foldlM step s = .ok s') (ha : step s' a = .error e) :
    (pre ++ a :: post).foldlM step s = .error e := by
  calc
    (pre ++ a :: post).foldlM step s = pre.foldlM step s >>= (a :: post).foldlM step :=
      List.foldlM_append
    _ = (a :: post).foldlM step s' := by rw [hpre, ok_bind]
    _ = .error e := by rw [List.foldlM_cons, ha, error_bind]

end runs

section timed

variable {σ α τ : Type v} [Preorder τ] {step : σ → τ × α → σ} {Inv : τ → σ → Prop}

/-- An invariant that may refer to the time, and that time alone does not break, holds at the end
of a run under a clock that does not go back. -/
theorem foldl_timed_inv {s : σ} (hinit : ∀ t, Inv t s)
    (hmono : ∀ {t t' s}, t ≤ t' → Inv t s → Inv t' s)
    (hstep : ∀ {t a s}, Inv t s → Inv t (step s (t, a))) {ops : List (τ × α)}
    (hops : ops.Pairwise (fun a b => a.1 ≤ b.1)) {t : τ} (ht : ∀ o ∈ ops, o.1 ≤ t) :
    Inv t (ops.foldl step s) := by
  -- the last step is made at the time of its own entry, and the invariant then lasts until `t`
  induction ops using List.reverseRecOn generalizing t with
  | nil =>
      exact hinit t
  | append_singleton ops o ih =>
      rw [List.foldl_append, List.foldl_cons, List.foldl_nil]
      rw [List.pairwise_append] at hops
      have hbefore : Inv o.1 (ops.foldl step s) :=
        ih hops.1 (fun x hx => hops.2.2 x hx o (by simp))
      exact hmono (ht o (by simp)) (hstep hbefore)

end timed

end Outcome
