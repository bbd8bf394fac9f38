import BitDht.Exec.Outcome
import Mathlib.Data.List.Basic
import Mathlib.Logic.Function.Basic

/-!
# Network — parties that send each other messages

Parties act on their own and on the messages that reach them, and either may fail.  What was sent stays in
the log, and each entry of the log may be delivered at any time and any number of times, or never.  So a
run may lose, duplicate and reorder messages, and it interleaves the parties in any way.

`Invariant` has what there is to show of one party: an action and a message that was good when it was sent
do not fail, keep what holds of the party, and send only messages that are good by then.  `Invariant.run`
takes this to every run of the network.
-/

namespace Network

open Outcome

universe u v

variable {ι σ α μ ρ : Type v} {ε : Type u}

/-! ## Runs -/

/-- What has happened: a party acted on its own, or it sent a message. -/
inductive Entry (ι α μ : Type v)
  | act (i : ι) (a : α)
  | sent (i : ι) (m : μ)

/-- What the parties do: each action and each message that reaches a party, in the circumstances `r`,
makes a new state and messages. -/
structure System (ι σ α μ ρ : Type v) (ε : Type u) where
  act : ι → σ → α → Except ε (σ × List μ)
  recv : ι → σ → ρ → ι → μ → Except ε (σ × List μ)
  addressed : μ → ι → Bool

/-- The states of the parties, and what has happened so far. -/
structure World (ι σ α μ : Type v) where
  state : ι → σ
  log : List (Entry ι α μ)

inductive Event (ι α ρ : Type v)
  | act (i : ι) (a : α)
  /-- entry `k` of the log reaches the party, if it is a message to it -/
  | deliver (i : ι) (r : ρ) (k : Nat)

/-- The party `i` goes on to the state `s`. -/
def World.next [DecidableEq ι] (w : World ι σ α μ) (i : ι) (s : σ) (entries : List (Entry ι α μ)) :
    World ι σ α μ where
  state := Function.update w.state i s
  log := w.log ++ entries

namespace System

def step [DecidableEq ι] (N : System ι σ α μ ρ ε) (w : World ι σ α μ) :
    Event ι α ρ → Except ε (World ι σ α μ)
  | .act i a => do
      let (s, msgs) ← N.act i (w.state i) a
      pure (w.next i s (.act i a :: msgs.map (.sent i)))
  | .deliver i r k =>
      match w.log[k]? with
      | some (.sent j m) =>
          if N.addressed m i then do
            let (s, msgs) ← N.recv i (w.state i) r j m
            pure (w.next i s (msgs.map (.sent i)))
          else
            pure w
      | _ => pure w

end System

theorem System.step_act [DecidableEq ι] {N : System ι σ α μ ρ ε} {w : World ι σ α μ} {i : ι} {a : α}
    {s : σ} {msgs : List μ} (h : N.act i (w.state i) a = .ok (s, msgs)) :
    N.step w (.act i a) = .ok (w.next i s (.act i a :: msgs.map (.sent i))) := by
  rw [step, h, ok_bind]
  rfl

/-- What an event can be: an action, a message that arrives, or nothing. -/
inductive StepCases [DecidableEq ι] (N : System ι σ α μ ρ ε) (w w' : World ι σ α μ) :
    Event ι α ρ → Prop
  | act (i : ι) (a : α) (s : σ) (msgs : List μ) (hact : N.act i (w.state i) a = .ok (s, msgs))
      (h : w' = w.next i s (.act i a :: msgs.map (.sent i))) : StepCases N w w' (.act i a)
  | recv {k : Nat} (i j : ι) (r : ρ) (m : μ) (s : σ) (msgs : List μ) (hm : .sent j m ∈ w.log)
      (hrecv : N.recv i (w.state i) r j m = .ok (s, msgs))
      (h : w' = w.next i s (msgs.map (.sent i))) : StepCases N w w' (.deliver i r k)
  | none {i : ι} {r : ρ} {k : Nat} (h : w' = w) : StepCases N w w' (.deliver i r k)

theorem System.step_cases [DecidableEq ι] {N : System ι σ α μ ρ ε} {w w' : World ι σ α μ}
    {e : Event ι α ρ} (h : N.step w e = .ok w') : StepCases N w w' e := by
  cases e with
  | act i a =>
      rcases bind_eq_ok.1 h with ⟨⟨s, msgs⟩, hact, hw'⟩
      cases hw'
      exact .act i a s msgs hact rfl
  | deliver i r k =>
      rw [step] at h
      split at h
      · rename_i j m hk
        split at h
        · rcases bind_eq_ok.1 h with ⟨⟨s, msgs⟩, hrecv, hw'⟩
          cases hw'
          exact .recv i j r m s msgs (List.mem_of_getElem? hk) hrecv rfl
        · cases h
          exact .none rfl
      · cases h
        exact .none rfl

/-- The log only grows. -/
theorem System.log_step [DecidableEq ι] {N : System ι σ α μ ρ ε} {w w' : World ι σ α μ}
    {e : Event ι α ρ} (hstep : N.step w e = .ok w') : w.log <+: w'.log := by
  cases step_cases hstep with
  | act i a s msgs _ h => exact h ▸ List.prefix_append _ _
  | recv i j r m s msgs _ _ h => exact h ▸ List.prefix_append _ _
  | none h => exact h ▸ List.prefix_rfl

theorem System.step_deliver [DecidableEq ι] {N : System ι σ α μ ρ ε} {w : World ι σ α μ} {i j : ι}
    {k : Nat} {m : μ} (hk : w.log[k]? = some (.sent j m)) (haddressed : N.addressed m i = true) {r : ρ}
    {s : σ} {msgs : List μ} (h : N.recv i (w.state i) r j m = .ok (s, msgs)) :
    N.step w (.deliver i r k) = .ok (w.next i s (msgs.map (.sent i))) := by
  simp only [step, hk]
  rw [if_pos haddressed, h, ok_bind]
  rfl

/-- A message of the log can be delivered. -/
theorem System.exists_deliver [DecidableEq ι] {N : System ι σ α μ ρ ε} {w : World ι σ α μ} {i j : ι}
    {m : μ} (hm : .sent j m ∈ w.log) (haddressed : N.addressed m i = true) {r : ρ} {s : σ}
    {msgs : List μ} (h : N.recv i (w.state i) r j m = .ok (s, msgs)) :
    ∃ k, N.step w (.deliver i r k) = .ok (w.next i s (msgs.map (.sent i))) := by
  rcases List.mem_iff_getElem?.1 hm with ⟨k, hk⟩
  exact ⟨k, step_deliver hk haddressed h⟩

theorem World.state_next_self [DecidableEq ι] (w : World ι σ α μ) (i : ι) (s : σ)
    (entries : List (Entry ι α μ)) : (w.next i s entries).state i = s :=
  Function.update_self ..

theorem World.state_next_ne [DecidableEq ι] (w : World ι σ α μ) {i j : ι} (hj : j ≠ i) (s : σ)
    (entries : List (Entry ι α μ)) : (w.next i s entries).state j = w.state j :=
  Function.update_of_ne hj ..

/-- What every action and every message keeps of a party holds of it after every run that comes to an
end. -/
theorem System.states_of_run [DecidableEq ι] {N : System ι σ α μ ρ ε} {Inv : σ → Prop}
    (hact : ∀ {i s a s' msgs}, Inv s → N.act i s a = .ok (s', msgs) → Inv s')
    (hrecv : ∀ {i s r j m s' msgs}, Inv s → N.recv i s r j m = .ok (s', msgs) → Inv s')
    {events : List (Event ι α ρ)} {w w' : World ι σ α μ} (hw : ∀ i, Inv (w.state i))
    (hrun : events.foldlM N.step w = .ok w') (i : ι) : Inv (w'.state i) := by
  have hstep : ∀ {w e w'}, (∀ i, Inv (w.state i)) → N.step w e = .ok w' →
      ∀ i, Inv (w'.state i) := by
    intro w e w' hw hstep i
    have hnext : ∀ {j s entries}, Inv s → Inv ((w.next j s entries).state i) := by
      intro j s entries hs
      by_cases hi : i = j
      · rw [hi, w.state_next_self]
        exact hs
      · rw [w.state_next_ne hi]
        exact hw i
    cases System.step_cases hstep with
    | act j a s msgs hrun h => exact h ▸ hnext (hact (hw j) hrun)
    | recv j k r m s msgs _ hrun h => exact h ▸ hnext (hrecv (hw j) hrun)
    | none h => exact h ▸ hw i
  exact @foldlM_inv _ _ _ _ (fun w => ∀ i, Inv (w.state i)) hstep _ _ _ hw hrun i

/-! ## What was sent -/

/-- The messages of a log, with their senders. -/
def sentOf (h : List (Entry ι α μ)) : List (ι × μ) :=
  h.filterMap (fun
    | .act .. => none
    | .sent i m => some (i, m))

theorem sentOf_append (h h' : List (Entry ι α μ)) : sentOf (h ++ h') = sentOf h ++ sentOf h' :=
  List.filterMap_append

@[simp] theorem sentOf_act (i : ι) (a : α) (h : List (Entry ι α μ)) :
    sentOf (.act i a :: h) = sentOf h := rfl

theorem sentOf_sent (i : ι) (msgs : List μ) :
    sentOf (msgs.map (.sent i) : List (Entry ι α μ)) = msgs.map (fun m => (i, m)) := by
  rw [sentOf, List.filterMap_map]
  exact congrFun List.filterMap_eq_map msgs

theorem mem_sentOf {h : List (Entry ι α μ)} {j : ι} {m : μ} :
    (j, m) ∈ sentOf h ↔ .sent j m ∈ h := by
  rw [sentOf, List.mem_filterMap]
  constructor
  · rintro ⟨e, he, heq⟩
    cases e with
    | act i a => cases heq
    | sent i m' =>
        cases heq
        exact he
  · exact fun hm => ⟨_, hm, rfl⟩

/-! ## Messages that were good when they were sent -/

section chronicle

variable {Good : List (Entry ι α μ) → ι → μ → Prop} {h h' : List (Entry ι α μ)} {i j : ι} {m : μ}

/-- Each message was good after what had happened by then. -/
def Chronicle (Good : List (Entry ι α μ) → ι → μ → Prop) (h : List (Entry ι α μ)) : Prop :=
  ∀ pre j m post, h = pre ++ .sent j m :: post → Good pre j m

theorem chronicle_nil : Chronicle Good [] := by
  intro pre j m post h
  exact absurd h.symm (by simp)

theorem Chronicle.snoc (hall : Chronicle Good h) {e : Entry ι α μ}
    (he : ∀ j m, e = .sent j m → Good h j m) : Chronicle Good (h ++ [e]) := by
  intro pre j m post hsplit
  rcases post.eq_nil_or_concat' with rfl | ⟨post, last, rfl⟩
  · -- the message is the new entry
    rcases List.append_inj' hsplit rfl with ⟨rfl, hlast⟩
    exact he j m (List.cons.inj hlast).1
  · rw [← List.cons_append, ← List.append_assoc] at hsplit
    rcases List.append_inj' hsplit rfl with ⟨rfl, _⟩
    exact hall pre j m post rfl

theorem Chronicle.act (hall : Chronicle Good h) (i : ι) (a : α) :
    Chronicle Good (h ++ [.act i a]) :=
  hall.snoc (fun _ _ he => nomatch he)

/-- Messages that are good are sent one after the other. -/
theorem Chronicle.sent (hall : Chronicle Good h) (hmono : ∀ {h h' : List (Entry ι α μ)} {i m},
    h <+: h' → Good h i m → Good h' i m) {msgs : List μ} (hmsgs : ∀ m ∈ msgs, Good h i m) :
    Chronicle Good (h ++ msgs.map (.sent i)) := by
  induction msgs generalizing h with
  | nil =>
      rwa [List.map_nil, List.append_nil]
  | cons m msgs ih =>
      have hfirst : Chronicle Good (h ++ [.sent i m]) := by
        apply hall.snoc
        rintro _ _ ⟨⟩
        exact hmsgs m (List.mem_cons_self ..)
      have hrest := ih hfirst (fun x hx =>
        hmono (List.prefix_append _ _) (hmsgs x (List.mem_cons_of_mem m hx)))
      rwa [List.append_assoc] at hrest

/-- What was sent in a chronicle is good still. -/
theorem Chronicle.good (hall : Chronicle Good h) (hmono : ∀ {h h' : List (Entry ι α μ)} {i m},
    h <+: h' → Good h i m → Good h' i m) (hm : .sent j m ∈ h) : Good h j m := by
  rcases List.append_of_mem hm with ⟨pre, post, rfl⟩
  exact hmono (List.prefix_append _ _) (hall pre j m post rfl)

end chronicle

/-! ## Invariants -/

/-- What holds of a party after what has happened, and of the messages that it sends. -/
structure Invariant (N : System ι σ α μ ρ ε) (Local : List (Entry ι α μ) → ι → σ → Prop)
    (Good : List (Entry ι α μ) → ι → μ → Prop) : Prop where
  local_mono : ∀ {h h' i s}, h <+: h' → Local h i s → Local h' i s
  good_mono : ∀ {h h' : List (Entry ι α μ)} {i m}, h <+: h' → Good h i m → Good h' i m
  act : ∀ {h i s} a, Local h i s → ∃ s' msgs, N.act i s a = .ok (s', msgs) ∧
    Local (h ++ [.act i a]) i s' ∧ ∀ m ∈ msgs, Good (h ++ [.act i a]) i m
  recv : ∀ {h i s} r {j m}, Local h i s → .sent j m ∈ h → Good h j m → N.addressed m i = true →
    ∃ s' msgs, N.recv i s r j m = .ok (s', msgs) ∧ Local h i s' ∧ ∀ m ∈ msgs, Good h i m

/-- The invariant holds of every party, and every message was good. -/
structure Holds (Local : List (Entry ι α μ) → ι → σ → Prop)
    (Good : List (Entry ι α μ) → ι → μ → Prop) (w : World ι σ α μ) : Prop where
  parties : ∀ i, Local w.log i (w.state i)
  messages : Chronicle Good w.log

namespace Invariant

variable {N : System ι σ α μ ρ ε} {Local : List (Entry ι α μ) → ι → σ → Prop}
  {Good : List (Entry ι α μ) → ι → μ → Prop} [DecidableEq ι] {w : World ι σ α μ}

theorem next (hN : Invariant N Local Good) (hw : ∀ i, Local w.log i (w.state i)) {i : ι} {s : σ}
    {h : List (Entry ι α μ)} (hh : w.log <+: h) (hs : Local h i s) {entries : List (Entry ι α μ)}
    (hentries : h <+: w.log ++ entries) (j : ι) :
    Local (w.next i s entries).log j ((w.next i s entries).state j) := by
  by_cases hj : j = i
  · subst hj
    rw [w.state_next_self]
    exact hN.local_mono hentries hs
  · rw [w.state_next_ne hj]
    exact hN.local_mono (hh.trans hentries) (hw j)

/-- No event of a network fails, and each keeps the invariant. -/
theorem step (hN : Invariant N Local Good) (hw : Holds Local Good w) (e : Event ι α ρ) :
    ∃ w', N.step w e = .ok w' ∧ Holds Local Good w' := by
  cases e with
  | act i a =>
      rcases hN.act a (hw.parties i) with ⟨s, msgs, hrun, hs, hmsgs⟩
      refine ⟨w.next i s (.act i a :: msgs.map (.sent i)), ?_, ?_, ?_⟩
      · rw [System.step, hrun, ok_bind]
        rfl
      · have hprefix := List.prefix_append (w.log ++ [.act i a]) (msgs.map (.sent i))
        rw [List.append_assoc, List.singleton_append] at hprefix
        exact hN.next hw.parties (List.prefix_append w.log [.act i a]) hs hprefix
      · have hsent := (hw.messages.act i a).sent hN.good_mono hmsgs
        rwa [List.append_assoc] at hsent
  | deliver i r k =>
      have hstay : ∃ w', (pure w : Except ε (World ι σ α μ)) = .ok w' ∧ Holds Local Good w' :=
        ⟨w, rfl, hw⟩
      rw [System.step]
      split
      · rename_i j m hk
        split
        · rename_i haddressed
          have hmem : .sent j m ∈ w.log := List.mem_of_getElem? hk
          rcases hN.recv r (hw.parties i) hmem (hw.messages.good hN.good_mono hmem) haddressed with
            ⟨s, msgs, hrun, hs, hmsgs⟩
          refine ⟨w.next i s (msgs.map (.sent i)), ?_, ?_, ?_⟩
          · rw [hrun, ok_bind]
            rfl
          · exact hN.next hw.parties List.prefix_rfl hs (List.prefix_append _ _)
          · exact hw.messages.sent hN.good_mono hmsgs
        · exact hstay
      · exact hstay

/-- Every run of events comes to an end, and the invariant holds there. -/
theorem run (hN : Invariant N Local Good) (hw : Holds Local Good w) (events : List (Event ι α ρ)) :
    ∃ w', events.foldlM N.step w = .ok w' ∧ Holds Local Good w' := by
  have hevents : ∀ e ∈ events, True := fun _ _ => trivial
  exact exists_run (fun hw _ => hN.step hw _) hevents hw

end Invariant

end Network
