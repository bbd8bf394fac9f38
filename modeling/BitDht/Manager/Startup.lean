import BitDht.Manager.Sources

/-!
# Startup — a manager that has not found enough peers

A manager looks for no id of its user before its table has more than twenty peers.  Until then it goes round
from `STARTUP` over `FINDSELF` and `FAILED`, calls nobody back and has no address to hand out (`Waiting`).
Only an iteration that finds the table large enough ends this (`run_startup`).
-/

namespace BitDht

open Container Outcome

variable {mFns : BdDhtFunctions}

namespace BdNodeManager

/-- No id is looked for yet, and nobody has been called back. -/
structure Waiting (c : BdNodeManager mFns) : Prop where
  mode : c.mMode = .off ∨ c.mMode = .startup ∨ c.mMode = .findself ∨ c.mMode = .failed
  ready : ∀ e ∈ c.mActivePeers.entries, e.2.mStatus = .ready
  callbacks : c.peerCallbacks = []

/-- An iteration would find enough peers in the table. -/
def Ripe (c : BdNodeManager mFns) (now : Int) : Prop :=
  c.mMode = .findself ∧ (c.mNodeSpace.calcSpaceSize > transitionOpSpaceSize ∨
    now - c.mModeTS > maxFindselfTime ∧ c.mNodeSpace.calcSpaceSize > minOpSpaceSize)

namespace Waiting

variable {c c' : BdNodeManager mFns}

theorem new (id : BdNodeId) (dhtVersion : List UInt8) (store whiteNodes : List BdPeer)
    (rand : Nat → UInt32) :
    Waiting (BdNodeManager.new id dhtVersion store whiteNodes rand : BdNodeManager mFns) where
  mode := .inl rfl
  ready := fun _ he => absurd he List.not_mem_nil
  callbacks := rfl

theorem getDhtPeerAddress (h : c.Waiting) (id : BdNodeId) : c.getDhtPeerAddress id = none := by
  rw [BdNodeManager.getDhtPeerAddress]
  split
  · rfl
  · rename_i peer hfind
    rw [h.ready (id, peer) (OrdMap.mem_entries_iff.2 hfind)]
    rfl

theorem stopDht (h : c.Waiting) (now : Int) : Waiting (c.stopDht now) where
  mode := .inl rfl
  ready := by
    intro e he
    rcases List.mem_map.1 he with ⟨_, _, rfl⟩
    rfl
  callbacks := h.callbacks

theorem startDht (h : c.Waiting) (now : Int) (store whiteNodes : List BdPeer) :
    Waiting (c.startDht now store whiteNodes) :=
  ⟨.inr (.inl rfl), h.ready, h.callbacks⟩

/-- The switch stays within the four modes if the table is too small. -/
theorem changeMode (h : c.Waiting) {now : Int} (hripe : ¬ c.Ripe now) (store whiteNodes : List BdPeer) :
    Waiting (c.changeMode now store whiteNodes) := by
  rcases h.mode with hmode | hmode | hmode | hmode
  · rw [BdNodeManager.changeMode, hmode]
    exact h
  · rw [BdNodeManager.changeMode, hmode]
    dsimp only
    split_ifs
    · exact ⟨.inr (.inr (.inl rfl)), h.ready, h.callbacks⟩
    · exact h
  · rw [Ripe, not_and, not_or, not_and] at hripe
    rcases hripe hmode with ⟨htransition, hmin⟩
    rw [BdNodeManager.changeMode, hmode]
    dsimp only
    rw [if_neg htransition]
    split_ifs with hage hsize
    · exact absurd hsize (hmin hage)
    · exact ⟨.inr (.inr (.inr rfl)), h.ready, h.callbacks⟩
    · exact h
  · rw [BdNodeManager.changeMode, hmode]
    exact (h.stopDht now).startDht now store whiteNodes

theorem request (h : c.Waiting) {now : Int} {op : ManagerOp} (hop : op.IsRequest)
    (hstep : managerStep c (now, op) = .ok c') : Waiting c' := by
  cases op with
  | startDht store whiteNodes =>
      cases hstep
      exact h.startDht now store whiteNodes
  | stopDht =>
      cases hstep
      exact h.stopDht now
  | addFindNode id qflags sinFamily =>
      cases hstep
      rw [BdNodeManager.addFindNode]
      split
      · exact h
      · refine ⟨h.mode, ?_, h.callbacks⟩
        intro e he
        rcases OrdMap.mem_entries_assign he with rfl | hold
        · rfl
        · exact h.ready e hold
  | removeFindNode id =>
      cases hstep
      rw [BdNodeManager.removeFindNode]
      split
      · exact h
      · exact ⟨h.mode, fun e he => h.ready e (List.mem_of_mem_filter he), h.callbacks⟩
  | removeAllFindNode =>
      cases hstep
      rw [removeAllFindNode_eq]
      exact ⟨h.mode, fun _ he => absurd he List.not_mem_nil, h.callbacks⟩
  | addCallback cb =>
      cases hstep
      rw [BdNodeManager.addCallback]
      split_ifs
      · exact h
      · exact ⟨h.mode, h.ready, h.callbacks⟩
  | removeCallback cb =>
      cases hstep
      exact ⟨h.mode, h.ready, h.callbacks⟩
  | incomingMsg | outgoingMsg | iteration => exact hop.elim

theorem iterationOn (h : c.Waiting) {word : Nat → UInt32} {now : Int} {store whiteNodes : List BdPeer}
    {env : IterEnv} (hripe : ¬ c.Ripe now)
    (hrun : c.iterationOn word now store whiteNodes env = .ok c') : Waiting c' := by
  have hmode := h.changeMode hripe store whiteNodes
  rw [(BdNodeManager.iterationOn_ok hrun).1]
  exact ⟨hmode.mode, hmode.ready, hmode.callbacks⟩

end Waiting

/-! ## Runs -/

/-- An iteration finds the table large enough. -/
def EndsWaiting (c : BdNodeManager mFns) : (Nat → UInt32) × Int × ManagerOp → Prop
  | (_, now, .iteration ..) => c.Ripe now
  | _ => False

theorem Waiting.step {c c' : BdNodeManager mFns} {op : (Nat → UInt32) × Int × ManagerOp}
    (h : c.Waiting) (hop : ¬ c.EndsWaiting op) (hstep : managerStepOn c op = .ok c') : Waiting c' := by
  rcases op with ⟨word, now, op⟩
  by_cases hrequest : op.IsRequest
  · rw [managerStepOn_request c word now hrequest] at hstep
    exact h.request hrequest hstep
  · cases op with
    | iteration store whiteNodes env => exact h.iterationOn hop hstep
    | incomingMsg addr msg =>
        cases hstep
        exact ⟨h.mode, h.ready, h.callbacks⟩
    | outgoingMsg =>
        cases hstep
        exact ⟨h.mode, h.ready, h.callbacks⟩
    | startDht | stopDht | addFindNode | removeFindNode | removeAllFindNode | addCallback
    | removeCallback => exact absurd trivial hrequest

/-- In every run either nobody is called back and no address is handed out, or an iteration in `FINDSELF`
has found more than a hundred peers in the table, or more than twenty after a minute. -/
theorem run_startup {id : BdNodeId} {dhtVersion : List UInt8} {store whiteNodes : List BdPeer}
    {rand : Nat → UInt32} {ops : List ((Nat → UInt32) × Int × ManagerOp)} {c : BdNodeManager mFns}
    (hrun : ops.foldlM managerStepOn
      (BdNodeManager.new id dhtVersion store whiteNodes rand : BdNodeManager mFns) = .ok c) :
    (c.peerCallbacks = [] ∧ ∀ id, c.getDhtPeerAddress id = none) ∨
      ∃ pre op post, ∃ c₁ : BdNodeManager mFns, ops = pre ++ op :: post ∧
        pre.foldlM managerStepOn
          (BdNodeManager.new id dhtVersion store whiteNodes rand : BdNodeManager mFns) = .ok c₁ ∧
        c₁.EndsWaiting op := by
  by_cases hguard : Guarded managerStepOn (fun c op => ¬ c.EndsWaiting op)
      (BdNodeManager.new id dhtVersion store whiteNodes rand : BdNodeManager mFns) ops
  · have hstep : ∀ {c : BdNodeManager mFns} {op} {c'}, c.Waiting → ¬ c.EndsWaiting op →
        managerStepOn c op = .ok c' → c'.Waiting := fun h hop hop' => h.step hop hop'
    have hwaiting := hguard.inv @hstep (Waiting.new id dhtVersion store whiteNodes rand) hrun
    exact .inl ⟨hwaiting.callbacks, hwaiting.getDhtPeerAddress⟩
  · simp only [Guarded, not_forall, not_not] at hguard
    rcases hguard with ⟨pre, op, post, c₁, hsplit, hc₁, hripe⟩
    exact .inr ⟨pre, op, post, c₁, hsplit, hc₁, hripe⟩

/-- A callback is called, as an iteration has found 21 peers after a minute. -/
theorem run_startup_search : ∃ c, searchRun.foldlM managerStepOn searchStart = .ok c ∧
    c.peerCallbacks ≠ [] ∧
    ∃ pre op post, ∃ c₁ : BdNodeManager bdStdDht, searchRun = pre ++ op :: post ∧
      pre.foldlM managerStepOn searchStart = .ok c₁ ∧ c₁.EndsWaiting op := by
  rcases searchRun_calls with ⟨c, hc, hcalled⟩
  rcases run_startup hc with ⟨hnil, _⟩ | hends
  · exact absurd hnil hcalled
  · exact ⟨c, hc, hcalled, hends⟩

end BdNodeManager

end BitDht
