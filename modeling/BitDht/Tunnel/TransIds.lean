import BitDht.Tunnel.Node

/-!
# TransIds — the transaction ids of one process

The objects of both classes draw their transaction ids from one counter.  A token is the counter in
decimal with leading zeros, so it gives the counter back (`setw_inj`), and the counter takes `2 ^ 64`
values before one comes again.
-/

namespace BitDht

open Decimal

/-! ## The calls -/

/-- An object of one of the two classes. -/
inductive TransIdObject
  | node (mFns : BdDhtFunctions) (s : BdNode mFns)
  | tunnelNode (s : BdTunnelNode)

/-- The call of `genNewTransId` on an object while the counter is `transIdCounter`: the token, and the
counter afterwards. -/
def TransIdObject.genNewTransId (transIdCounter : UInt64) : TransIdObject → BdToken × UInt64
  | .node _ s =>
      let (token, s) := { s with transIdCounter := transIdCounter }.genNewTransId
      (token, s.transIdCounter)
  | .tunnelNode s =>
      let (token, s) := { s with transIdCounter := transIdCounter }.genNewTransId
      (token, s.transIdCounter)

/-- One call after the other, each on an object as it is then: the tokens, and the counter
afterwards. -/
def genTransIds (transIdCounter : UInt64) : List TransIdObject → List BdToken × UInt64
  | [] => ([], transIdCounter)
  | object :: calls =>
      let (token, transIdCounter) := object.genNewTransId transIdCounter
      let (tokens, transIdCounter) := genTransIds transIdCounter calls
      (token :: tokens, transIdCounter)

/-! ## The text of a number -/

theorem value_setw (w n : Nat) : value (BdNode.setw w n) = n := by
  rw [BdNode.setw, show chr '0' = 48 from rfl, value_replicate_zero, value_ofNat]

theorem setw_inj {w m n : Nat} (h : BdNode.setw w m = BdNode.setw w n) : m = n := by
  rw [← value_setw w m, h, value_setw]

theorem le_length_setw (w n : Nat) : w ≤ (BdNode.setw w n).length := by
  rw [BdNode.setw, List.length_append, List.length_replicate]
  omega

theorem length_setw_le {w n k : Nat} (hw : w ≤ k) (hk : 0 < k) (hn : n < 10 ^ k) :
    (BdNode.setw w n).length ≤ k := by
  have hdigits : (ofNat n).length ≤ k := length_ofNat_le hk hn
  rw [BdNode.setw, List.length_append, List.length_replicate]
  omega

/-! ## One token -/

/-- What the counter prints. -/
def transIdText (transIdCounter : UInt64) : List UInt8 :=
  BdNode.setw 2 transIdCounter.toNat

/-- The greatest counter has twenty digits, which is all that a token holds. -/
theorem length_transIdText (c : UInt64) :
    2 ≤ (transIdText c).length ∧ (transIdText c).length ≤ bitdhtTokenMaxLen := by
  have hc : c.toNat < 2 ^ 64 := c.toNat_lt
  have hmax : c.toNat < 10 ^ bitdhtTokenMaxLen := hc.trans (by decide)
  exact ⟨le_length_setw 2 c.toNat, length_setw_le (by decide) (by decide) hmax⟩

theorem transIdText_inj {c c' : UInt64} (h : transIdText c = transIdText c') : c = c' :=
  UInt64.toNat_inj.1 (setw_inj h)

/-- Both classes give the whole text and move the counter by one. -/
theorem TransIdObject.genNewTransId_eq (object : TransIdObject) (c : UInt64) :
    object.genNewTransId c = (⟨transIdText c⟩, c + 1) := by
  have hwhole : (transIdText c).take bitdhtTokenMaxLen = transIdText c :=
    List.take_of_length_le (length_transIdText c).2
  cases object with
  | node mFns s =>
      exact congrArg (fun text => (BdToken.mk text, c + 1)) hwhole
  | tunnelNode s =>
      exact congrArg (fun text => (BdToken.mk text, c + 1)) hwhole

/-! ## Many tokens -/

/-- The counter in the call number `k`. -/
theorem genTransIds_eq (c : UInt64) (calls : List TransIdObject) :
    (genTransIds c calls).1 =
      (List.range calls.length).map (fun k => ⟨transIdText (c + UInt64.ofNat k)⟩) := by
  induction calls generalizing c with
  | nil =>
      rfl
  | cons object calls ih =>
      have hnext : ∀ k, c + 1 + UInt64.ofNat k = c + UInt64.ofNat (k + 1) := by
        intro k
        rw [UInt64.ofNat_add, UInt64.add_assoc, UInt64.add_comm 1]
        rfl
      calc
        (genTransIds c (object :: calls)).1
            = ⟨transIdText c⟩ :: (genTransIds (c + 1) calls).1 := by
              simp only [genTransIds, object.genNewTransId_eq]
        _ = ⟨transIdText c⟩ :: (List.range calls.length).map
              (fun k => ⟨transIdText (c + UInt64.ofNat (k + 1))⟩) := by
              simp only [ih, hnext]
        _ = (List.range (object :: calls).length).map
              (fun k => ⟨transIdText (c + UInt64.ofNat k)⟩) := by
              rw [List.length_cons, List.range_succ_eq_map, List.map_cons, List.map_map]
              simp [Function.comp_def]

/-- The counter does not come back to a value in fewer than `2 ^ 64` steps. -/
theorem counter_inj {c : UInt64} {i j : Nat} (hi : i < 2 ^ 64) (hj : j < 2 ^ 64)
    (h : c + UInt64.ofNat i = c + UInt64.ofNat j) : i = j := by
  have hnat := congrArg UInt64.toNat h
  have hc : c.toNat < 2 ^ 64 := c.toNat_lt
  rw [UInt64.toNat_add, UInt64.toNat_add, UInt64.toNat_ofNat', UInt64.toNat_ofNat'] at hnat
  omega

/-- The tokens of a run of calls are different from each other, and each is the whole text of its
counter. -/
structure TransIdsDistinct (transIdCounter : UInt64) (tokens : List BdToken) : Prop where
  nodup : tokens.Nodup
  length : ∀ token ∈ tokens, 2 ≤ token.len ∧ token.len ≤ bitdhtTokenMaxLen
  whole : ∀ (k : Nat) (hk : k < tokens.length),
    tokens[k].data = BdNode.setw 2 (transIdCounter + UInt64.ofNat k).toNat

/-- So it is for any calls, no more than the counter has values. -/
theorem genTransIds_distinct (c : UInt64) {calls : List TransIdObject}
    (h : calls.length ≤ 2 ^ 64) : (genTransIds c calls).1.length = calls.length ∧
      TransIdsDistinct c (genTransIds c calls).1 := by
  rw [genTransIds_eq]
  refine ⟨by simp, ?_, ?_, ?_⟩
  · -- equal tokens have equal counters
    refine List.Nodup.map_on ?_ List.nodup_range
    intro i hi j hj heq
    rw [List.mem_range] at hi hj
    rw [BdToken.mk.injEq] at heq
    exact counter_inj (hi.trans_le h) (hj.trans_le h) (transIdText_inj heq)
  · intro token htoken
    rcases List.mem_map.1 htoken with ⟨k, -, rfl⟩
    exact length_transIdText (c + UInt64.ofNat k)
  · intro k hk
    rw [List.getElem_map, List.getElem_range]
    rfl

/-- Three calls of both classes around the wrap of the counter. -/
theorem genTransIds_distinct_wrap :
    let tunnelNode : TransIdObject := .tunnelNode (BdTunnelNode.new bdZeroNodeId)
    let node : TransIdObject :=
      .node bdStdDht (BdNode.new bdZeroNodeId [] [] (fun _ => 0))
    let tokens := (genTransIds 18446744073709551614 [tunnelNode, node, tunnelNode]).1
    tokens.length = 3 ∧ TransIdsDistinct 18446744073709551614 tokens :=
  genTransIds_distinct 18446744073709551614 (by decide)

end BitDht
