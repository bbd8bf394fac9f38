import BitDht.Bencode.Bounds
import BitDht.Msgs.Parse

/-!
# Packet — how `bdNodeManager` recognises its packets
-/

namespace BitDht

open Outcome

/-- `bdNodeManager::isBitDhtPacket` -/
def isBitDhtPacket (data : List UInt8) (size : Int) : Exec Nat := do
  match ← beDecoden data size with
  | none => pure 0
  | some node => do
      let beType ← beMsgType node
      pure (if beType ≠ .unknown then 1 else 0)

/-- In whatever buffer the packet `p` lies, classifying it returns 0 or 1. -/
def ClassifiesPacket (p : List UInt8) : Prop :=
  ∀ z, ∃ ans, isBitDhtPacket (p ++ z) p.length = .ok ans ∧ (ans = 0 ∨ ans = 1)

theorem isBitDhtPacket_ok_iff {data : List UInt8} {size : Int} :
    (∃ ans, isBitDhtPacket data size = .ok ans ∧ (ans = 0 ∨ ans = 1)) ↔
      ∃ n, beDecoden data size = .ok n ∧ ∀ t, n = some t → Classifiable t := by
  rcases hdec : beDecoden data size with e | n
  · simp [isBitDhtPacket, hdec]
  · cases n with
    | none =>
        simp [isBitDhtPacket, hdec]
    | some t =>
        simp only [isBitDhtPacket, hdec, ok_bind, Except.ok.injEq, exists_eq_left', forall_eq',
          ← beMsgType_ok_iff, Option.some.injEq]
        constructor
        · rintro ⟨ans, hans, _⟩
          rcases bind_eq_ok.1 hans with ⟨type, htype, _⟩
          exact ⟨type, htype⟩
        · rintro ⟨type, htype⟩
          refine ⟨_, by rw [htype]; rfl, ?_⟩
          split
          · exact .inr rfl
          · exact .inl rfl

/-- A packet is classified in every buffer exactly when it is not cut short, has no entry without a
key, and the tree it is read as, if any, can be classified. -/
theorem classifiesPacket_iff (p : List UInt8) : ClassifiesPacket p ↔
    ¬ CutShort p ∧ ¬ LostKey p ∧ ∀ t r, Loose p t r → Classifiable t := by
  constructor
  · intro h
    have hcut : ¬ CutShort p := by
      intro hcut
      -- a buffer that ends with the packet shows the fault
      rcases isBitDhtPacket_ok_iff.1 (h []) with ⟨n, hn, _⟩
      rw [List.append_nil, beDecoden_of_cutShort hcut] at hn
      cases hn
    rcases isBitDhtPacket_ok_iff.1 (h []) with ⟨n, hn, hclass⟩
    rcases beDecoden_eq_of_complete hcut [] with ⟨_, hx⟩ | ⟨hlost, t, r, ht, hx⟩ | ⟨hlost, hno, _⟩
    · rw [hx] at hn
      cases hn
    · rw [hx] at hn
      cases hn
      refine ⟨hcut, hlost, ?_⟩
      intro t' r' ht'
      -- the packet has one reading
      rw [(ht'.rest_unique ht).1]
      exact hclass t rfl
    · exact ⟨hcut, hlost, fun t r ht => absurd ht (hno t r)⟩
  · rintro ⟨hcut, hlost, hclass⟩ z
    apply isBitDhtPacket_ok_iff.2
    rcases beDecoden_eq_of_complete hcut z with ⟨hl, _⟩ | ⟨_, t, r, ht, hx⟩ | ⟨_, _, hx⟩
    · exact absurd hl hlost
    · refine ⟨some t, hx, ?_⟩
      rintro t' ⟨⟩
      exact hclass t r ht
    · exact ⟨none, hx, fun t ht => by cases ht⟩

/-- A dictionary without `y` sends `beMsgGetY` to a null node. -/
theorem not_classifiesPacket_empty_dict : ¬ ClassifiesPacket (ascii "de") := by
  intro h
  rcases h [] with ⟨ans, hans, _⟩
  have hnull : isBitDhtPacket (ascii "de" ++ []) (ascii "de").length = .error .nullNode := by
    decide +kernel
  rw [hnull] at hans
  cases hans

end BitDht
