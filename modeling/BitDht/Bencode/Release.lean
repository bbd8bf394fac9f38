import BitDht.Bencode.Bounds

/-!
# Release — giving up a container

A container whose entry fails is given to `be_free` as far as it has come.  Its array is terminated
unless the entry has lost its key (`freedArrays_terminated_iff`), and the same entries are what keeps
`be_decoden` from coming to its end on a packet with a NUL behind it (`beDecoden_orderly_iff`).
-/

namespace BitDht

open Decimal Outcome

/-! ## The arrays that are given to `be_free` -/

/-- At the head of a loop the entry fails and the container is given to `be_free` with this array. -/
inductive FreesAt : Goal × Cursor → List (Slot BeNode) → Prop
  | list {l : List BeNode} {b : UInt8} {bs : List UInt8} {n : Int} {c : Cursor} (hb : b ≠ chr 'e')
      (ht : Decodes .node ⟨b :: bs, n⟩ (.ok (none, c))) :
      FreesAt (.list l, ⟨b :: bs, n⟩) (killedEntries l none)
  | dict {d : List (List UInt8 × BeNode)} {b : UInt8} {bs : List UInt8} {n : Int}
      {key : Option (List UInt8)} {val : Option BeNode} {c c' : Cursor} (hb : b ≠ chr 'e')
      (hk : beDecodeStr ⟨b :: bs, n⟩ = .ok (key, c)) (ht : Decodes .node c (.ok (val, c')))
      (hfail : key = none ∨ val = none) :
      FreesAt (.dict d, ⟨b :: bs, n⟩) (killedEntries (d.map Prod.snd) val)

/-- The scan of the array finds its end unless the entry has lost its key. -/
theorem freesAt_terminated_iff {p : Goal × Cursor} :
    (∀ slots, FreesAt p slots → beFreeEntries slots = .ok ()) ↔ ¬ LostAt p := by
  constructor
  · rintro hall ⟨hb, hk, ht⟩
    have hfree := hall _ (.dict hb hk ht (.inl rfl))
    rw [beFreeEntries_killed, if_neg (by simp)] at hfree
    cases hfree
  · intro hlost slots hfrees
    cases hfrees with
    | list hb ht =>
        rw [beFreeEntries_killed, if_pos rfl]
    | @dict d b bs n key val c c' hb hk ht hfail =>
        rw [beFreeEntries_killed]
        cases val with
        | none =>
            rw [if_pos rfl]
        | some t =>
            have hkey : key = none := hfail.resolve_right (by simp)
            rw [hkey] at hk
            exact absurd (.dict hb hk ht) hlost

theorem lostEntry_nul_iff (s : List UInt8) : LostEntry (s ++ [0]) s.length ↔ LostKey s := by
  rw [← decodes_unassigned_iff]
  constructor
  · intro h
    exact h.lost rfl rfl
  · exact LostKey.decodes

/-- On a packet that is not cut short it makes no difference what follows it. -/
theorem lostEntry_append_iff {p : List UInt8} (h : ¬ CutShort p) (z : List UInt8) :
    LostEntry (p ++ z) p.length ↔ LostKey p := by
  have hend : ∀ z, LostEntry (p ++ z) p.length ↔
      beDecodenAt p p.length = .error .unassigned := by
    intro z
    rw [← decodes_unassigned_iff, ← beDecodenAt_eq_iff, beDecodenAt_append h]
    rcases beDecodenAt p p.length with e | ⟨t, c⟩
    · rfl
    · exact iff_of_false (by simp [extendResult]) (by simp)
  rw [hend z, ← hend [0], lostEntry_nul_iff]

/-- Every array that is given to `be_free` is terminated if and only if no entry has lost its key.  Where
the packet ends in a NUL or is not cut short, its own bytes say whether one has. -/
theorem freedArrays_terminated_iff (data : List UInt8) (len : Int) :
    ((∀ p slots, Visits (.node, ⟨data, len⟩) p → FreesAt p slots → beFreeEntries slots = .ok ()) ↔
      ¬ LostEntry data len) ∧
    (∀ s : List UInt8, data = s ++ [0] → len = s.length → (LostEntry data len ↔ LostKey s)) ∧
    ∀ p z : List UInt8, data = p ++ z → len = p.length → ¬ CutShort p →
      (LostEntry data len ↔ LostKey p) := by
  refine ⟨?_, ?_, ?_⟩
  · constructor
    · rintro hall ⟨p, hp, hlost⟩
      exact freesAt_terminated_iff.1 (fun slots => hall p slots hp) hlost
    · intro hlost p slots hp
      exact freesAt_terminated_iff.2 (fun hat => hlost ⟨p, hp, hat⟩) slots
  · rintro s rfl rfl
    exact lostEntry_nul_iff s
  · rintro p z rfl rfl hcut
    exact lostEntry_append_iff hcut z

/-- The number takes the place of the key and is read as the value, too. -/
theorem freedArrays_int :
    ∃ p slots, Visits (.node, ⟨ascii "di5ee" ++ [0], 5⟩) p ∧ FreesAt p slots ∧
      beFreeEntries slots = .error .unassigned := by
  have hkey : beDecodeStr ⟨ascii "i5ee" ++ [0], 4⟩ = .ok (none, ⟨ascii "i5ee" ++ [0], 4⟩) := by
    rfl
  have hval : Decodes .node ⟨ascii "i5ee" ++ [0], 4⟩ (.ok (some (.int 5), ⟨ascii "e" ++ [0], 1⟩)) :=
    beDecodenAt_eq_iff.1 rfl
  exact ⟨_, _, .single (.dict (by decide)), .dict (by decide) hkey hval (.inl rfl), rfl⟩

/-! ## Runs over a packet and a NUL -/

/-- The NUL behind the packet is never consumed. -/
theorem Visits.nul {p q : Goal × Cursor} (h : Visits p q) {s : List UInt8}
    (hp : p.2 = nulCursor s) : ∃ s', q.2 = nulCursor s' := by
  induction h with
  | refl =>
      exact ⟨s, hp⟩
  | tail _ hstep ih =>
      rcases ih with ⟨s', hs'⟩
      rcases hstep.lost hs' with ⟨s'', hs'', -⟩
      exact ⟨s'', hs''⟩

/-- At each call of `_be_decode` in the run over `s` and a NUL the remaining length is the length of `s`
less the bytes consumed, and the call consumes a byte if it returns a node. -/
structure CallsInStep (s : List UInt8) : Prop where
  remaining : ∀ c, Visits (.node, nulCursor s) (.node, c) → c.data <:+ s ++ [0] ∧
    0 ≤ c.dataLen ∧ c.dataLen ≤ s.length ∧
    c.dataLen = s.length - ((s ++ [0]).length - c.data.length : Int)
  progress : ∀ c t c', Visits (.node, nulCursor s) (.node, c) →
    Decodes .node c (.ok (some t, c')) → c'.data.length < c.data.length

theorem callsInStep (s : List UInt8) : CallsInStep s := by
  constructor
  · intro c hc
    have hadv := hc.advance
    have hlen := hadv.dataLen
    have hle := hadv.length_le
    rcases hc.nul rfl with ⟨s', hs'⟩
    dsimp only at hs' hlen hle
    subst hs'
    have hnul : ((nulCursor s').data.length : Int) = s'.length + 1 := by
      simp [nulCursor]
    have hstart : (nulCursor s).data = s ++ [0] ∧ (nulCursor s).dataLen = s.length := ⟨rfl, rfl⟩
    have hrest : (nulCursor s').dataLen = s'.length := rfl
    rw [hstart.1] at hlen hle
    rw [hstart.2] at hlen
    simp only [List.length_append, List.length_singleton] at hlen hle ⊢
    refine ⟨hadv.data, ?_, ?_, ?_⟩
    · omega
    · omega
    · omega
  · intro c t c' _ ht
    exact (ht.advance rfl).2 (by simp)

/-- `be_decoden` on `s` and a NUL comes to its end inside them, with its calls in step. -/
structure Orderly (s : List UInt8) : Prop extends CallsInStep s where
  returns : ∃ t, beDecoden (s ++ [0]) s.length = .ok t

/-- The two ways in which a run over `s` and a NUL ends. -/
theorem beDecoden_nul_cases (s : List UInt8) :
    (LostKey s ∧ beDecoden (s ++ [0]) s.length = .error .unassigned) ∨
      (¬ LostKey s ∧ ∃ t, beDecoden (s ++ [0]) s.length = .ok t) := by
  have hrun : Decodes .node (nulCursor s) (beDecodenAt (s ++ [0]) s.length) :=
    beDecodenAt_eq_iff.1 rfl
  by_cases hlost : LostKey s
  · exact .inl ⟨hlost, beDecoden_of_lostKey hlost⟩
  · refine .inr ⟨hlost, ?_⟩
    rcases hrun.nul rfl with h | ⟨s', h⟩ | ⟨t, s', h, -⟩
    · rw [h] at hrun
      exact absurd (hrun.lost rfl rfl) hlost
    · exact ⟨none, by rw [beDecoden, h]; rfl⟩
    · exact ⟨some t, by rw [beDecoden, h]; rfl⟩

/-- The calls are always in step, and the run neither passes the NUL nor goes on for ever.  It comes to
its end if and only if no entry has lost its key. -/
theorem beDecoden_orderly_iff (s : List UInt8) :
    (Orderly s ↔ ¬ LostKey s) ∧ CallsInStep s ∧
      beDecoden (s ++ [0]) s.length ≠ .error .overread ∧
      beDecoden (s ++ [0]) s.length ≠ .error .outOfFuel := by
  rcases beDecoden_nul_cases s with ⟨hlost, hstop⟩ | ⟨hlost, t, hret⟩
  · rw [hstop]
    refine ⟨iff_of_false ?_ (not_not.2 hlost), callsInStep s, by simp, by simp⟩
    intro h
    rcases h.returns with ⟨t, ht⟩
    rw [hstop] at ht
    cases ht
  · rw [hret]
    exact ⟨iff_of_true { callsInStep s with returns := ⟨t, hret⟩ } hlost, callsInStep s, by simp,
      by simp⟩

/-- The value is read without its key, and the run goes on into the slot behind it. -/
theorem not_orderly_int : ¬ Orderly (ascii "di5ee") := by
  intro h
  rcases h.returns with ⟨t, ht⟩
  have hstop : beDecoden (ascii "di5ee" ++ [0]) (ascii "di5ee").length = .error .unassigned := by
    rfl
  rw [hstop] at ht
  cases ht

end BitDht
