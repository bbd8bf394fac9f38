import BitDht.Bencode.Grammar
import Mathlib.Logic.Relation

/-!
# Visits — the points that a run of the decoder comes to

A run goes from a call of `_be_decode` to the loop of a container, from the head of a loop into the
call for an entry, and behind a finished entry back to the head of the loop (`Enters`).  It runs into a
slot that was never assigned exactly if it comes by a dictionary entry that has lost its key
(`decodes_unassigned_iff`), and on its way the pointer only moves forward (`Visits.advance`).
-/

namespace BitDht

open Decimal Outcome Relation

/-- The next point that a run comes to: a call of `_be_decode` or the head of a loop. -/
inductive Enters : Goal × Cursor → Goal × Cursor → Prop
  | list {bs : List UInt8} {n : Int} (hn : n ≠ 0) :
      Enters (.node, ⟨chr 'l' :: bs, n⟩) (.list [], ⟨bs, n - 1⟩)
  | dict {bs : List UInt8} {n : Int} (hn : n ≠ 0) :
      Enters (.node, ⟨chr 'd' :: bs, n⟩) (.dict [], ⟨bs, n - 1⟩)
  | item {l : List BeNode} {b : UInt8} {bs : List UInt8} {n : Int} (hb : b ≠ chr 'e') :
      Enters (.list l, ⟨b :: bs, n⟩) (.node, ⟨b :: bs, n⟩)
  | next {l : List BeNode} {b : UInt8} {bs : List UInt8} {n : Int} {c : Cursor} {t : BeNode}
      (hb : b ≠ chr 'e') (ht : Decodes .node ⟨b :: bs, n⟩ (.ok (some t, c))) :
      Enters (.list l, ⟨b :: bs, n⟩) (.list (l ++ [t]), c)
  /-- the value is read whether or not the key was -/
  | val {d : List (List UInt8 × BeNode)} {b : UInt8} {bs : List UInt8} {n : Int}
      {k : Option (List UInt8)} {c : Cursor} (hb : b ≠ chr 'e')
      (hk : beDecodeStr ⟨b :: bs, n⟩ = .ok (k, c)) :
      Enters (.dict d, ⟨b :: bs, n⟩) (.node, c)
  | nextPair {d : List (List UInt8 × BeNode)} {b : UInt8} {bs : List UInt8} {n : Int}
      {k : List UInt8} {c c' : Cursor} {t : BeNode} (hb : b ≠ chr 'e')
      (hk : beDecodeStr ⟨b :: bs, n⟩ = .ok (some k, c))
      (ht : Decodes .node c (.ok (some t, c'))) :
      Enters (.dict d, ⟨b :: bs, n⟩) (.dict (d ++ [(k, t)]), c')

/-- The run from the one point comes to the other. -/
abbrev Visits : Goal × Cursor → Goal × Cursor → Prop :=
  ReflTransGen Enters

/-- What goes back over each step goes back over a run, for points at `start s`. -/
theorem Visits.back {P : Goal × Cursor → List UInt8 → Prop} {start : List UInt8 → Cursor}
    (hback : ∀ {p q}, Enters p q → ∀ {s}, p.2 = start s →
      ∃ s', q.2 = start s' ∧ (P q s' → P p s))
    {p q : Goal × Cursor} (h : Visits p q) (hq : ∀ {s}, q.2 = start s → P q s) {s : List UInt8}
    (hp : p.2 = start s) : P p s := by
  induction h using ReflTransGen.head_induction_on generalizing s with
  | refl =>
      exact hq hp
  | head hstep _ ih =>
      rcases hback hstep hp with ⟨s', hs', hP⟩
      exact hP (ih hs')

/-! ## Faults -/

/-- At this point the run is stopped by the fault. -/
inductive StopsAt : Goal × Cursor → Fault → Prop
  | past {n : Int} (hn : n ≠ 0) : StopsAt (.node, ⟨[], n⟩) .overread
  | int {bs : List UInt8} {n : Int} {e : Fault} (hn : n ≠ 0)
      (hi : beDecodeInt ⟨bs, n - 1⟩ = .error e) : StopsAt (.node, ⟨chr 'i' :: bs, n⟩) e
  | str {b : UInt8} {bs : List UInt8} {n : Int} {e : Fault} (hb : isDigit b = true)
      (hs : beDecodeStr ⟨b :: bs, n⟩ = .error e) : StopsAt (.node, ⟨b :: bs, n⟩) e
  | listPast {l : List BeNode} {n : Int} : StopsAt (.list l, ⟨[], n⟩) .overread
  | dictPast {d : List (List UInt8 × BeNode)} {n : Int} : StopsAt (.dict d, ⟨[], n⟩) .overread
  | key {d : List (List UInt8 × BeNode)} {b : UInt8} {bs : List UInt8} {n : Int} {e : Fault}
      (hb : b ≠ chr 'e') (hk : beDecodeStr ⟨b :: bs, n⟩ = .error e) :
      StopsAt (.dict d, ⟨b :: bs, n⟩) e
  /-- the value was read and the key was not -/
  | lost {d : List (List UInt8 × BeNode)} {b : UInt8} {bs : List UInt8} {n : Int}
      {t : BeNode} {c c' : Cursor} (hb : b ≠ chr 'e')
      (hk : beDecodeStr ⟨b :: bs, n⟩ = .ok (none, c)) (ht : Decodes .node c (.ok (some t, c'))) :
      StopsAt (.dict d, ⟨b :: bs, n⟩) .unassigned

/-- A run that ends in a fault comes by the point where it is stopped. -/
theorem Decodes.stops {g : Goal} {c : Cursor} {r : DecodeResult} (h : Decodes g c r) {e : Fault}
    (hr : r = .error e) : ∃ p, Visits (g, c) p ∧ StopsAt p e := by
  induction h with
  | noData bs =>
      cases hr
  | past hn =>
      cases hr
      exact ⟨_, .refl, .past hn⟩
  | list hn _ ih =>
      rcases ih hr with ⟨p, hp, hstop⟩
      exact ⟨p, hp.head (.list hn), hstop⟩
  | dict hn _ ih =>
      rcases ih hr with ⟨p, hp, hstop⟩
      exact ⟨p, hp.head (.dict hn), hstop⟩
  | int hn hi =>
      cases hr
  | intBad hn hi hb =>
      cases hr
  | intFault hn hi =>
      cases hr
      exact ⟨_, .refl, .int hn hi⟩
  | str hn hb hs =>
      cases hr
  | strFault hn hb hs =>
      cases hr
      exact ⟨_, .refl, .str hb hs⟩
  | invalid hn hl hd hi hb =>
      cases hr
  | listPast =>
      cases hr
      exact ⟨_, .refl, .listPast⟩
  | listDone =>
      cases hr
  | listFault hb _ ih =>
      cases hr
      rcases ih rfl with ⟨p, hp, hstop⟩
      exact ⟨p, hp.head (.item hb), hstop⟩
  | listKill hb _ _ =>
      cases hr
  | listNext hb ht _ _ ih =>
      rcases ih hr with ⟨p, hp, hstop⟩
      exact ⟨p, hp.head (.next hb ht), hstop⟩
  | dictPast =>
      cases hr
      exact ⟨_, .refl, .dictPast⟩
  | dictDone =>
      cases hr
  | dictKeyFault hb hk =>
      cases hr
      exact ⟨_, .refl, .key hb hk⟩
  | dictFault hb hk _ ih =>
      cases hr
      rcases ih rfl with ⟨p, hp, hstop⟩
      exact ⟨p, hp.head (.val hb hk), hstop⟩
  | dictKill hb hk _ _ =>
      cases hr
  | dictLost hb hk ht _ =>
      cases hr
      exact ⟨_, .refl, .lost hb hk ht⟩
  | dictNext hb hk ht _ _ ih =>
      rcases ih hr with ⟨p, hp, hstop⟩
      exact ⟨p, hp.head (.nextPair hb hk ht), hstop⟩

/-- The decoder runs off its buffer or into a slot that was never assigned, and fails in no other way. -/
theorem beDecoden_error {data : List UInt8} {len : Int} {e : Fault}
    (h : beDecoden data len = .error e) : e = .overread ∨ e = .unassigned := by
  have hrun : Decodes .node ⟨data, len⟩ (beDecodenAt data len) := beDecodenAt_eq_iff.1 rfl
  have hres : beDecodenAt data len = .error e := by
    rw [beDecoden] at h
    rcases hat : beDecodenAt data len with e' | ⟨t, c⟩
    · rw [hat] at h
      cases h
      rfl
    · rw [hat] at h
      cases h
  rcases hrun.stops hres with ⟨p, _, hstop⟩
  cases hstop with
  | past | listPast | dictPast => exact .inl rfl
  | int _ hi => exact .inl (beDecodeInt_error hi)
  | str _ hs => exact .inl (beDecodeStr_error hs)
  | key _ hk => exact .inl (beDecodeStr_error hk)
  | lost => exact .inr rfl

/-! ## Lost entries -/

/-- At the head of a loop the value of a dictionary entry is read although its key was not. -/
inductive LostAt : Goal × Cursor → Prop
  | dict {d : List (List UInt8 × BeNode)} {b : UInt8} {bs : List UInt8} {n : Int}
      {t : BeNode} {c c' : Cursor} (hb : b ≠ chr 'e')
      (hk : beDecodeStr ⟨b :: bs, n⟩ = .ok (none, c)) (ht : Decodes .node c (.ok (some t, c'))) :
      LostAt (.dict d, ⟨b :: bs, n⟩)

/-- A run is stopped by what stops it later. -/
theorem Enters.fault {p q : Goal × Cursor} (h : Enters p q) {e : Fault}
    (hq : Decodes q.1 q.2 (.error e)) : Decodes p.1 p.2 (.error e) := by
  cases h with
  | list hn =>
      exact .list hn hq
  | dict hn =>
      exact .dict hn hq
  | item hb =>
      exact .listFault hb hq
  | next hb ht =>
      exact .listNext hb ht hq
  | val hb hk =>
      exact .dictFault hb hk hq
  | nextPair hb hk ht =>
      exact .dictNext hb hk ht hq

/-- Only this fault is not one of reading past the buffer. -/
theorem StopsAt.lostAt {p : Goal × Cursor} (h : StopsAt p .unassigned) : LostAt p := by
  cases h with
  | int hn hi =>
      cases beDecodeInt_error hi
  | str hb hs =>
      cases beDecodeStr_error hs
  | key hb hk =>
      cases beDecodeStr_error hk
  | lost hb hk ht =>
      exact .dict hb hk ht

/-- The packet leads the decoder to an entry without a key. -/
def LostEntry (data : List UInt8) (len : Int) : Prop :=
  ∃ p, Visits (.node, ⟨data, len⟩) p ∧ LostAt p

/-- The decoder runs into the slot that was never assigned exactly on these packets. -/
theorem decodes_unassigned_iff {data : List UInt8} {len : Int} :
    Decodes .node ⟨data, len⟩ (.error .unassigned) ↔ LostEntry data len := by
  constructor
  · intro h
    rcases h.stops rfl with ⟨p, hp, hstop⟩
    exact ⟨p, hp, hstop.lostAt⟩
  · rintro ⟨p, hp, hlost⟩
    have hstop : Decodes p.1 p.2 (.error .unassigned) := by
      cases hlost with
      | dict hb hk ht =>
          exact .dictLost hb hk ht
    clear hlost
    induction hp with
    | refl =>
        exact hstop
    | tail _ hstep ih =>
        exact ih (hstep.fault hstop)

/-! ## The pointer and the remaining length -/

theorem Enters.advance {p q : Goal × Cursor} (h : Enters p q) : Advance p.2 q.2 := by
  cases h with
  | list hn =>
      exact .cons _ _ _
  | dict hn =>
      exact .cons _ _ _
  | item hb =>
      exact .refl _
  | next hb ht =>
      exact (ht.advance rfl).1
  | val hb hk =>
      exact beDecodeStr_advance hk
  | nextPair hb hk ht =>
      exact (beDecodeStr_advance hk).trans (ht.advance rfl).1

theorem Visits.advance {p q : Goal × Cursor} (h : Visits p q) : Advance p.2 q.2 := by
  induction h with
  | refl =>
      exact .refl _
  | tail _ hstep ih =>
      exact ih.trans hstep.advance

end BitDht
