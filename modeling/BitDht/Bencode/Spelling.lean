import BitDht.Bencode.Release

/-!
# Spelling — where the decoder leaves the format

The decoder reads packets that the format does not know: integers and key lengths in any spelling
that `strtoll` takes, and strings whose bytes are not there.  `Misspelt` finds such a place in a
reading.  The decoder keeps to the format exactly where there is none and no dictionary entry has lost
its key (`acceptsFormat_iff`).
-/

namespace BitDht

open Decimal Outcome

/-! ## Misspelt packets -/

mutual

/-- The packet `s` has a loose reading up to `r` with something in it that the format spells in
another way or not at all: an integer that is not the plain text of its value, a string whose bytes
are not there, or a key that starts with blanks or a sign. -/
inductive Misspelt : List UInt8 → List UInt8 → Prop
  | int {s r : List UInt8} (h : (number s).2 = chr 'e' :: r)
      (hs : s ≠ ofInt (number s).1 ++ chr 'e' :: r) : Misspelt (chr 'i' :: s) r
  | str {b : UInt8} {s : List UInt8} (hb : isDigit b = true) (hs : (text (b :: s)).1 = none) :
      Misspelt (b :: s) (text (b :: s)).2
  | list {s r : List UInt8} : MisspeltItems s r → Misspelt (chr 'l' :: s) r
  | dict {s r : List UInt8} : MisspeltPairs s r → Misspelt (chr 'd' :: s) r

inductive MisspeltItems : List UInt8 → List UInt8 → Prop
  | item {s s' r : List UInt8} {l : List BeNode} : Misspelt s s' → LooseItems s' l r →
      MisspeltItems s r
  | next {s s' r : List UInt8} {t : BeNode} : Loose s t s' → MisspeltItems s' r →
      MisspeltItems s r

inductive MisspeltPairs : List UInt8 → List UInt8 → Prop
  | key {b : UInt8} {s s' s'' r k : List UInt8} {t : BeNode} {d : List (List UInt8 × BeNode)}
      (hb : isDigit b = false) (hk : text (b :: s) = (some k, s')) : Loose s' t s'' →
      LoosePairs s'' d r → MisspeltPairs (b :: s) r
  | val {s s' s'' r k : List UInt8} {d : List (List UInt8 × BeNode)}
      (hk : text s = (some k, s')) : Misspelt s' s'' → LoosePairs s'' d r → MisspeltPairs s r
  | next {s s' s'' r k : List UInt8} {t : BeNode} (hk : text s = (some k, s')) :
      Loose s' t s'' → MisspeltPairs s'' r → MisspeltPairs s r

end

-- an integer without digits, and a string without its bytes
example : Misspelt (ascii "ie") [] := .int rfl (by decide)
example : Misspelt (ascii "5") [] := .str (by decide) (by decide)

/-! ## A reading is spelled or misspelt -/

theorem number_mem (s : List UInt8) : llongMin ≤ (number s).1 ∧ (number s).1 ≤ llongMax := by
  simp only [number]
  split
  · simp [llongMin, llongMax]
  · simp only [clampLL, llongMin, llongMax]
    omega

/-- A string that starts with a digit and has its bytes is spelled as the format spells it. -/
theorem text_bencoded {b : UInt8} {s k r : List UInt8} (hb : isDigit b = true)
    (h : text (b :: s) = (some k, r)) (hmax : ((b :: s).length : Int) ≤ llongMax) :
    ∃ u, b :: s = u ++ r ∧ BencodedString u k := by
  have hnum := number_of_isDigit hb s
  have hcat : s.takeWhile isDigit ++ s.dropWhile isDigit = s := List.takeWhile_append_dropWhile
  rw [text, hnum] at h
  cases hrest : s.dropWhile isDigit with
  | nil =>
      simp [hrest] at h
  | cons c cs =>
      simp only [hrest] at h
      split at h
      · rename_i hcond
        rcases hcond with ⟨hc, hlo, hhi⟩
        cases h
        have hlen := congrArg List.length hcat
        rw [hrest, List.length_append, List.length_cons] at hlen
        rw [List.length_cons] at hmax
        -- the bytes are there, so the number was not cut down to `long long`
        have hval : clampLL (value (b :: s.takeWhile isDigit)) =
            (value (b :: s.takeWhile isDigit) : Int) := by
          simp only [clampLL, llongMin, llongMax] at hhi hmax ⊢
          omega
        rw [hval] at hhi ⊢
        rw [Int.toNat_natCast]
        refine ⟨(b :: s.takeWhile isDigit) ++ chr ':' :: cs.take _, ?_, .mk (by simp) ?_ ?_⟩
        · simp only [List.append_assoc, List.cons_append, List.take_append_drop]
          rw [← hc, ← hrest, hcat]
        · intro x hx
          rcases List.mem_cons.1 hx with rfl | hx
          · exact hb
          · exact List.mem_takeWhile_imp hx
        · rw [List.length_take]
          omega
      · cases h

mutual

/-- A reading is the text of its tree, or something in it is misspelt. -/
theorem Loose.spelled {s r : List UInt8} {t : BeNode} :
    Loose s t r → (s.length : Int) ≤ llongMax →
      (∃ w, s = w ++ r ∧ Bencoded w t) ∨ Misspelt s r
  | .int (s := s) (r := r) h => by
      intro _
      by_cases hs : s = ofInt (number s).1 ++ chr 'e' :: r
      · left
        refine ⟨chr 'i' :: (ofInt (number s).1 ++ [chr 'e']), ?_,
          .int (number_mem s).1 (number_mem s).2⟩
        simpa using hs
      · exact .inr (.int h hs)
  | .str (b := b) (s := s) hb => by
      intro hmax
      rcases htext : text (b :: s) with ⟨k, rest⟩
      cases k with
      | none =>
          have hmiss := Misspelt.str (s := s) hb (by rw [htext])
          rw [htext] at hmiss
          exact .inr hmiss
      | some k =>
          rcases text_bencoded hb htext hmax with ⟨u, hu, hk⟩
          exact .inl ⟨u, hu, .str hk⟩
  | .list (r := r) hl => by
      intro hmax
      rw [List.length_cons] at hmax
      rcases hl.spelled (by omega) with ⟨w, rfl, hw⟩ | hmiss
      · exact .inl ⟨chr 'l' :: (w ++ [chr 'e']), by simp, .list hw⟩
      · exact .inr (.list hmiss)
  | .dict (r := r) hd => by
      intro hmax
      rw [List.length_cons] at hmax
      rcases hd.spelled (by omega) with ⟨w, rfl, hw⟩ | hmiss
      · exact .inl ⟨chr 'd' :: (w ++ [chr 'e']), by simp, .dict hw⟩
      · exact .inr (.dict hmiss)

theorem LooseItems.spelled {s r : List UInt8} {l : List BeNode} :
    LooseItems s l r → (s.length : Int) ≤ llongMax →
      (∃ w, s = w ++ chr 'e' :: r ∧ BencodedItems w l) ∨ MisspeltItems s r
  | .nil => by
      intro _
      exact .inl ⟨[], rfl, .nil⟩
  | .cons ht hl => by
      intro hmax
      have hlt := ht.length_lt
      rcases ht.spelled hmax with ⟨w, rfl, hw⟩ | hmiss
      · rcases hl.spelled (by omega) with ⟨w', rfl, hw'⟩ | hmiss
        · exact .inl ⟨w ++ w', by simp, .cons hw hw'⟩
        · exact .inr (.next ht hmiss)
      · exact .inr (.item hmiss hl)

theorem LoosePairs.spelled {s r : List UInt8} {d : List (List UInt8 × BeNode)} :
    LoosePairs s d r → (s.length : Int) ≤ llongMax →
      (∃ w, s = w ++ chr 'e' :: r ∧ BencodedPairs w d) ∨ MisspeltPairs s r
  | .nil => by
      intro _
      exact .inl ⟨[], rfl, .nil⟩
  | .cons hk ht hd => by
      intro hmax
      have hkey := text_length_lt hk
      have hlt := ht.length_lt
      rcases text_head_ne hk with ⟨b, s₁, rfl, _⟩
      by_cases hb : isDigit b = true
      · rcases text_bencoded hb hk hmax with ⟨u, hu, hku⟩
        rcases ht.spelled (by omega) with ⟨w, rfl, hw⟩ | hmiss
        · rcases hd.spelled (by omega) with ⟨w', rfl, hw'⟩ | hmiss
          · exact .inl ⟨u ++ (w ++ w'), by rw [hu]; simp, .cons hku hw hw'⟩
          · exact .inr (.next hk ht hmiss)
        · exact .inr (.val hk hmiss hd)
      · exact .inr (.key (by simpa using hb) hk ht hd)

end

/-! ## Not both -/

/-- A value at the front of a packet is where every reading of it ends. -/
theorem Loose.rest_eq {s s' w z : List UInt8} {t : BeNode} (h : Loose s t s') (hs : s = w ++ z)
    (hw : Bencoded w t) (hmax : (s.length : Int) ≤ llongMax) : s' = z := by
  rw [hs] at h hmax
  exact (h.rest_unique (hw.loose hmax)).2

/-- A string of the format is read as it is written. -/
theorem BencodedString.text_append {u k z : List UInt8} (h : BencodedString u k)
    (hmax : ((u ++ z).length : Int) ≤ llongMax) : text (u ++ z) = (some k, z) := by
  have hloose := (Bencoded.str h).loose hmax
  rcases h.head_digit with ⟨b, u', rfl, hb⟩
  rcases (Loose.str (s := u' ++ z) hb).rest_unique hloose with ⟨hk, hz⟩
  rw [BeNode.str.injEq] at hk
  exact Prod.ext hk hz

/-- The key of a pair is where every reading of the pair has its key end. -/
theorem BencodedString.key_rest {s s' u w k : List UInt8} (h : BencodedString u k)
    (hk : text s = (some k, s')) (hs : s = u ++ w) (hmax : (s.length : Int) ≤ llongMax) :
    s' = w := by
  rw [hs] at hk hmax
  rw [h.text_append hmax] at hk
  exact (congrArg Prod.snd hk).symm

mutual

/-- With something misspelt in its reading, a packet is not the text of its tree. -/
theorem Misspelt.loose {s r : List UInt8} :
    Misspelt s r → (s.length : Int) ≤ llongMax →
      ∃ t, Loose s t r ∧ ∀ w, s = w ++ r → ¬ Bencoded w t
  | .int h hs => by
      intro _
      refine ⟨_, .int h, ?_⟩
      intro w hw hint
      cases hint
      apply hs
      simpa using hw
  | .str (b := b) (s := s) hb hs => by
      intro _
      have hloose := Loose.str (s := s) hb
      rw [hs] at hloose
      refine ⟨_, hloose, ?_⟩
      -- no text belongs to a string node without data
      intro w _ hstr
      cases hstr
  | .list hl => by
      intro hmax
      rw [List.length_cons] at hmax
      rcases hl.loose (by omega) with ⟨l, hloose, hnot⟩
      refine ⟨_, .list hloose, ?_⟩
      intro w hw hlist
      cases hlist with
      | list hitems =>
          exact hnot _ (by simpa using hw) hitems
  | .dict hd => by
      intro hmax
      rw [List.length_cons] at hmax
      rcases hd.loose (by omega) with ⟨d, hloose, hnot⟩
      refine ⟨_, .dict hloose, ?_⟩
      intro w hw hdict
      cases hdict with
      | dict hpairs =>
          exact hnot _ (by simpa using hw) hpairs

theorem MisspeltItems.loose {s r : List UInt8} :
    MisspeltItems s r → (s.length : Int) ≤ llongMax →
      ∃ l, LooseItems s l r ∧ ∀ w, s = w ++ chr 'e' :: r → ¬ BencodedItems w l
  | .item hm hl => by
      intro hmax
      rcases hm.loose hmax with ⟨t, ht, hnot⟩
      refine ⟨_, .cons ht hl, ?_⟩
      intro w hw hitems
      cases hitems with
      | cons hwt hwl =>
          rw [List.append_assoc] at hw
          have hrest := ht.rest_eq hw hwt hmax
          rw [← hrest] at hw
          exact hnot _ hw hwt
  | .next ht hm => by
      intro hmax
      have hlt := ht.length_lt
      rcases hm.loose (by omega) with ⟨l, hl, hnot⟩
      refine ⟨_, .cons ht hl, ?_⟩
      intro w hw hitems
      cases hitems with
      | cons hwt hwl =>
          rw [List.append_assoc] at hw
          exact hnot _ (ht.rest_eq hw hwt hmax) hwl

theorem MisspeltPairs.loose {s r : List UInt8} :
    MisspeltPairs s r → (s.length : Int) ≤ llongMax →
      ∃ d, LoosePairs s d r ∧ ∀ w, s = w ++ chr 'e' :: r → ¬ BencodedPairs w d
  | .key hb hk ht hd => by
      intro _
      refine ⟨_, .cons hk ht hd, ?_⟩
      intro w hw hpairs
      cases hpairs with
      | cons hu _ _ =>
          rcases hu.head_digit with ⟨b, u, rfl, hdigit⟩
          rw [List.cons_append, List.cons_append, List.cons.injEq] at hw
          rw [← hw.1, hb] at hdigit
          cases hdigit
  | .val hk hm hd => by
      intro hmax
      have hkey := text_length_lt hk
      rcases hm.loose (by omega) with ⟨t, ht, hnot⟩
      refine ⟨_, .cons hk ht hd, ?_⟩
      intro w hw hpairs
      cases hpairs with
      | cons hu hwt _ =>
          rw [List.append_assoc, List.append_assoc] at hw
          have hval := hu.key_rest hk hw hmax
          rw [← ht.rest_eq hval hwt (by omega)] at hval
          exact hnot _ hval hwt
  | .next hk ht hm => by
      intro hmax
      have hkey := text_length_lt hk
      have hlt := ht.length_lt
      rcases hm.loose (by omega) with ⟨d, hd, hnot⟩
      refine ⟨_, .cons hk ht hd, ?_⟩
      intro w hw hpairs
      cases hpairs with
      | cons hu hwt hwd =>
          rw [List.append_assoc, List.append_assoc] at hw
          have hval := hu.key_rest hk hw hmax
          exact hnot _ (ht.rest_eq hval hwt (by omega)) hwd

end

/-! ## What the decoder accepts -/

/-- For the packet `b` with a NUL behind it, `be_decoden` comes to its end and returns a node exactly when
`b` starts with a bencoded value, and then that value. -/
def AcceptsFormat (b : List UInt8) : Prop :=
  (∃ o, beDecoden (b ++ [0]) b.length = .ok o) ∧
    ((∃ t, beDecoden (b ++ [0]) b.length = .ok (some t)) ↔ ∃ t, StartsWithValue b t) ∧
      ∀ t, beDecoden (b ++ [0]) b.length = .ok (some t) → StartsWithValue b t

/-- The run comes to its end unless an entry has lost its key. -/
theorem beDecoden_nul_ok_iff (b : List UInt8) :
    (∃ o, beDecoden (b ++ [0]) b.length = .ok o) ↔ ¬ LostKey b := by
  rcases beDecoden_nul_cases b with ⟨hlost, hstop⟩ | ⟨hlost, hret⟩
  · refine iff_of_false ?_ (not_not.2 hlost)
    rintro ⟨o, ho⟩
    rw [hstop] at ho
    cases ho
  · exact iff_of_true hret hlost

theorem acceptsFormat_iff_bencoded {b : List UInt8} (hlen : (b.length : Int) ≤ llongMax) :
    AcceptsFormat b ↔
      (∀ t r, Loose b t r → ∃ w, b = w ++ r ∧ Bencoded w t) ∧ ¬ LostKey b := by
  rw [← beDecoden_nul_ok_iff]
  constructor
  -- the value that the packet starts with is read as such, and a packet has one reading
  · rintro ⟨hret, _, hval⟩
    refine ⟨?_, hret⟩
    intro t r h
    rcases hval t (beDecoden_nul_iff.2 ⟨r, h⟩) with ⟨w, rest, rfl, hw⟩
    have hr : r = rest := h.rest_eq rfl hw hlen
    exact ⟨w, by rw [hr], hw⟩
  · rintro ⟨h, hret⟩
    have hval : ∀ t, beDecoden (b ++ [0]) b.length = .ok (some t) → StartsWithValue b t := by
      intro t ht
      rcases beDecoden_nul_iff.1 ht with ⟨r, hloose⟩
      rcases h t r hloose with ⟨w, hb, hw⟩
      exact ⟨w, r, hb, hw⟩
    refine ⟨hret, ⟨?_, ?_⟩, hval⟩
    · rintro ⟨t, ht⟩
      exact ⟨t, hval t ht⟩
    · rintro ⟨t, w, rest, rfl, hw⟩
      exact ⟨t, beDecoden_nul_iff.2 ⟨rest, hw.loose hlen⟩⟩

/-- The decoder keeps to the format on exactly those packets that have nothing misspelt in them and no
entry that has lost its key. -/
theorem acceptsFormat_iff {b : List UInt8} (hlen : (b.length : Int) ≤ llongMax) :
    AcceptsFormat b ↔ (∀ r, ¬ Misspelt b r) ∧ ¬ LostKey b := by
  rw [acceptsFormat_iff_bencoded hlen]
  refine and_congr_left' ?_
  constructor
  · intro h r hm
    rcases hm.loose hlen with ⟨t, hloose, hnot⟩
    rcases h t r hloose with ⟨w, hb, hw⟩
    exact hnot w hb hw
  · intro h t r hloose
    rcases hloose.spelled hlen with hw | hm
    · exact hw
    · exact absurd hm (h r)

theorem acceptsFormat_iff_int : AcceptsFormat (ascii "i5e") ↔
    (∀ r, ¬ Misspelt (ascii "i5e") r) ∧ ¬ LostKey (ascii "i5e") :=
  acceptsFormat_iff (by decide)

/-- The length of a string and nothing behind it is returned as a string node without data. -/
theorem not_acceptsFormat_length_only : ¬ AcceptsFormat (ascii "5") := by
  rintro ⟨_, _, hval⟩
  have hret : beDecoden (ascii "5" ++ [0]) (ascii "5").length = .ok (some (.str none)) := by
    decide +kernel
  rcases hval _ hret with ⟨w, rest, _, hw⟩
  -- no text belongs to a string node without data
  cases hw

end BitDht
