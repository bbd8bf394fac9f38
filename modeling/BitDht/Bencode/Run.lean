import BitDht.Bencode.Decode

/-!
# Run — the runs of the decoder as a relation

`Decodes g c r` says that the decoder, at the point `g` of its code with the pointer and length `c`,
ends with `r`: with a node, with NULL, or in a fault.  The relation has one constructor for each way
through `_be_decode` and its two loops and no recursion budget, so facts about all runs are
inductions on it.  `beDecodenAt_eq_iff` identifies it with the executable decoder.
-/

namespace BitDht

open Decimal Outcome

abbrev DecodeResult := Exec (Option BeNode × Cursor)

/-- Where a run starts: at a node, or at the head of a container loop with the entries so far. -/
inductive Goal
  | node
  | list (l : List BeNode)
  | dict (d : List (List UInt8 × BeNode))

inductive Decodes : Goal → Cursor → DecodeResult → Prop
  -- the switch on the first byte of a node
  | noData (bs : List UInt8) :
      Decodes .node ⟨bs, 0⟩ (.ok (none, ⟨bs, 0⟩))
  | past {n : Int} (hn : n ≠ 0) :
      Decodes .node ⟨[], n⟩ (.error .overread)
  | list {bs : List UInt8} {n : Int} {r : DecodeResult} (hn : n ≠ 0) :
      Decodes (.list []) ⟨bs, n - 1⟩ r → Decodes .node ⟨chr 'l' :: bs, n⟩ r
  | dict {bs : List UInt8} {n : Int} {r : DecodeResult} (hn : n ≠ 0) :
      Decodes (.dict []) ⟨bs, n - 1⟩ r → Decodes .node ⟨chr 'd' :: bs, n⟩ r
  | int {bs rest : List UInt8} {n m i : Int} (hn : n ≠ 0)
      (hi : beDecodeInt ⟨bs, n - 1⟩ = .ok (i, ⟨chr 'e' :: rest, m⟩)) :
      Decodes .node ⟨chr 'i' :: bs, n⟩ (.ok (some (.int i), ⟨rest, m - 1⟩))
  | intBad {bs rest : List UInt8} {n m i : Int} {b : UInt8} (hn : n ≠ 0)
      (hi : beDecodeInt ⟨bs, n - 1⟩ = .ok (i, ⟨b :: rest, m⟩)) (hb : b ≠ chr 'e') :
      Decodes .node ⟨chr 'i' :: bs, n⟩ (.ok (none, ⟨b :: rest, m⟩))
  | intFault {bs : List UInt8} {n : Int} {e : Fault} (hn : n ≠ 0)
      (hi : beDecodeInt ⟨bs, n - 1⟩ = .error e) :
      Decodes .node ⟨chr 'i' :: bs, n⟩ (.error e)
  | str {b : UInt8} {bs : List UInt8} {n : Int} {s : Option (List UInt8)} {c : Cursor}
      (hn : n ≠ 0) (hb : isDigit b = true) (hs : beDecodeStr ⟨b :: bs, n⟩ = .ok (s, c)) :
      Decodes .node ⟨b :: bs, n⟩ (.ok (some (.str s), c))
  | strFault {b : UInt8} {bs : List UInt8} {n : Int} {e : Fault}
      (hn : n ≠ 0) (hb : isDigit b = true) (hs : beDecodeStr ⟨b :: bs, n⟩ = .error e) :
      Decodes .node ⟨b :: bs, n⟩ (.error e)
  | invalid {b : UInt8} {bs : List UInt8} {n : Int} (hn : n ≠ 0) (hl : b ≠ chr 'l')
      (hd : b ≠ chr 'd') (hi : b ≠ chr 'i') (hb : isDigit b = false) :
      Decodes .node ⟨b :: bs, n⟩ (.ok (none, ⟨b :: bs, n⟩))
  -- the loop of a list
  | listPast {l : List BeNode} {n : Int} :
      Decodes (.list l) ⟨[], n⟩ (.error .overread)
  | listDone {l : List BeNode} {bs : List UInt8} {n : Int} :
      Decodes (.list l) ⟨chr 'e' :: bs, n⟩ (.ok (some (.list l), ⟨bs, n - 1⟩))
  | listFault {l : List BeNode} {b : UInt8} {bs : List UInt8} {n : Int} {e : Fault}
      (hb : b ≠ chr 'e') :
      Decodes .node ⟨b :: bs, n⟩ (.error e) → Decodes (.list l) ⟨b :: bs, n⟩ (.error e)
  | listKill {l : List BeNode} {b : UInt8} {bs : List UInt8} {n : Int} {c : Cursor}
      (hb : b ≠ chr 'e') :
      Decodes .node ⟨b :: bs, n⟩ (.ok (none, c)) →
        Decodes (.list l) ⟨b :: bs, n⟩ (.ok (none, c))
  | listNext {l : List BeNode} {b : UInt8} {bs : List UInt8} {n : Int} {c : Cursor}
      {t : BeNode} {r : DecodeResult} (hb : b ≠ chr 'e') :
      Decodes .node ⟨b :: bs, n⟩ (.ok (some t, c)) → Decodes (.list (l ++ [t])) c r →
        Decodes (.list l) ⟨b :: bs, n⟩ r
  -- the loop of a dictionary
  | dictPast {d : List (List UInt8 × BeNode)} {n : Int} :
      Decodes (.dict d) ⟨[], n⟩ (.error .overread)
  | dictDone {d : List (List UInt8 × BeNode)} {bs : List UInt8} {n : Int} :
      Decodes (.dict d) ⟨chr 'e' :: bs, n⟩ (.ok (some (.dict d), ⟨bs, n - 1⟩))
  | dictKeyFault {d : List (List UInt8 × BeNode)} {b : UInt8} {bs : List UInt8} {n : Int}
      {e : Fault} (hb : b ≠ chr 'e') (hk : beDecodeStr ⟨b :: bs, n⟩ = .error e) :
      Decodes (.dict d) ⟨b :: bs, n⟩ (.error e)
  | dictFault {d : List (List UInt8 × BeNode)} {b : UInt8} {bs : List UInt8} {n : Int}
      {k : Option (List UInt8)} {c : Cursor} {e : Fault} (hb : b ≠ chr 'e')
      (hk : beDecodeStr ⟨b :: bs, n⟩ = .ok (k, c)) :
      Decodes .node c (.error e) → Decodes (.dict d) ⟨b :: bs, n⟩ (.error e)
  | dictKill {d : List (List UInt8 × BeNode)} {b : UInt8} {bs : List UInt8} {n : Int}
      {k : Option (List UInt8)} {c c' : Cursor} (hb : b ≠ chr 'e')
      (hk : beDecodeStr ⟨b :: bs, n⟩ = .ok (k, c)) :
      Decodes .node c (.ok (none, c')) → Decodes (.dict d) ⟨b :: bs, n⟩ (.ok (none, c'))
  /-- the key was not read but its value was: the cleanup runs into the spare slot -/
  | dictLost {d : List (List UInt8 × BeNode)} {b : UInt8} {bs : List UInt8} {n : Int}
      {c c' : Cursor} {t : BeNode} (hb : b ≠ chr 'e')
      (hk : beDecodeStr ⟨b :: bs, n⟩ = .ok (none, c)) :
      Decodes .node c (.ok (some t, c')) → Decodes (.dict d) ⟨b :: bs, n⟩ (.error .unassigned)
  | dictNext {d : List (List UInt8 × BeNode)} {b : UInt8} {bs : List UInt8} {n : Int}
      {k : List UInt8} {c c' : Cursor} {t : BeNode} {r : DecodeResult} (hb : b ≠ chr 'e')
      (hk : beDecodeStr ⟨b :: bs, n⟩ = .ok (some k, c)) :
      Decodes .node c (.ok (some t, c')) → Decodes (.dict (d ++ [(k, t)])) c' r →
        Decodes (.dict d) ⟨b :: bs, n⟩ r

/-! ## Numbers and strings -/

theorem skip_one (b : UInt8) (bs : List UInt8) (n : Int) :
    Cursor.skip ⟨b :: bs, n⟩ 1 = ⟨bs, n - 1⟩ := by
  simp [Cursor.skip]

/-- `_be_decode_int` reads the number at the pointer and counts what it consumed. -/
theorem beDecodeInt_eq (c : Cursor) :
    beDecodeInt c = if OpenNumber c.data then .error .overread else
      .ok ((number c.data).1, ⟨(number c.data).2,
        c.dataLen - (c.data.length - (number c.data).2.length : Int)⟩) := by
  by_cases h : OpenNumber c.data
  · simp [beDecodeInt, strtoll_eq, h]
  · simp [beDecodeInt, strtoll_eq, h]

theorem beDecodeInt_data_ne_nil {c c' : Cursor} {i : Int} (h : beDecodeInt c = .ok (i, c')) :
    c'.data ≠ [] := by
  rw [beDecodeInt_eq] at h
  split at h
  -- `strtoll` looked at a byte behind the number, or it would have left the buffer
  · cases h
  · rename_i hopen
    cases h
    exact number_ne_nil hopen

/-- A pointer that moved forward in its buffer, with the remaining length in step. -/
structure Advance (c c' : Cursor) : Prop where
  data : c'.data <:+ c.data
  dataLen : c'.dataLen - c'.data.length = c.dataLen - c.data.length

theorem Advance.refl (c : Cursor) : Advance c c :=
  ⟨List.suffix_refl _, rfl⟩

theorem Advance.trans {c c' c'' : Cursor} (h : Advance c c') (h' : Advance c' c'') :
    Advance c c'' :=
  ⟨h'.data.trans h.data, h'.dataLen.trans h.dataLen⟩

theorem Advance.length_le {c c' : Cursor} (h : Advance c c') : c'.data.length ≤ c.data.length :=
  h.data.length_le

theorem Advance.cons (b : UInt8) (bs : List UInt8) (n : Int) :
    Advance ⟨b :: bs, n⟩ ⟨bs, n - 1⟩ := by
  refine ⟨List.suffix_cons b bs, ?_⟩
  simp only [List.length_cons]
  omega

theorem beDecodeInt_advance {c c' : Cursor} {i : Int} (h : beDecodeInt c = .ok (i, c')) :
    Advance c c' := by
  rw [beDecodeInt_eq] at h
  split at h
  · cases h
  · cases h
    refine ⟨number_suffix c.data, ?_⟩
    simp only
    omega

theorem skip_advance {c : Cursor} {k : Nat} (hk : k ≤ c.data.length) : Advance c (c.skip k) := by
  refine ⟨List.drop_suffix _ _, ?_⟩
  simp only [Cursor.skip, List.length_drop]
  omega

/-- The ways through `_be_decode_str`. -/
theorem beDecodeStr_cases {c : Cursor} {r : Exec (Option (List UInt8) × Cursor)}
    (h : beDecodeStr c = r) :
    (OpenNumber c.data ∧ r = .error .overread) ∨
    ∃ len c', beDecodeInt c = .ok (len, c') ∧
      ((¬ (0 ≤ len ∧ len ≤ c'.dataLen - 1) ∧ r = .ok (none, c')) ∨
        (0 ≤ len ∧ len ≤ c'.dataLen - 1 ∧ c'.data.head? ≠ some (chr ':') ∧ r = .ok (none, c')) ∨
        ∃ bs, 0 ≤ len ∧ len ≤ c'.dataLen - 1 ∧ c'.data = chr ':' :: bs ∧
          r = if len.toNat ≤ bs.length then .ok (some (bs.take len.toNat), c'.skip (len.toNat + 1))
            else .error .overread) := by
  subst h
  -- `strtoll` needs a byte behind the digits, so an open number is read past its end
  by_cases hopen : OpenNumber c.data
  · left
    simp [beDecodeStr, beDecodeInt_eq, hopen]
  · right
    rcases hint : beDecodeInt c with e | ⟨len, c'⟩
    · simp [beDecodeInt_eq, hopen] at hint
    · refine ⟨len, c', rfl, ?_⟩
      have hne : c'.data ≠ [] := beDecodeInt_data_ne_nil hint
      simp only [beDecodeStr, hint, ok_bind]
      -- the two tests of the length, then the colon, then whether the bytes are there
      by_cases hneg : len < 0
      · left
        refine ⟨by omega, ?_⟩
        simp [hneg]
      · by_cases hbig : len > c'.dataLen - 1
        · left
          refine ⟨by omega, ?_⟩
          simp [hneg, hbig]
        · right
          cases hdata : c'.data with
          | nil =>
              exact absurd hdata hne
          | cons b bs =>
              by_cases hb : b = chr ':'
              · right
                refine ⟨bs, by omega, by omega, by rw [hb], ?_⟩
                by_cases hlen : len.toNat ≤ bs.length
                · simp [hneg, hbig, hb, readBytes, hlen]
                · simp [hneg, hbig, hb, readBytes, hlen]
              · left
                refine ⟨by omega, by omega, ?_, ?_⟩
                · simpa using hb
                · simp [hneg, hbig, hb]

theorem beDecodeStr_advance {c c' : Cursor} {s : Option (List UInt8)}
    (h : beDecodeStr c = .ok (s, c')) : Advance c c' := by
  rcases beDecodeStr_cases h with ⟨_, hr⟩ | ⟨len, c₁, hint, ⟨_, hr⟩ | ⟨_, _, _, hr⟩ | hread⟩
  · cases hr
  · cases hr
    exact beDecodeInt_advance hint
  · cases hr
    exact beDecodeInt_advance hint
  -- the colon and the bytes of the string are there, so the skip stays inside
  · rcases hread with ⟨bs, _, _, hdata, hr⟩
    split at hr
    · rename_i hlen
      cases hr
      refine (beDecodeInt_advance hint).trans (skip_advance ?_)
      rw [hdata, List.length_cons]
      omega
    · cases hr

theorem beDecodeInt_error {c : Cursor} {e : Fault} (h : beDecodeInt c = .error e) :
    e = .overread := by
  rw [beDecodeInt_eq] at h
  split at h
  · cases h
    rfl
  · cases h

theorem beDecodeStr_error {c : Cursor} {e : Fault} (h : beDecodeStr c = .error e) :
    e = .overread := by
  rcases beDecodeStr_cases h with ⟨_, hr⟩ | ⟨len, c₁, _, ⟨_, hr⟩ | ⟨_, _, _, hr⟩ | hread⟩
  · cases hr
    rfl
  · cases hr
  · cases hr
  · rcases hread with ⟨bs, _, _, _, hr⟩
    split at hr
    · cases hr
    · cases hr
      rfl

theorem beDecodeInt_data {c c' : Cursor} {len : Int} (h : beDecodeInt c = .ok (len, c')) :
    c'.data = (number c.data).2 := by
  rw [beDecodeInt_eq] at h
  split at h
  · cases h
  · cases h
    rfl

/-- A string whose length starts with a digit takes at least that digit, read or not. -/
theorem beDecodeStr_progress {b : UInt8} {bs : List UInt8} {n : Int} {s : Option (List UInt8)}
    {c : Cursor} (hb : isDigit b = true) (h : beDecodeStr ⟨b :: bs, n⟩ = .ok (s, c)) :
    c.data.length ≤ bs.length := by
  -- the number already takes the first digit, and nothing moves the pointer back
  have hint : ∀ len c₁, beDecodeInt ⟨b :: bs, n⟩ = .ok (len, c₁) →
      c₁.data.length ≤ bs.length := by
    intro len c₁ hc₁
    rw [beDecodeInt_data hc₁, number_of_isDigit hb]
    exact (List.dropWhile_suffix _).length_le
  rcases beDecodeStr_cases h with ⟨_, hr⟩ | ⟨len, c₁, hc₁, ⟨_, hr⟩ | ⟨_, _, _, hr⟩ | hread⟩
  · cases hr
  · cases hr
    exact hint _ _ hc₁
  · cases hr
    exact hint _ _ hc₁
  · rcases hread with ⟨bs', _, _, hdata, hr⟩
    split at hr
    · cases hr
      have h₁ := hint _ _ hc₁
      simp only [Cursor.skip, List.length_drop]
      omega
    · cases hr

/-! ## The pointer only moves forward -/

/-- A run that ends in a result has moved the pointer forward with the length in step, and a node
takes at least one byte. -/
theorem Decodes.advance {g : Goal} {c : Cursor} {r : DecodeResult} (h : Decodes g c r)
    {t : Option BeNode} {c' : Cursor} (hr : r = .ok (t, c')) :
    Advance c c' ∧ (t ≠ none → c'.data.length < c.data.length) := by
  induction h generalizing t c' with
  | noData bs =>
      cases hr
      exact ⟨Advance.refl _, fun hne => absurd rfl hne⟩
  | past hn =>
      cases hr
  | list hn _ ih =>
      -- the first byte, then the loop from the empty container on
      have hstep := ih hr
      exact ⟨(Advance.cons _ _ _).trans hstep.1, fun _ => Nat.lt_succ_of_le hstep.1.length_le⟩
  | dict hn _ ih =>
      have hstep := ih hr
      exact ⟨(Advance.cons _ _ _).trans hstep.1, fun _ => Nat.lt_succ_of_le hstep.1.length_le⟩
  | int hn hi =>
      cases hr
      have hstep := (beDecodeInt_advance hi).trans (Advance.cons _ _ _)
      exact ⟨(Advance.cons _ _ _).trans hstep, fun _ => Nat.lt_succ_of_le hstep.length_le⟩
  | intBad hn hi hb =>
      cases hr
      exact ⟨(Advance.cons _ _ _).trans (beDecodeInt_advance hi), fun hne => absurd rfl hne⟩
  | intFault hn hi =>
      cases hr
  | str hn hb hs =>
      cases hr
      exact ⟨beDecodeStr_advance hs, fun _ => Nat.lt_succ_of_le (beDecodeStr_progress hb hs)⟩
  | strFault hn hb hs =>
      cases hr
  | invalid hn hl hd hi hb =>
      cases hr
      exact ⟨Advance.refl _, fun hne => absurd rfl hne⟩
  | listPast =>
      cases hr
  | listDone =>
      cases hr
      exact ⟨Advance.cons _ _ _, fun _ => Nat.lt_succ_self _⟩
  | listFault hb _ _ =>
      cases hr
  | listKill hb _ ih =>
      cases hr
      exact ⟨(ih rfl).1, fun hne => absurd rfl hne⟩
  | listNext hb _ _ ihn ihl =>
      -- the entry takes a byte, and the rest of the loop only goes on from there
      have hn := ihn rfl
      have hl := ihl hr
      exact ⟨hn.1.trans hl.1, fun _ => Nat.lt_of_le_of_lt hl.1.length_le (hn.2 (by simp))⟩
  | dictPast =>
      cases hr
  | dictDone =>
      cases hr
      exact ⟨Advance.cons _ _ _, fun _ => Nat.lt_succ_self _⟩
  | dictKeyFault hb hk =>
      cases hr
  | dictFault hb hk _ _ =>
      cases hr
  | dictKill hb hk _ ih =>
      cases hr
      exact ⟨(beDecodeStr_advance hk).trans (ih rfl).1, fun hne => absurd rfl hne⟩
  | dictLost hb hk _ _ =>
      cases hr
  | dictNext hb hk _ _ ihn ihd =>
      -- the key may take nothing, but its value takes a byte
      have hkey := beDecodeStr_advance hk
      have hn := ihn rfl
      have hd := ihd hr
      refine ⟨hkey.trans (hn.1.trans hd.1), fun _ => ?_⟩
      have hlt : _ < _ := hn.2 (by simp)
      exact Nat.lt_of_le_of_lt hd.1.length_le (Nat.lt_of_lt_of_le hlt hkey.length_le)

/-! ## The executable decoder -/

/-- The decoder at a point of its code. -/
def runFrom (fuel : Nat) : Goal → Cursor → DecodeResult
  | .node, c => beDecode fuel c
  | .list l, c => beDecodeList fuel l c
  | .dict d, c => beDecodeDict fuel d c

/-- Every result that the decoder has within the budget `fuel` is a run. -/
def RunsWithin (fuel : Nat) : Prop :=
  ∀ g c, runFrom fuel g c ≠ .error .outOfFuel → Decodes g c (runFrom fuel g c)

section within

variable {fuel : Nat} {bs : List UInt8} {n : Int}

theorem RunsWithin.node (ih : RunsWithin fuel) {c : Cursor} {r : DecodeResult}
    (hr : beDecode fuel c = r) (hne : r ≠ .error .outOfFuel) : Decodes .node c r := by
  subst hr
  exact ih .node c hne

theorem RunsWithin.succ_node (ih : RunsWithin fuel)
    (h : beDecode (fuel + 1) ⟨bs, n⟩ ≠ .error .outOfFuel) :
    Decodes .node ⟨bs, n⟩ (beDecode (fuel + 1) ⟨bs, n⟩) := by
  unfold beDecode at h ⊢
  by_cases hn : n = 0
  · subst hn
    simpa using Decodes.noData bs
  simp only [hn, if_false] at h ⊢
  cases bs with
  | nil =>
      simpa using Decodes.past hn
  | cons b bs =>
      simp only [deref_cons, ok_bind, skip_one] at h ⊢
      -- the cases of the switch
      by_cases hl : b = chr 'l'
      · subst hl
        simp only [if_true] at h ⊢
        exact .list hn (ih (.list []) _ h)
      by_cases hd : b = chr 'd'
      · subst hd
        simp only [hl, if_false, if_true] at h ⊢
        exact .dict hn (ih (.dict []) _ h)
      by_cases hi : b = chr 'i'
      · subst hi
        simp only [hl, hd, if_false, if_true] at h ⊢
        cases hint : beDecodeInt ⟨bs, n - 1⟩ with
        | error e =>
            simpa using Decodes.intFault hn hint
        | ok p =>
            rcases p with ⟨i, ⟨data, m⟩⟩
            cases data with
            | nil =>
                exact absurd rfl (beDecodeInt_data_ne_nil hint)
            | cons x rest =>
                by_cases hx : x = chr 'e'
                · subst hx
                  simpa [skip_one] using Decodes.int hn hint
                · simpa [hx] using Decodes.intBad hn hint hx
      simp only [hl, hd, hi, if_false] at h ⊢
      by_cases hb : isDigit b = true
      · simp only [hb, if_true] at h ⊢
        cases hs : beDecodeStr ⟨b :: bs, n⟩ with
        | error e =>
            simpa using Decodes.strFault hn hb hs
        | ok p =>
            rcases p with ⟨s, c⟩
            simpa using Decodes.str hn hb hs
      · have hb' : isDigit b = false := by simpa using hb
        simpa [hb'] using @Decodes.invalid b bs n hn hl hd hi hb'

theorem RunsWithin.succ_list (ih : RunsWithin fuel) {l : List BeNode}
    (h : beDecodeList (fuel + 1) l ⟨bs, n⟩ ≠ .error .outOfFuel) :
    Decodes (.list l) ⟨bs, n⟩ (beDecodeList (fuel + 1) l ⟨bs, n⟩) := by
  unfold beDecodeList at h ⊢
  cases bs with
  | nil =>
      exact Decodes.listPast
  | cons b bs =>
      simp only [deref_cons, ok_bind, skip_one] at h ⊢
      by_cases he : b = chr 'e'
      -- the `e` that ends the list
      · subst he
        simpa using Decodes.listDone
      simp only [he, if_false] at h ⊢
      cases hr : beDecode fuel ⟨b :: bs, n⟩ with
      | error e =>
          rw [hr, error_bind] at h
          simpa [hr] using Decodes.listFault (l := l) he (ih.node hr h)
      | ok p =>
          rcases p with ⟨t, c⟩
          have hd := ih.node hr (by simp)
          cases t with
          -- a failed entry ends the loop, and the cleanup stops at its null pointer
          | none =>
              simpa [hr, beFreeEntries_killed] using Decodes.listKill (l := l) he hd
          | some t =>
              simp only [hr, ok_bind] at h ⊢
              exact .listNext he hd (ih (.list (l ++ [t])) _ h)

theorem RunsWithin.succ_dict (ih : RunsWithin fuel) {d : List (List UInt8 × BeNode)}
    (h : beDecodeDict (fuel + 1) d ⟨bs, n⟩ ≠ .error .outOfFuel) :
    Decodes (.dict d) ⟨bs, n⟩ (beDecodeDict (fuel + 1) d ⟨bs, n⟩) := by
  unfold beDecodeDict at h ⊢
  cases bs with
  | nil =>
      exact Decodes.dictPast
  | cons b bs =>
      simp only [deref_cons, ok_bind, skip_one] at h ⊢
      by_cases he : b = chr 'e'
      · subst he
        simpa using Decodes.dictDone
      simp only [he, if_false] at h ⊢
      -- the key and the value are read before either is looked at
      cases hk : beDecodeStr ⟨b :: bs, n⟩ with
      | error e =>
          simpa [hk] using Decodes.dictKeyFault (d := d) he hk
      | ok p =>
          rcases p with ⟨k, c⟩
          simp only [hk, ok_bind] at h ⊢
          cases hr : beDecode fuel c with
          | error e =>
              rw [hr, error_bind] at h
              simpa [hr] using Decodes.dictFault (d := d) he hk (ih.node hr h)
          | ok q =>
              rcases q with ⟨t, c'⟩
              have hd := ih.node hr (by simp)
              -- the loop goes on only with both the key and the value
              cases t with
              | none =>
                  cases k <;>
                    simpa [hr, beFreeEntries_killed] using Decodes.dictKill (d := d) he hk hd
              | some t =>
                  cases k with
                  | none =>
                      simpa [hr, beFreeEntries_killed] using Decodes.dictLost (d := d) he hk hd
                  | some k =>
                      simp only [hr, ok_bind] at h ⊢
                      exact .dictNext he hk hd (ih (.dict (d ++ [(k, t)])) _ h)

end within

/-- Every result of the executable decoder within its budget is a run. -/
theorem runsWithin (fuel : Nat) : RunsWithin fuel := by
  induction fuel with
  | zero =>
      intro g c h
      cases g <;> exact absurd rfl h
  | succ fuel ih =>
      intro g c h
      cases g with
      | node =>
          exact ih.succ_node h
      | list l =>
          exact ih.succ_list h
      | dict d =>
          exact ih.succ_dict h

/-- The budget a run needs at a point of the code with `n` bytes of buffer left. -/
def goalBudget (n : Nat) : Goal → Nat
  | .node => decodeBudget n
  | .list _ => decodeBudget n + 1
  | .dict _ => decodeBudget n + 1

/-- The budget `fuel` is enough wherever the buffer is short enough for it. -/
def Suffices (fuel : Nat) : Prop :=
  ∀ g c, goalBudget c.data.length g ≤ fuel → runFrom fuel g c ≠ .error .outOfFuel

section budget

variable {fuel : Nat} {bs : List UInt8} {n : Int}

theorem Suffices.node (ih : Suffices fuel) {c : Cursor} (h : decodeBudget c.data.length ≤ fuel) :
    beDecode fuel c ≠ .error .outOfFuel :=
  ih .node c h

theorem Suffices.succ_node (ih : Suffices fuel) (h : decodeBudget bs.length ≤ fuel + 1) :
    beDecode (fuel + 1) ⟨bs, n⟩ ≠ .error .outOfFuel := by
  unfold beDecode
  by_cases hn : n = 0
  · simp [hn]
  cases bs with
  | nil =>
      simp [hn]
  | cons b bs =>
      simp only [decodeBudget, List.length_cons] at h
      simp only [hn, if_false, deref_cons, ok_bind, skip_one]
      -- a container loop starts behind its first byte
      have hrest : decodeBudget bs.length + 1 ≤ fuel := by
        simp only [decodeBudget]
        omega
      split
      · exact ih (.list []) _ hrest
      split
      · exact ih (.dict []) _ hrest
      split
      · cases hint : beDecodeInt ⟨bs, n - 1⟩ with
        | error e =>
            simp [beDecodeInt_error hint]
        | ok p =>
            rcases p with ⟨i, ⟨data, m⟩⟩
            cases data with
            | nil =>
                simp
            | cons x rest =>
                by_cases hx : x = chr 'e' <;> simp [hx]
      split
      · cases hs : beDecodeStr ⟨b :: bs, n⟩ with
        | error e =>
            simp [beDecodeStr_error hs]
        | ok p =>
            simp
      · simp

theorem Suffices.succ_list (ih : Suffices fuel) {l : List BeNode}
    (h : decodeBudget bs.length + 1 ≤ fuel + 1) :
    beDecodeList (fuel + 1) l ⟨bs, n⟩ ≠ .error .outOfFuel := by
  unfold beDecodeList
  cases bs with
  | nil =>
      simp
  | cons b bs =>
      simp only [deref_cons, ok_bind, skip_one]
      split
      · simp
      have hnode := ih.node (c := ⟨b :: bs, n⟩) (Nat.le_of_succ_le_succ h)
      cases hr : beDecode fuel ⟨b :: bs, n⟩ with
      | error e =>
          simpa [hr] using hnode
      | ok p =>
          rcases p with ⟨t, c⟩
          cases t with
          | none =>
              simp [beFreeEntries_killed]
          | some t =>
              -- the entry took a byte, which pays for the next round
              have hrun := (runsWithin fuel).node hr (by simp)
              have hlt := (hrun.advance rfl).2 (by simp)
              simp only [decodeBudget, List.length_cons] at h hlt
              exact ih (.list (l ++ [t])) c (by simp only [goalBudget, decodeBudget]; omega)

theorem Suffices.succ_dict (ih : Suffices fuel) {d : List (List UInt8 × BeNode)}
    (h : decodeBudget bs.length + 1 ≤ fuel + 1) :
    beDecodeDict (fuel + 1) d ⟨bs, n⟩ ≠ .error .outOfFuel := by
  unfold beDecodeDict
  cases bs with
  | nil =>
      simp
  | cons b bs =>
      simp only [deref_cons, ok_bind, skip_one]
      split
      · simp
      cases hk : beDecodeStr ⟨b :: bs, n⟩ with
      | error e =>
          simp [beDecodeStr_error hk]
      | ok q =>
          rcases q with ⟨k, c⟩
          -- the key moves forward, so the budget that was left covers the value
          have hkey := (beDecodeStr_advance hk).length_le
          simp only [decodeBudget, List.length_cons] at h hkey
          have hnode := ih.node (c := c) (by simp only [decodeBudget]; omega)
          simp only [ok_bind]
          cases hr : beDecode fuel c with
          | error e =>
              simpa [hr] using hnode
          | ok p =>
              rcases p with ⟨t, c'⟩
              cases t with
              | none =>
                  cases k <;> simp [beFreeEntries_killed]
              | some t =>
                  cases k with
                  | none =>
                      simp [beFreeEntries_killed]
                  | some k =>
                      -- the value took a byte, which pays for the next round
                      have hrun := (runsWithin fuel).node hr (by simp)
                      have hlt := (hrun.advance rfl).2 (by simp)
                      exact ih (.dict (d ++ [(k, t)])) c'
                        (by simp only [goalBudget, decodeBudget]; omega)

end budget

theorem budget_suffices (fuel : Nat) : Suffices fuel := by
  induction fuel with
  | zero =>
      intro g c h
      cases g <;> simp [goalBudget, decodeBudget] at h
  | succ fuel ih =>
      intro g c h
      cases g with
      | node =>
          exact ih.succ_node h
      | list l =>
          exact ih.succ_list h
      | dict d =>
          exact ih.succ_dict h

theorem runFrom_of_succ {g : Goal} {c : Cursor} {r : DecodeResult} (k : Nat)
    (h : ∀ fuel, k ≤ fuel → runFrom (fuel + 1) g c = r) :
    ∃ k, ∀ fuel, k ≤ fuel → runFrom fuel g c = r := by
  -- without any budget the decoder does not even start
  refine ⟨k + 1, ?_⟩
  intro fuel hfuel
  cases fuel with
  | zero =>
      exact absurd hfuel (Nat.not_succ_le_zero k)
  | succ fuel =>
      exact h fuel (Nat.le_of_succ_le_succ hfuel)

/-- A digit is none of the other bytes of the switch. -/
theorem ne_tag_of_isDigit {b : UInt8} (hb : isDigit b = true) :
    b ≠ chr 'l' ∧ b ≠ chr 'd' ∧ b ≠ chr 'i' := by
  refine ⟨?_, ?_, ?_⟩
  all_goals
    rintro rfl
    exact absurd hb (by decide)

/-- Every run is found by the executable decoder, whatever budget it gets beyond some bound. -/
theorem Decodes.runFrom_eq {g : Goal} {c : Cursor} {r : DecodeResult} (h : Decodes g c r) :
    ∃ k, ∀ fuel, k ≤ fuel → runFrom fuel g c = r := by
  -- every constructor takes one unit of budget more than its premises
  induction h with
  | noData bs =>
      exact runFrom_of_succ 0 (fun fuel _ => by simp [runFrom, beDecode])
  | past hn =>
      exact runFrom_of_succ 0 (fun fuel _ => by simp [runFrom, beDecode, hn])
  | list hn _ ih =>
      rcases ih with ⟨k, ih⟩
      refine runFrom_of_succ k (fun fuel hf => ?_)
      simpa [runFrom, beDecode, hn, skip_one] using ih fuel (by omega)
  | dict hn _ ih =>
      rcases ih with ⟨k, ih⟩
      refine runFrom_of_succ k (fun fuel hf => ?_)
      simpa [runFrom, beDecode, hn, skip_one, chr] using ih fuel (by omega)
  | int hn hi =>
      exact runFrom_of_succ 0 (fun fuel _ => by simp [runFrom, beDecode, hn, skip_one, hi, chr])
  | intBad hn hi hb =>
      refine runFrom_of_succ 0 (fun fuel _ => ?_)
      have hl : chr 'i' ≠ chr 'l' := by decide
      have hd : chr 'i' ≠ chr 'd' := by decide
      simp [runFrom, beDecode, hn, skip_one, hi, hl, hd, hb]
  | intFault hn hi =>
      exact runFrom_of_succ 0 (fun fuel _ => by simp [runFrom, beDecode, hn, skip_one, hi, chr])
  | @str b bs n s c hn hb hs =>
      rcases ne_tag_of_isDigit hb with ⟨hl, hd, hi⟩
      exact runFrom_of_succ 0 (fun fuel _ => by simp [runFrom, beDecode, hn, hl, hd, hi, hb, hs])
  | @strFault b bs n e hn hb hs =>
      rcases ne_tag_of_isDigit hb with ⟨hl, hd, hi⟩
      exact runFrom_of_succ 0 (fun fuel _ => by simp [runFrom, beDecode, hn, hl, hd, hi, hb, hs])
  | invalid hn hl hd hi hb =>
      exact runFrom_of_succ 0 (fun fuel _ => by simp [runFrom, beDecode, hn, hl, hd, hi, hb])
  | listPast =>
      exact runFrom_of_succ 0 (fun fuel _ => by simp [runFrom, beDecodeList])
  | listDone =>
      exact runFrom_of_succ 0 (fun fuel _ => by simp [runFrom, beDecodeList, skip_one])
  | listFault hb _ ih =>
      rcases ih with ⟨k, ih⟩
      refine runFrom_of_succ k (fun fuel hf => ?_)
      have hnode := ih fuel (by omega)
      simp only [runFrom] at hnode
      simp [runFrom, beDecodeList, hb, hnode]
  | listKill hb _ ih =>
      rcases ih with ⟨k, ih⟩
      refine runFrom_of_succ k (fun fuel hf => ?_)
      have hnode := ih fuel (by omega)
      simp only [runFrom] at hnode
      simp [runFrom, beDecodeList, hb, hnode, beFreeEntries_killed]
  | listNext hb _ _ ihn ihl =>
      -- one budget for the entry and one for the rest: their sum serves both
      rcases ihn with ⟨k, ihn⟩
      rcases ihl with ⟨k', ihl⟩
      refine runFrom_of_succ (k + k') (fun fuel hf => ?_)
      have hnode := ihn fuel (by omega)
      have hrest := ihl fuel (by omega)
      simp only [runFrom] at hnode hrest
      simp [runFrom, beDecodeList, hb, hnode, hrest]
  | dictPast =>
      exact runFrom_of_succ 0 (fun fuel _ => by simp [runFrom, beDecodeDict])
  | dictDone =>
      exact runFrom_of_succ 0 (fun fuel _ => by simp [runFrom, beDecodeDict, skip_one])
  | dictKeyFault hb hk =>
      exact runFrom_of_succ 0 (fun fuel _ => by simp [runFrom, beDecodeDict, hb, hk])
  | dictFault hb hk _ ih =>
      rcases ih with ⟨k, ih⟩
      refine runFrom_of_succ k (fun fuel hf => ?_)
      have hnode := ih fuel (by omega)
      simp only [runFrom] at hnode
      simp [runFrom, beDecodeDict, hb, hk, hnode]
  | @dictKill d b bs n key c c' hb hk _ ih =>
      rcases ih with ⟨k, ih⟩
      refine runFrom_of_succ k (fun fuel hf => ?_)
      have hnode := ih fuel (by omega)
      simp only [runFrom] at hnode
      cases key <;> simp [runFrom, beDecodeDict, hb, hk, hnode, beFreeEntries_killed]
  | dictLost hb hk _ ih =>
      rcases ih with ⟨k, ih⟩
      refine runFrom_of_succ k (fun fuel hf => ?_)
      have hnode := ih fuel (by omega)
      simp only [runFrom] at hnode
      simp [runFrom, beDecodeDict, hb, hk, hnode, beFreeEntries_killed]
  -- again one budget for both, beyond that of the loop itself
  | dictNext hb hk _ _ ihn ihd =>
      rcases ihn with ⟨k, ihn⟩
      rcases ihd with ⟨k', ihd⟩
      refine runFrom_of_succ (k + k') (fun fuel hf => ?_)
      have hnode := ihn fuel (by omega)
      have hrest := ihd fuel (by omega)
      simp only [runFrom] at hnode hrest
      simp [runFrom, beDecodeDict, hb, hk, hnode, hrest]

/-- The executable decoder ends with `r` exactly if its run does. -/
theorem beDecodenAt_eq_iff {data : List UInt8} {len : Int} {r : DecodeResult} :
    beDecodenAt data len = r ↔ Decodes .node ⟨data, len⟩ r := by
  have hne : beDecodenAt data len ≠ .error .outOfFuel :=
    (budget_suffices (decodeBudget data.length)).node (c := ⟨data, len⟩) le_rfl
  have hrun : Decodes .node ⟨data, len⟩ (beDecodenAt data len) := (runsWithin _).node rfl hne
  constructor
  · rintro rfl
    exact hrun
  · intro h
    -- both runs are found by the decoder with a large enough budget, so they end alike
    rcases hrun.runFrom_eq with ⟨k, hk⟩
    rcases h.runFrom_eq with ⟨k', hk'⟩
    rw [← hk (k + k') (by omega), ← hk' (k + k') (by omega)]

/-- No buffer exhausts the recursion budget of the model. -/
theorem beDecoden_ne_outOfFuel (data : List UInt8) (len : Int) :
    beDecoden data len ≠ .error .outOfFuel := by
  intro h
  rcases bind_eq_error.1 h with h | ⟨p, _, h⟩
  · exact (budget_suffices _).node (c := ⟨data, len⟩) le_rfl h
  · cases h

theorem beDecoden_eq_ok_iff {data : List UInt8} {len : Int} {t : Option BeNode} :
    beDecoden data len = .ok t ↔ ∃ c, Decodes .node ⟨data, len⟩ (.ok (t, c)) := by
  rw [beDecoden, bind_eq_ok]
  constructor
  · rintro ⟨⟨t', c⟩, hrun, ht⟩
    cases ht
    exact ⟨c, beDecodenAt_eq_iff.1 hrun⟩
  · rintro ⟨c, hrun⟩
    exact ⟨(t, c), beDecodenAt_eq_iff.2 hrun, rfl⟩

theorem Decodes.unique {c : Cursor} {r r' : DecodeResult} (h : Decodes .node c r)
    (h' : Decodes .node c r') : r = r' := by
  rw [← beDecodenAt_eq_iff.2 h, ← beDecodenAt_eq_iff.2 h']

/-! ## Bytes behind the buffer -/

/-- The same pointer in a buffer that goes on with `z`. -/
def Cursor.extend (c : Cursor) (z : List UInt8) : Cursor :=
  { data := c.data ++ z, dataLen := c.dataLen }

def extendResult (z : List UInt8) : DecodeResult → DecodeResult
  | .ok (t, c) => .ok (t, c.extend z)
  | .error e => .error e

theorem beDecodeInt_extend {c c' : Cursor} {i : Int} (h : beDecodeInt c = .ok (i, c'))
    (z : List UInt8) : beDecodeInt (c.extend z) = .ok (i, c'.extend z) := by
  rw [beDecodeInt_eq] at h
  split at h
  · cases h
  · rename_i hopen
    cases h
    rw [beDecodeInt_eq]
    -- the number was closed by a byte of the buffer, so nothing behind the buffer is looked at
    have hopen' : ¬ OpenNumber (c.extend z).data := not_openNumber_append hopen z
    have hnum : number (c.extend z).data = ((number c.data).1, (number c.data).2 ++ z) :=
      number_append hopen z
    simp only [hopen', if_false, hnum, Except.ok.injEq, Prod.mk.injEq, true_and]
    simp only [Cursor.extend, List.length_append, Cursor.mk.injEq, true_and]
    omega

theorem beDecodeStr_extend {c c' : Cursor} {s : Option (List UInt8)}
    (h : beDecodeStr c = .ok (s, c')) (z : List UInt8) :
    beDecodeStr (c.extend z) = .ok (s, c'.extend z) := by
  rcases beDecodeStr_cases h with ⟨_, hr⟩ | ⟨len, c₁, hint, ⟨hlen, hr⟩ | ⟨hpos, hle, hne, hr⟩ | hread⟩
  · cases hr
  · cases hr
    -- the length is rejected by a test that knows nothing of the buffer
    have hbound : len < 0 ∨ len > (c'.extend z).dataLen - 1 := by
      simp only [Cursor.extend]
      omega
    rcases hbound with hneg | hbig
    · simp only [beDecodeStr, beDecodeInt_extend hint, ok_bind, if_pos hneg, pure_eq_ok]
    · by_cases hneg : len < 0
      · simp only [beDecodeStr, beDecodeInt_extend hint, ok_bind, if_pos hneg, pure_eq_ok]
      · simp only [beDecodeStr, beDecodeInt_extend hint, ok_bind, if_neg hneg, if_pos hbig,
          pure_eq_ok]
  · cases hr
    have hneg : ¬ len < 0 := by omega
    have hbig : ¬ len > (c'.extend z).dataLen - 1 := by
      simp only [Cursor.extend]
      omega
    cases hdata : c'.data with
    | nil =>
        exact absurd hdata (beDecodeInt_data_ne_nil hint)
    | cons b bs =>
        -- the byte that should be the colon lies inside the buffer
        have hb : b ≠ chr ':' := by simpa [hdata] using hne
        have hcons : (c'.extend z).data = b :: (bs ++ z) := by simp [Cursor.extend, hdata]
        simp only [beDecodeStr, beDecodeInt_extend hint, ok_bind, if_neg hneg, if_neg hbig, hcons,
          deref_cons, if_neg hb, pure_eq_ok]
  · rcases hread with ⟨bs, hpos, hle, hdata, hr⟩
    split at hr
    · rename_i hlen
      cases hr
      have hneg : ¬ len < 0 := by omega
      have hbig : ¬ len > (c₁.extend z).dataLen - 1 := by
        simp only [Cursor.extend]
        omega
      have hcons : (c₁.extend z).data = chr ':' :: (bs ++ z) := by simp [Cursor.extend, hdata]
      -- the bytes of the string lie inside the buffer
      have hlen' : len.toNat ≤ (bs ++ z).length := by
        rw [List.length_append]
        omega
      simp only [beDecodeStr, beDecodeInt_extend hint, ok_bind, hneg, hbig, if_false, hcons,
        deref_cons, if_true, readBytes, List.drop_one, List.tail_cons, hlen', pure_eq_ok]
      have htake : (bs ++ z).take len.toNat = bs.take len.toNat :=
        List.take_append_of_le_length hlen
      have hdrop : (chr ':' :: (bs ++ z)).drop (len.toNat + 1) =
          (chr ':' :: bs).drop (len.toNat + 1) ++ z := by
        simp [List.drop_append_of_le_length hlen]
      simp only [htake, Cursor.skip, Cursor.extend, hdata]
      rw [← hdrop]
      rfl
    · cases hr

/-- A run that stays inside its buffer goes the same way whatever follows the buffer. -/
theorem Decodes.extend {g : Goal} {c : Cursor} {r : DecodeResult} (h : Decodes g c r)
    (hr : r ≠ .error .overread) (z : List UInt8) :
    Decodes g (c.extend z) (extendResult z r) := by
  induction h with
  | noData bs =>
      exact .noData (bs ++ z)
  -- the runs that leave the buffer are excluded, all others meet the same bytes
  | past hn =>
      exact absurd rfl hr
  | list hn _ ih =>
      exact .list hn (ih hr)
  | dict hn _ ih =>
      exact .dict hn (ih hr)
  | int hn hi =>
      exact .int hn (beDecodeInt_extend hi z)
  | intBad hn hi hb =>
      exact .intBad hn (beDecodeInt_extend hi z) hb
  | intFault hn hi =>
      rw [beDecodeInt_error hi] at hr
      exact absurd rfl hr
  | str hn hb hs =>
      exact .str hn hb (beDecodeStr_extend hs z)
  | strFault hn hb hs =>
      rw [beDecodeStr_error hs] at hr
      exact absurd rfl hr
  | invalid hn hl hd hi hb =>
      exact .invalid hn hl hd hi hb
  | listPast =>
      exact absurd rfl hr
  | listDone =>
      exact .listDone
  | listFault hb _ ih =>
      exact .listFault hb (ih hr)
  | listKill hb _ ih =>
      exact .listKill hb (ih hr)
  | listNext hb _ _ ihn ihl =>
      exact .listNext hb (ihn (by simp)) (ihl hr)
  | dictPast =>
      exact absurd rfl hr
  | dictDone =>
      exact .dictDone
  | dictKeyFault hb hk =>
      rw [beDecodeStr_error hk] at hr
      exact absurd rfl hr
  | dictFault hb hk _ ih =>
      exact .dictFault hb (beDecodeStr_extend hk z) (ih hr)
  | dictKill hb hk _ ih =>
      exact .dictKill hb (beDecodeStr_extend hk z) (ih (by simp))
  | dictLost hb hk _ ih =>
      exact .dictLost hb (beDecodeStr_extend hk z) (ih (by simp))
  | dictNext hb hk _ _ ihn ihd =>
      exact .dictNext hb (beDecodeStr_extend hk z) (ihn (by simp)) (ihd hr)

end BitDht
