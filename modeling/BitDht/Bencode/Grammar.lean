import BitDht.Bencode.Run

/-!
# Grammar — what the decoder accepts, on packet bytes

Three languages over the bytes of a packet, with no pointer and no buffer in sight:

* `Bencoded w t`: `w` is the bencoded text of `t`, as the format defines it;
* `Loose s t r`: a reading of `s` that leaves `r` and that the decoder lets pass;
* `CutShort s`: the packet ends in the middle of something the decoder wants to finish.

On a buffer that holds the packet and a NUL the decoder returns a node exactly for a loose reading
(`decodes_nul_iff`), and on a buffer that ends with the packet it runs off the end exactly for a
packet that is cut short (`decodes_exact_overread_iff`).
-/

namespace BitDht

open Decimal Outcome

/-! ## The format -/

/-- `<length>:<bytes>` -/
inductive BencodedString : List UInt8 → List UInt8 → Prop
  | mk {ds bs : List UInt8} (hne : ds ≠ []) (hds : ∀ b ∈ ds, isDigit b = true)
      (hlen : value ds = bs.length) : BencodedString (ds ++ chr ':' :: bs) bs

mutual

/-- The bencoded text of a tree.  Integers are plain decimal numbers within `long long`: no blanks,
no plus sign, no leading zero, no minus zero. -/
inductive Bencoded : List UInt8 → BeNode → Prop
  | int {i : Int} (hlo : llongMin ≤ i) (hhi : i ≤ llongMax) :
      Bencoded (chr 'i' :: (ofInt i ++ [chr 'e'])) (.int i)
  | str {w bs : List UInt8} : BencodedString w bs → Bencoded w (.str (some bs))
  | list {w : List UInt8} {l : List BeNode} : BencodedItems w l →
      Bencoded (chr 'l' :: (w ++ [chr 'e'])) (.list l)
  | dict {w : List UInt8} {d : List (List UInt8 × BeNode)} : BencodedPairs w d →
      Bencoded (chr 'd' :: (w ++ [chr 'e'])) (.dict d)

inductive BencodedItems : List UInt8 → List BeNode → Prop
  | nil : BencodedItems [] []
  | cons {w w' : List UInt8} {t : BeNode} {l : List BeNode} : Bencoded w t →
      BencodedItems w' l → BencodedItems (w ++ w') (t :: l)

inductive BencodedPairs : List UInt8 → List (List UInt8 × BeNode) → Prop
  | nil : BencodedPairs [] []
  | cons {u w w' k : List UInt8} {t : BeNode} {d : List (List UInt8 × BeNode)} :
      BencodedString u k → Bencoded w t → BencodedPairs w' d →
      BencodedPairs (u ++ (w ++ w')) ((k, t) :: d)

end

/-- `b` starts with the bencoded text of `t`. -/
def StartsWithValue (b : List UInt8) (t : BeNode) : Prop :=
  ∃ w rest, b = w ++ rest ∧ Bencoded w t

/-! ## Loose readings -/

/-- A string as the decoder reads it: a number in the manner of `strtoll`, a colon, and as many
bytes as the number says, if the packet has them. -/
def text (s : List UInt8) : Option (List UInt8) × List UInt8 :=
  match (number s).2 with
  -- the packet ends behind the number, where the colon should be
  | [] => (none, [])
  | b :: bs =>
      if b = chr ':' ∧ 0 ≤ (number s).1 ∧ (number s).1 ≤ bs.length then
        (some (bs.take (number s).1.toNat), bs.drop (number s).1.toNat)
      else
        -- the pointer stays where the number ended
        (none, b :: bs)

mutual

/-- `Loose s t r`: reading `t` off the front of the packet bytes `s` leaves `r`.  An integer is
whatever `strtoll` takes for one (blanks, a plus sign, leading zeros, nothing at all, or a value
beyond `long long` that is cut down to it), and a string that cannot be read counts as read. -/
inductive Loose : List UInt8 → BeNode → List UInt8 → Prop
  | int {s r : List UInt8} (h : (number s).2 = chr 'e' :: r) :
      Loose (chr 'i' :: s) (.int (number s).1) r
  | str {b : UInt8} {s : List UInt8} (hb : isDigit b = true) :
      Loose (b :: s) (.str (text (b :: s)).1) (text (b :: s)).2
  | list {s r : List UInt8} {l : List BeNode} : LooseItems s l r →
      Loose (chr 'l' :: s) (.list l) r
  | dict {s r : List UInt8} {d : List (List UInt8 × BeNode)} : LoosePairs s d r →
      Loose (chr 'd' :: s) (.dict d) r

inductive LooseItems : List UInt8 → List BeNode → List UInt8 → Prop
  | nil {r : List UInt8} : LooseItems (chr 'e' :: r) [] r
  | cons {s s' r : List UInt8} {t : BeNode} {l : List BeNode} : Loose s t s' →
      LooseItems s' l r → LooseItems s (t :: l) r

inductive LoosePairs : List UInt8 → List (List UInt8 × BeNode) → List UInt8 → Prop
  | nil {r : List UInt8} : LoosePairs (chr 'e' :: r) [] r
  | cons {s s' s'' r k : List UInt8} {t : BeNode} {d : List (List UInt8 × BeNode)}
      (hk : text s = (some k, s')) : Loose s' t s'' → LoosePairs s'' d r →
      LoosePairs s ((k, t) :: d) r

end

/-! ## Packets that stop too early -/

mutual

/-- The packet ends inside an integer, inside the length of a string, or where a list or dictionary
still waits for an entry or its `e`. -/
inductive CutShort : List UInt8 → Prop
  | int {s : List UInt8} (h : OpenNumber s) : CutShort (chr 'i' :: s)
  | str {b : UInt8} {s : List UInt8} (hb : isDigit b = true) (hs : ∀ x ∈ s, isDigit x = true) :
      CutShort (b :: s)
  | list {s : List UInt8} : CutItems s → CutShort (chr 'l' :: s)
  | dict {s : List UInt8} : CutPairs s → CutShort (chr 'd' :: s)

inductive CutItems : List UInt8 → Prop
  | nil : CutItems []
  | item {s : List UInt8} : CutShort s → CutItems s
  | next {s s' : List UInt8} {t : BeNode} : Loose s t s' → CutItems s' → CutItems s

inductive CutPairs : List UInt8 → Prop
  | nil : CutPairs []
  | key {s : List UInt8} (hne : s ≠ []) (h : OpenNumber s) : CutPairs s
  | val {s : List UInt8} (he : s.head? ≠ some (chr 'e')) (h : ¬ OpenNumber s) :
      CutShort (text s).2 → CutPairs s
  | next {s s' s'' k : List UInt8} {t : BeNode} (hk : text s = (some k, s')) : Loose s' t s'' →
      CutPairs s'' → CutPairs s

end

/-! ## First bytes -/

theorem number_of_stop {b : UInt8} (hs : isSpace b = false) (hm : b ≠ chr '-')
    (hp : b ≠ chr '+') (hd : isDigit b = false) (s : List UInt8) :
    number (b :: s) = (0, b :: s) ∧ ¬ OpenNumber (b :: s) := by
  have hafter : afterSign (b :: s) = (false, b :: s) := by
    simp [afterSign, hs, skipSign, hm, hp]
  constructor
  · simp [number, hafter, hd]
  · simp [OpenNumber, hafter, hd]

theorem text_snd_suffix (s : List UInt8) : (text s).2 <:+ s := by
  have hnum := number_suffix s
  unfold text
  -- either nothing is left, or the string is taken off, or only its length
  split
  · exact List.nil_suffix
  · rename_i b bs hcons
    rw [hcons] at hnum
    split
    · exact (List.drop_suffix _ _).trans ((List.suffix_cons b bs).trans hnum)
    · exact hnum

/-- The byte `e` starts neither a number nor a string. -/
theorem text_e (s : List UInt8) : text (chr 'e' :: s) = (none, chr 'e' :: s) := by
  have hnum := (number_of_stop (b := chr 'e') (by decide) (by decide) (by decide) (by decide) s).1
  have hcolon : chr 'e' ≠ chr ':' := by decide
  simp [text, hnum, hcolon]

theorem Loose.head_ne {s r : List UInt8} {t : BeNode} (h : Loose s t r) :
    ∃ b s', s = b :: s' ∧ b ≠ chr 'e' := by
  cases h with
  | int _ =>
      exact ⟨_, _, rfl, by decide⟩
  | str hb =>
      exact ⟨_, _, rfl, by rintro rfl; exact absurd hb (by decide)⟩
  | list _ =>
      exact ⟨_, _, rfl, by decide⟩
  | dict _ =>
      exact ⟨_, _, rfl, by decide⟩

theorem CutShort.head_ne {s : List UInt8} (h : CutShort s) :
    ∃ b s', s = b :: s' ∧ b ≠ chr 'e' := by
  cases h with
  | int _ =>
      exact ⟨_, _, rfl, by decide⟩
  | str hb _ =>
      exact ⟨_, _, rfl, by rintro rfl; exact absurd hb (by decide)⟩
  | list _ =>
      exact ⟨_, _, rfl, by decide⟩
  | dict _ =>
      exact ⟨_, _, rfl, by decide⟩

/-! ## A packet and a NUL behind it -/

/-- The pointer at the packet bytes `s`, with a NUL behind them. -/
def nulCursor (s : List UInt8) : Cursor :=
  { data := s ++ [0], dataLen := s.length }

theorem beDecodeInt_nul (s : List UInt8) :
    beDecodeInt (nulCursor s) = .ok ((number s).1, nulCursor (number s).2) := by
  have hopen : ¬ OpenNumber (nulCursor s).data := not_openNumber_nul s
  have hnum : number (nulCursor s).data = ((number s).1, (number s).2 ++ [0]) := number_nul s
  rw [beDecodeInt_eq]
  simp only [hopen, if_false, hnum, Except.ok.injEq, Prod.mk.injEq, true_and]
  simp [nulCursor]

theorem beDecodeStr_nul (s : List UInt8) :
    beDecodeStr (nulCursor s) = .ok ((text s).1, nulCursor (text s).2) := by
  simp only [beDecodeStr, beDecodeInt_nul, ok_bind]
  unfold text
  cases he : (number s).2 with
  -- the byte behind the number is the NUL: the length test already fails for 0
  | nil =>
      by_cases hneg : (number s).1 < 0
      · simp [hneg, nulCursor]
      · have hbig : (number s).1 > (nulCursor []).dataLen - 1 := by
          simp only [nulCursor, List.length_nil]
          omega
        simp [hneg, hbig]
  | cons b bs =>
      by_cases hneg : (number s).1 < 0
      · have hcond : ¬ (b = chr ':' ∧ 0 ≤ (number s).1 ∧ (number s).1 ≤ bs.length) := by omega
        simp [hneg, hcond]
      -- the length may not exceed the bytes behind the colon, in both
      · by_cases hbig : (number s).1 > (bs.length : Int)
        · have hcond : ¬ (b = chr ':' ∧ 0 ≤ (number s).1 ∧ (number s).1 ≤ bs.length) := by omega
          have hbig' : (number s).1 > (nulCursor (b :: bs)).dataLen - 1 := by
            simp only [nulCursor, List.length_cons]
            omega
          simp [hneg, hbig', hcond]
        · have hbig' : ¬ (number s).1 > (nulCursor (b :: bs)).dataLen - 1 := by
            simp only [nulCursor, List.length_cons]
            omega
          by_cases hb : b = chr ':'
          · have hcond : b = chr ':' ∧ 0 ≤ (number s).1 ∧ (number s).1 ≤ bs.length := by
              refine ⟨hb, by omega, by omega⟩
            have hle : (number s).1.toNat ≤ bs.length := by omega
            -- the NUL is behind the bytes that are copied
            have hread : readBytes (number s).1.toNat ((nulCursor (b :: bs)).data.drop 1) =
                .ok (bs.take (number s).1.toNat) := by
              have hle' : (number s).1.toNat ≤ bs.length + 1 := by omega
              simp [nulCursor, readBytes, hle', List.take_append_of_le_length hle]
            have hskip : (nulCursor (b :: bs)).skip ((number s).1.toNat + 1) =
                nulCursor (bs.drop (number s).1.toNat) := by
              simp only [nulCursor, Cursor.skip, List.cons_append, List.drop_succ_cons,
                List.drop_append_of_le_length hle, List.length_cons, List.length_drop,
                Cursor.mk.injEq, true_and]
              omega
            have hderef : deref (nulCursor (b :: bs)).data = .ok b := rfl
            rw [if_neg hneg, if_neg hbig', hderef, ok_bind, if_pos hb, hread, ok_bind, hskip]
            simp [hcond]
          · have hcond : ¬ (b = chr ':' ∧ 0 ≤ (number s).1 ∧ (number s).1 ≤ bs.length) := by
              simp [hb]
            have hcons : (nulCursor (b :: bs)).data = b :: (bs ++ [0]) := rfl
            simp [hneg, hbig', hcons, hb]

theorem nulCursor_eq_cons {b : UInt8} {bs s : List UInt8} {n : Int} (h : ⟨b :: bs, n⟩ = nulCursor s)
    (hb : n ≠ 0 ∨ b ≠ 0) : ∃ s', s = b :: s' ∧ (⟨bs, n - 1⟩ : Cursor) = nulCursor s' := by
  cases s with
  | nil =>
      simp only [nulCursor, List.nil_append, Cursor.mk.injEq, List.cons.injEq, List.length_nil,
        Nat.cast_zero] at h
      -- the NUL itself was not read: the length or the byte tells
      rcases hb with hn | hb
      · exact absurd h.2 hn
      · exact absurd h.1.1 hb
  | cons b' s' =>
      simp only [nulCursor, List.cons_append, Cursor.mk.injEq, List.cons.injEq,
        List.length_cons] at h
      rcases h with ⟨⟨rfl, rfl⟩, rfl⟩
      refine ⟨s', rfl, ?_⟩
      simp [nulCursor]

theorem nulCursor_head_ne {b : UInt8} {bs s : List UInt8} {n : Int}
    (h : ⟨b :: bs, n⟩ = nulCursor s) (hb : b ≠ chr 'e') : s.head? ≠ some (chr 'e') := by
  cases s with
  | nil =>
      simp
  | cons b' s' =>
      simp only [nulCursor, List.cons_append, Cursor.mk.injEq, List.cons.injEq] at h
      simpa [← h.1.1] using hb

/-- What a run over a packet and a NUL has read when it returns the node `t`. -/
def Goal.Reads : Goal → List UInt8 → BeNode → List UInt8 → Prop
  | .node, s, t, r => Loose s t r
  | .list l, s, t, r => ∃ m, t = .list (l ++ m) ∧ LooseItems s m r
  | .dict d, s, t, r => ∃ e, t = .dict (d ++ e) ∧ LoosePairs s e r

/-- The three ways a run over a packet and a NUL can end. -/
def NulResult (g : Goal) (s : List UInt8) (r : DecodeResult) : Prop :=
  r = .error .unassigned ∨ (∃ s', r = .ok (none, nulCursor s')) ∨
    ∃ t s', r = .ok (some t, nulCursor s') ∧ g.Reads s t s'

theorem NulResult.reads {g : Goal} {s : List UInt8} {t : BeNode} {c : Cursor}
    (h : NulResult g s (.ok (some t, c))) : ∃ s', c = nulCursor s' ∧ g.Reads s t s' := by
  rcases h with h | ⟨s', h⟩ | ⟨t', s', h, hreads⟩
  · cases h
  · cases h
  · cases h
    exact ⟨s', rfl, hreads⟩

theorem NulResult.rest {g g' : Goal} {s s' : List UInt8} {c : Cursor}
    (h : NulResult g s (.ok (none, c))) : NulResult g' s' (.ok (none, c)) := by
  rcases h with h | ⟨s', h⟩ | ⟨t', s', h, _⟩
  · cases h
  · exact .inr (.inl ⟨s', h⟩)
  · cases h

theorem NulResult.fault {g g' : Goal} {s s' : List UInt8} {e : Fault}
    (h : NulResult g s (.error e)) : NulResult g' s' (.error e) := by
  rcases h with h | ⟨s', h⟩ | ⟨t', s', h, _⟩
  · exact .inl h
  · cases h
  · cases h

/-- A run over a packet and a NUL stays inside the buffer and reads loosely. -/
theorem Decodes.nul {g : Goal} {c : Cursor} {r : DecodeResult} (h : Decodes g c r)
    {s : List UInt8} (hc : c = nulCursor s) : NulResult g s r := by
  induction h generalizing s with
  | noData bs =>
      exact .inr (.inl ⟨s, by rw [hc]⟩)
  -- there is always the NUL to read
  | past hn =>
      simp [nulCursor] at hc
  | list hn _ ih =>
      rcases nulCursor_eq_cons hc (.inl hn) with ⟨s', rfl, hc'⟩
      rcases ih hc' with h | h | ⟨t, r, h, m, rfl, hm⟩
      · exact .inl h
      · exact .inr (.inl h)
      · exact .inr (.inr ⟨_, r, h, .list hm⟩)
  | dict hn _ ih =>
      rcases nulCursor_eq_cons hc (.inl hn) with ⟨s', rfl, hc'⟩
      rcases ih hc' with h | h | ⟨t, r, h, e, rfl, he⟩
      · exact .inl h
      · exact .inr (.inl h)
      · exact .inr (.inr ⟨_, r, h, .dict he⟩)
  | int hn hi =>
      rcases nulCursor_eq_cons hc (.inl hn) with ⟨s', rfl, hc'⟩
      rw [hc', beDecodeInt_nul] at hi
      simp only [Except.ok.injEq, Prod.mk.injEq] at hi
      rcases nulCursor_eq_cons hi.2.symm (.inr (by decide)) with ⟨r, hr, hcr⟩
      refine .inr (.inr ⟨_, r, by rw [hcr], ?_⟩)
      rw [← hi.1]
      exact .int hr
  -- whatever number was read, the pointer is behind it in the packet
  | intBad hn hi hb =>
      rcases nulCursor_eq_cons hc (.inl hn) with ⟨s', rfl, hc'⟩
      rw [hc', beDecodeInt_nul] at hi
      simp only [Except.ok.injEq, Prod.mk.injEq] at hi
      exact .inr (.inl ⟨_, by rw [← hi.2]⟩)
  -- a NUL ends every number, so `strtoll` stays inside
  | intFault hn hi =>
      rcases nulCursor_eq_cons hc (.inl hn) with ⟨s', rfl, hc'⟩
      rw [hc', beDecodeInt_nul] at hi
      cases hi
  | str hn hb hs =>
      rcases nulCursor_eq_cons hc (.inl hn) with ⟨s', rfl, _⟩
      rw [hc, beDecodeStr_nul] at hs
      cases hs
      exact .inr (.inr ⟨_, _, rfl, .str hb⟩)
  | strFault hn hb hs =>
      rw [hc, beDecodeStr_nul] at hs
      cases hs
  | invalid hn hl hd hi hb =>
      exact .inr (.inl ⟨s, by rw [hc]⟩)
  | listPast =>
      simp [nulCursor] at hc
  | listDone =>
      rcases nulCursor_eq_cons hc (.inr (by decide)) with ⟨s', rfl, hc'⟩
      exact .inr (.inr ⟨_, s', by rw [hc'], [], by simp, .nil⟩)
  | listFault hb _ ih =>
      exact (ih hc).fault
  | listKill hb _ ih =>
      exact (ih hc).rest
  -- the entry is read, and the loop reads the rest from where the entry ends
  | listNext hb _ _ ihn ihl =>
      rcases (ihn hc).reads with ⟨s', hc', ht⟩
      rcases ihl hc' with h | h | ⟨t', r, h, m, rfl, hm⟩
      · exact .inl h
      · exact .inr (.inl h)
      · exact .inr (.inr ⟨_, r, h, _ :: m, by simp, .cons ht hm⟩)
  | dictPast =>
      simp [nulCursor] at hc
  | dictDone =>
      rcases nulCursor_eq_cons hc (.inr (by decide)) with ⟨s', rfl, hc'⟩
      exact .inr (.inr ⟨_, s', by rw [hc'], [], by simp, .nil⟩)
  | dictKeyFault hb hk =>
      rw [hc, beDecodeStr_nul] at hk
      cases hk
  | dictFault hb hk _ ih =>
      rw [hc, beDecodeStr_nul] at hk
      cases hk
      exact (ih rfl).fault
  | dictKill hb hk _ ih =>
      rw [hc, beDecodeStr_nul] at hk
      cases hk
      exact (ih rfl).rest
  -- the one fault that a NUL does not prevent
  | dictLost hb hk _ _ =>
      exact .inl rfl
  -- first the key, then as for a list
  | dictNext hb hk _ _ ihn ihd =>
      rw [hc, beDecodeStr_nul] at hk
      simp only [Except.ok.injEq, Prod.mk.injEq] at hk
      rcases (ihn hk.2.symm).reads with ⟨s', hc', ht⟩
      rcases ihd hc' with h | h | ⟨t', r, h, e, rfl, he⟩
      · exact .inl h
      · exact .inr (.inl h)
      · exact .inr (.inr ⟨_, r, h, _ :: e, by simp, .cons (Prod.ext hk.1 rfl) ht he⟩)

theorem nulCursor_cons (b : UInt8) (s : List UInt8) :
    nulCursor (b :: s) = ⟨b :: (nulCursor s).data, (nulCursor s).dataLen + 1⟩ := by
  simp [nulCursor]

theorem nulCursor_tail (s : List UInt8) :
    (⟨(nulCursor s).data, (nulCursor s).dataLen + 1 - 1⟩ : Cursor) = nulCursor s := by
  simp [nulCursor]

theorem nulCursor_dataLen_ne (s : List UInt8) : (nulCursor s).dataLen + 1 ≠ 0 := by
  simp only [nulCursor]
  omega

theorem text_head_ne {s s' k : List UInt8} (hk : text s = (some k, s')) :
    ∃ b s₁, s = b :: s₁ ∧ b ≠ chr 'e' := by
  cases s with
  | nil =>
      simp [text, number, afterSign, skipSign] at hk
  | cons b s₁ =>
      refine ⟨b, s₁, rfl, ?_⟩
      rintro rfl
      rw [text_e] at hk
      cases hk

mutual

/-- Every loose reading is a run over the packet and a NUL. -/
theorem Loose.decodes {s r : List UInt8} {t : BeNode} :
    Loose s t r → Decodes .node (nulCursor s) (.ok (some t, nulCursor r))
  -- a number that ends in front of an `e`
  | .int (s := s) h => by
      have hi : beDecodeInt ⟨(nulCursor s).data, (nulCursor s).dataLen + 1 - 1⟩ =
          .ok ((number s).1, ⟨chr 'e' :: (nulCursor r).data, (nulCursor r).dataLen + 1⟩) := by
        rw [nulCursor_tail, beDecodeInt_nul, h, nulCursor_cons]
      have hrun := Decodes.int (nulCursor_dataLen_ne s) hi
      rw [nulCursor_tail r] at hrun
      rw [nulCursor_cons]
      exact hrun
  | .str (b := b) (s := s) hb => by
      have hs := beDecodeStr_nul (b :: s)
      rw [nulCursor_cons] at hs ⊢
      exact .str (nulCursor_dataLen_ne s) hb hs
  -- the loop starts with no entries
  | .list (s := s) h => by
      have hrun := h.decodes []
      rw [nulCursor_cons]
      exact .list (nulCursor_dataLen_ne s) (by simpa using hrun)
  | .dict (s := s) h => by
      have hrun := h.decodes []
      rw [nulCursor_cons]
      exact .dict (nulCursor_dataLen_ne s) (by simpa using hrun)

theorem LooseItems.decodes {s r : List UInt8} {l : List BeNode} :
    LooseItems s l r → ∀ m, Decodes (.list m) (nulCursor s) (.ok (some (.list (m ++ l)), nulCursor r))
  | .nil, m => by
      have hdone := @Decodes.listDone m (nulCursor r).data ((nulCursor r).dataLen + 1)
      rw [nulCursor_cons]
      simpa using hdone
  -- the entry is appended to those before it
  | .cons (t := t) ht hl, m => by
      rcases ht.head_ne with ⟨b, s₁, rfl, hb⟩
      have hrun := ht.decodes
      have hrest := hl.decodes (m ++ [t])
      rw [nulCursor_cons] at hrun ⊢
      exact .listNext hb hrun (by simpa using hrest)

theorem LoosePairs.decodes {s r : List UInt8} {d : List (List UInt8 × BeNode)} :
    LoosePairs s d r → ∀ e, Decodes (.dict e) (nulCursor s) (.ok (some (.dict (e ++ d)), nulCursor r))
  | .nil, e => by
      have hdone := @Decodes.dictDone e (nulCursor r).data ((nulCursor r).dataLen + 1)
      rw [nulCursor_cons]
      simpa using hdone
  | .cons (k := k) (t := t) hk ht hd, e => by
      rcases text_head_ne hk with ⟨b, s₁, rfl, hb⟩
      have hkey := beDecodeStr_nul (b :: s₁)
      have hrun := ht.decodes
      have hrest := hd.decodes (e ++ [(k, t)])
      rw [hk] at hkey
      rw [nulCursor_cons] at hkey ⊢
      exact .dictNext hb hkey hrun (by simpa using hrest)

end

/-- A node takes at least one byte. -/
theorem Loose.length_lt {s r : List UInt8} {t : BeNode} (h : Loose s t r) :
    r.length < s.length := by
  have hadv := (h.decodes.advance rfl).2 (by simp)
  simpa [nulCursor] using hadv

theorem text_length_lt {s s' k : List UInt8} (hk : text s = (some k, s')) :
    s'.length < s.length := by
  have hnum := (number_suffix s).length_le
  unfold text at hk
  split at hk
  · cases hk
  · rename_i b bs hcons
    rw [hcons, List.length_cons] at hnum
    split at hk
    · cases hk
      -- the colon at least is taken
      rw [List.length_drop]
      omega
    · cases hk

/-- An entry of a dictionary takes at least two bytes, and the `e` behind them one more. -/
theorem LoosePairs.length_le {s r : List UInt8} {d : List (List UInt8 × BeNode)} :
    LoosePairs s d r → r.length + 2 * d.length + 1 ≤ s.length
  | .nil => by
      simp
  | .cons hk ht hd => by
      have hkey := text_length_lt hk
      have hval := ht.length_lt
      have hrest := hd.length_le
      rw [List.length_cons]
      omega

/-- On a packet and a NUL, the decoder returns a node exactly for a loose reading. -/
theorem decodes_nul_iff {s : List UInt8} {t : BeNode} {c : Cursor} :
    Decodes .node (nulCursor s) (.ok (some t, c)) ↔ ∃ r, c = nulCursor r ∧ Loose s t r := by
  constructor
  · intro h
    exact (h.nul rfl).reads
  · rintro ⟨r, rfl, h⟩
    exact h.decodes

/-! ## The format is read as it is written -/

theorem OpenNumber.number_snd {s : List UInt8} (h : OpenNumber s) :
    (number s).2 = [] ∨ (number s).2 = s := by
  simp only [number]
  -- without digits nothing is consumed, with digits everything is
  split
  · exact .inr rfl
  · exact .inl h

theorem beDecodeInt_ofInt {i : Int} (hlo : llongMin ≤ i) (hhi : i ≤ llongMax) (z : List UInt8)
    (n : Int) : beDecodeInt ⟨ofInt i ++ chr 'e' :: z, n⟩ =
      .ok (i, ⟨chr 'e' :: z, n - (ofInt i).length⟩) := by
  have hnum := number_ofInt hlo hhi (c := chr 'e') (by decide) z
  -- an open number would have consumed all or nothing
  have hopen : ¬ OpenNumber (ofInt i ++ chr 'e' :: z) := by
    intro hopen
    rcases hopen.number_snd with h | h
    · rw [hnum] at h
      cases h
    · rw [hnum] at h
      have hnil : ofInt i = [] := by simpa using h
      exact ofInt_ne_nil i hnil
  rw [beDecodeInt_eq]
  simp only [hopen, if_false, hnum, List.length_append, List.length_cons]
  congr 3
  omega

theorem beDecodeStr_bencoded {u k : List UInt8} (h : BencodedString u k)
    (hmax : (u.length : Int) ≤ llongMax) (z : List UInt8) {n : Int} (hn : (u.length : Int) ≤ n) :
    beDecodeStr ⟨u ++ z, n⟩ = .ok (some k, ⟨z, n - u.length⟩) := by
  rcases h with @⟨ds, _, hne, hds, hlen⟩
  cases ds with
  | nil =>
      exact absurd rfl hne
  | cons d ds =>
      -- the colon ends the digits
      have hstop := takeWhile_append_stop hds (c := chr ':') (by decide) (k ++ z)
      have hd : isDigit d = true := hds d (by simp)
      have htake : ds = (ds ++ chr ':' :: (k ++ z)).takeWhile isDigit := by
        have := hstop.1
        simp only [List.cons_append, hd, List.takeWhile_cons_of_pos, List.cons.injEq,
          true_and] at this
        exact this.symm
      have hdrop : (ds ++ chr ':' :: (k ++ z)).dropWhile isDigit = chr ':' :: (k ++ z) := by
        have := hstop.2
        simpa only [List.cons_append, hd, List.dropWhile_cons_of_pos] using this
      simp only [List.length_append, List.length_cons] at hmax hn
      -- the length of a string in a packet is within `long long`
      have hnum : number (d :: (ds ++ chr ':' :: (k ++ z))) =
          ((k.length : Int), chr ':' :: (k ++ z)) := by
        rw [number_of_isDigit hd, ← htake, hdrop, hlen, clampLL_of_mem]
        · rw [llongMin]
          omega
        · omega
      -- the colon and what follows it are left, so the number is closed
      have hopen : ¬ OpenNumber (d :: (ds ++ chr ':' :: (k ++ z))) := by
        intro hopen
        rcases hopen.number_snd with h | h
        · rw [hnum] at h
          cases h
        · rw [hnum] at h
          have := congrArg List.length h
          simp at this
          omega
      have hint : beDecodeInt ⟨(d :: ds ++ chr ':' :: k) ++ z, n⟩ =
          .ok ((k.length : Int), ⟨chr ':' :: (k ++ z), n - (ds.length + 1)⟩) := by
        have hassoc : (d :: ds ++ chr ':' :: k) ++ z = d :: (ds ++ chr ':' :: (k ++ z)) := by simp
        rw [hassoc, beDecodeInt_eq]
        simp only [hopen, if_false, hnum, List.length_append, List.length_cons]
        congr 3
        omega
      have hneg : ¬ (k.length : Int) < 0 := by omega
      -- the length that is left covers the colon and the bytes
      have hbig : ¬ (k.length : Int) > n - (ds.length + 1) - 1 := by omega
      have hread : k.length ≤ (k ++ z).length := by simp
      simp only [beDecodeStr, hint, ok_bind, hneg, hbig, if_false, deref_cons, if_true,
        Int.toNat_natCast, List.drop_one, List.tail_cons, readBytes, hread, pure_eq_ok]
      simp only [List.take_left', Cursor.skip, List.drop_succ_cons, List.drop_left',
        Except.ok.injEq, Prod.mk.injEq, Cursor.mk.injEq, true_and, List.length_append,
        List.length_cons]
      omega

theorem Bencoded.head_ne {w : List UInt8} {t : BeNode} (h : Bencoded w t) :
    ∃ b w', w = b :: w' ∧ b ≠ chr 'e' := by
  cases h with
  | int _ _ =>
      exact ⟨_, _, rfl, by decide⟩
  | str hs =>
      rcases hs with @⟨ds, _, hne, hds, _⟩
      cases ds with
      | nil =>
          exact absurd rfl hne
      | cons d ds =>
          refine ⟨d, _, rfl, ?_⟩
          rintro rfl
          exact absurd (hds (chr 'e') (by simp)) (by decide)
  | list _ =>
      exact ⟨_, _, rfl, by decide⟩
  | dict _ =>
      exact ⟨_, _, rfl, by decide⟩

theorem BencodedString.head_digit {u k : List UInt8} (h : BencodedString u k) :
    ∃ b u', u = b :: u' ∧ isDigit b = true := by
  rcases h with @⟨ds, _, hne, hds, _⟩
  cases ds with
  | nil =>
      exact absurd rfl hne
  | cons d ds =>
      exact ⟨d, _, rfl, hds d (by simp)⟩

mutual

/-- The bencoded text of a tree decodes to that tree and nothing behind it is touched. -/
theorem Bencoded.decodes {w : List UInt8} {t : BeNode} :
    Bencoded w t → (w.length : Int) ≤ llongMax → ∀ (z : List UInt8) (n : Int),
      (w.length : Int) ≤ n → Decodes .node ⟨w ++ z, n⟩ (.ok (some t, ⟨z, n - w.length⟩))
  -- `i` and `e` around the digits
  | .int (i := i) hlo hhi => by
      intro _ z n hn
      have hlen : (chr 'i' :: (ofInt i ++ [chr 'e'])).length = (ofInt i).length + 2 := by simp
      rw [hlen] at hn ⊢
      have hint := beDecodeInt_ofInt hlo hhi z (n - 1)
      have hrun := Decodes.int (n := n) (by omega) hint
      have hrest : n - 1 - (ofInt i).length - 1 = n - ((ofInt i).length + 2 : Nat) := by omega
      rw [hrest] at hrun
      simpa using hrun
  | .str hs => by
      intro hmax z n hn
      rcases hs.head_digit with ⟨b, u', rfl, hb⟩
      have hstr := beDecodeStr_bencoded hs hmax z hn
      refine .str ?_ hb hstr
      simp only [List.length_cons] at hn
      omega
  -- the tag, the entries and the `e` add up to the length
  | .list (w := w) hl => by
      intro hmax z n hn
      have hlen : (chr 'l' :: (w ++ [chr 'e'])).length = w.length + 2 := by simp
      rw [hlen] at hmax hn ⊢
      have hrun := hl.decodes (by omega) [] z (n - 1) (by omega)
      have hrest : n - 1 - w.length - 1 = n - (w.length + 2 : Nat) := by omega
      rw [hrest] at hrun
      simpa using Decodes.list (n := n) (by omega) hrun
  | .dict (w := w) hd => by
      intro hmax z n hn
      have hlen : (chr 'd' :: (w ++ [chr 'e'])).length = w.length + 2 := by simp
      rw [hlen] at hmax hn ⊢
      have hrun := hd.decodes (by omega) [] z (n - 1) (by omega)
      have hrest : n - 1 - w.length - 1 = n - (w.length + 2 : Nat) := by omega
      rw [hrest] at hrun
      simpa using Decodes.dict (n := n) (by omega) hrun

theorem BencodedItems.decodes {w : List UInt8} {l : List BeNode} :
    BencodedItems w l → (w.length : Int) + 1 ≤ llongMax → ∀ (m : List BeNode) (z : List UInt8)
      (n : Int), (w.length : Int) + 1 ≤ n →
      Decodes (.list m) ⟨w ++ chr 'e' :: z, n⟩ (.ok (some (.list (m ++ l)), ⟨z, n - w.length - 1⟩))
  | .nil => by
      intro _ m z n _
      simpa using @Decodes.listDone m z n
  -- the entry leaves the text of the rest, and the length for it
  | @BencodedItems.cons w w' t _ ht hl => by
      intro hmax m z n hn
      rcases ht.head_ne with ⟨b, w₁, hw, hb⟩
      simp only [List.length_append] at hmax hn
      have hrun := ht.decodes (by omega) (w' ++ chr 'e' :: z) n (by omega)
      have hrest := hl.decodes (by omega) (m ++ [t]) z (n - w.length) (by omega)
      have hlen : n - w.length - w'.length - 1 = n - (w ++ w').length - 1 := by
        simp only [List.length_append]
        omega
      rw [hlen, List.append_assoc] at hrest
      rw [List.append_assoc]
      rw [hw, List.cons_append] at hrun hrest ⊢
      exact .listNext hb hrun hrest

theorem BencodedPairs.decodes {w : List UInt8} {d : List (List UInt8 × BeNode)} :
    BencodedPairs w d → (w.length : Int) + 1 ≤ llongMax →
      ∀ (e : List (List UInt8 × BeNode)) (z : List UInt8) (n : Int), (w.length : Int) + 1 ≤ n →
      Decodes (.dict e) ⟨w ++ chr 'e' :: z, n⟩ (.ok (some (.dict (e ++ d)), ⟨z, n - w.length - 1⟩))
  | .nil => by
      intro _ e z n _
      simpa using @Decodes.dictDone e z n
  | @BencodedPairs.cons u w w' k t _ hu ht hd => by
      intro hmax e z n hn
      rcases hu.head_digit with ⟨b, u₁, hub, hb⟩
      -- a key starts with a digit, so it does not end the loop
      have hbe : b ≠ chr 'e' := by
        rintro rfl
        exact absurd hb (by decide)
      simp only [List.length_append] at hmax hn
      have hkey := beDecodeStr_bencoded hu (by omega) (w ++ (w' ++ chr 'e' :: z)) (n := n) (by omega)
      have hrun := ht.decodes (by omega) (w' ++ chr 'e' :: z) (n - u.length) (by omega)
      have hrest := hd.decodes (by omega) (e ++ [(k, t)]) z (n - u.length - w.length) (by omega)
      have hlen : n - u.length - w.length - w'.length - 1 = n - (u ++ (w ++ w')).length - 1 := by
        simp only [List.length_append]
        omega
      rw [hlen, List.append_assoc] at hrest
      rw [List.append_assoc, List.append_assoc]
      rw [hub, List.cons_append] at hkey hrest ⊢
      rw [hub] at hrun
      exact .dictNext hbe hkey hrun hrest

end

/-- What starts with the bencoded text of a tree is read as that tree. -/
theorem Bencoded.loose {w : List UInt8} {t : BeNode} (h : Bencoded w t) {z : List UInt8}
    (hmax : ((w ++ z).length : Int) ≤ llongMax) : Loose (w ++ z) t z := by
  have hw : (w.length : Int) ≤ (w ++ z).length := by simp
  have hrun := h.decodes (by omega) (z ++ [0]) (w ++ z).length hw
  have hcur : nulCursor (w ++ z) = ⟨w ++ (z ++ [0]), (w ++ z).length⟩ := by simp [nulCursor]
  -- a run that returns a node is a loose reading, and its rest is what was left of the packet
  rw [← hcur] at hrun
  rcases decodes_nul_iff.1 hrun with ⟨r, hr, hloose⟩
  have hz : z = r := by simpa [nulCursor] using congrArg Cursor.data hr
  rw [hz]
  rwa [hz] at hloose

theorem Loose.rest_unique {s r r' : List UInt8} {t t' : BeNode} (h : Loose s t r)
    (h' : Loose s t' r') : t = t' ∧ r = r' := by
  -- both readings are runs of the decoder from the same place
  have hrun := h.decodes.unique h'.decodes
  simp only [Except.ok.injEq, Prod.mk.injEq, Option.some.injEq] at hrun
  refine ⟨hrun.1, ?_⟩
  simpa [nulCursor] using congrArg Cursor.data hrun.2

theorem beDecoden_nul_iff {b : List UInt8} {t : BeNode} :
    beDecoden (b ++ [0]) b.length = .ok (some t) ↔ ∃ r, Loose b t r := by
  rw [beDecoden_eq_ok_iff]
  constructor
  · rintro ⟨c, hrun⟩
    rcases decodes_nul_iff.1 hrun with ⟨r, _, h⟩
    exact ⟨r, h⟩
  · rintro ⟨r, h⟩
    exact ⟨nulCursor r, h.decodes⟩

end BitDht
