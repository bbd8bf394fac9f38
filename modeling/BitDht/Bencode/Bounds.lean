import BitDht.Bencode.Visits

/-!
# Bounds — where the decoder stops

A buffer that ends with the packet shows every read past the packet as a fault.  The decoder runs
into that fault exactly on the packets that are cut short, and on all others neither its result nor
how far it reads depends on the bytes behind the packet.  What is left is one fault, and it needs a
dictionary entry without a key (`beDecoden_eq_of_complete`, `readsPacketOnly_iff`).
-/

namespace BitDht

open Decimal Outcome

/-- The pointer at the packet bytes `s` in a buffer that ends with the packet. -/
def packetCursor (s : List UInt8) : Cursor :=
  { data := s, dataLen := s.length }

theorem extend_packetCursor (s : List UInt8) : (packetCursor s).extend [0] = nulCursor s := rfl

theorem packetCursor_cons (b : UInt8) (s : List UInt8) :
    packetCursor (b :: s) = ⟨b :: s, (s.length : Int) + 1⟩ := by
  simp [packetCursor]

theorem packetCursor_eq_cons {b : UInt8} {bs s : List UInt8} {n : Int}
    (h : ⟨b :: bs, n⟩ = packetCursor s) :
    s = b :: bs ∧ (⟨bs, n - 1⟩ : Cursor) = packetCursor bs := by
  simp only [packetCursor, Cursor.mk.injEq] at h
  rcases h with ⟨rfl, rfl⟩
  refine ⟨rfl, ?_⟩
  simp [packetCursor]

theorem eq_packetCursor_of_extend {c : Cursor} {s : List UInt8} (h : c.extend [0] = nulCursor s) :
    c = packetCursor s := by
  rcases c with ⟨data, n⟩
  simp only [Cursor.extend, nulCursor, Cursor.mk.injEq, List.append_cancel_right_eq] at h
  rcases h with ⟨rfl, rfl⟩
  rfl

/-! ## Strings and nodes at the end of the buffer -/

theorem beDecodeStr_packet (s : List UInt8) :
    beDecodeStr (packetCursor s) = if OpenNumber s then .error .overread
      else .ok ((text s).1, packetCursor (text s).2) := by
  -- inside the packet the read is the one with a NUL behind it
  have hnul := beDecodeStr_nul s
  rcases hrun : beDecodeStr (packetCursor s) with e | ⟨k, c⟩
  · rcases beDecodeStr_cases hrun with ⟨hopen, hr⟩ | ⟨len, c', hint, ⟨_, hr⟩ | ⟨_, _, _, hr⟩ | hread⟩
    · have hopen' : OpenNumber s := hopen
      simp [hr, hopen']
    · cases hr
    · cases hr
    -- the length test keeps the copy inside the packet
    · rcases hread with ⟨bs, _, hlen, hdata, hr⟩
      have hadv := (beDecodeInt_advance hint).dataLen
      simp only [packetCursor, hdata, List.length_cons] at hadv
      have hle : len.toNat ≤ bs.length := by omega
      simp [hle] at hr
  · have hopen : ¬ OpenNumber s := by
      intro hopen
      simp [beDecodeStr, beDecodeInt_eq, packetCursor, hopen] at hrun
    have hext := beDecodeStr_extend hrun [0]
    rw [extend_packetCursor, hnul] at hext
    simp only [Except.ok.injEq, Prod.mk.injEq] at hext
    rw [if_neg hopen, hext.1, eq_packetCursor_of_extend hext.2.symm]

/-- A node read inside the packet is read as it is with a NUL behind the packet. -/
theorem Decodes.packet_loose {s : List UInt8} {t : BeNode} {c : Cursor}
    (h : Decodes .node (packetCursor s) (.ok (some t, c))) :
    ∃ r, c = packetCursor r ∧ Loose s t r := by
  -- a run that stays inside the packet does not see the NUL
  have hext := h.extend (by simp) [0]
  rw [extend_packetCursor] at hext
  rcases decodes_nul_iff.1 hext with ⟨r, hc, hloose⟩
  exact ⟨r, eq_packetCursor_of_extend hc, hloose⟩

theorem Loose.packet {s r : List UInt8} {t : BeNode} (h : Loose s t r) :
    Decodes .node (packetCursor s) (.error .overread) ∨
      Decodes .node (packetCursor s) (.ok (some t, packetCursor r)) := by
  have hrun : Decodes .node (packetCursor s) (beDecodenAt s s.length) := beDecodenAt_eq_iff.1 rfl
  -- if the run stays inside the packet, it must agree with the run over the NUL
  by_cases hpast : beDecodenAt s s.length = .error .overread
  · left
    rwa [hpast] at hrun
  · right
    have heq := (hrun.extend hpast [0]).unique h.decodes
    rcases hres : beDecodenAt s s.length with e | ⟨t', c⟩
    · rw [hres] at heq
      cases heq
    · rw [hres] at heq hrun
      simp only [extendResult, Except.ok.injEq, Prod.mk.injEq] at heq
      rwa [heq.1, eq_packetCursor_of_extend heq.2] at hrun

/-! ## Running off the end -/

def Goal.Cut : Goal → List UInt8 → Prop
  | .node, s => CutShort s
  | .list _, s => CutItems s
  | .dict _, s => CutPairs s

/-- Where a run is cut short later, the packet is cut short where the run comes from. -/
theorem Enters.cut {p q : Goal × Cursor} (h : Enters p q) {s : List UInt8}
    (hp : p.2 = packetCursor s) : ∃ s', q.2 = packetCursor s' ∧ (q.1.Cut s' → p.1.Cut s) := by
  cases h with
  | list hn =>
      rcases packetCursor_eq_cons hp with ⟨rfl, hs'⟩
      exact ⟨_, hs', fun h => .list h⟩
  | dict hn =>
      rcases packetCursor_eq_cons hp with ⟨rfl, hs'⟩
      exact ⟨_, hs', fun h => .dict h⟩
  | item hb =>
      exact ⟨s, hp, fun h => .item h⟩
  -- the entries before the fault were read inside the packet
  | next hb ht =>
      dsimp only at hp
      rw [hp] at ht
      rcases ht.packet_loose with ⟨s', hs', hread⟩
      exact ⟨s', hs', fun h => .next hread h⟩
  | val hb hk =>
      rcases packetCursor_eq_cons hp with ⟨rfl, -⟩
      dsimp only at hp
      rw [hp, beDecodeStr_packet] at hk
      split at hk
      · cases hk
      · rename_i hopen
        cases hk
        exact ⟨_, rfl, fun h => .val (by simpa using hb) hopen h⟩
  | nextPair hb hk ht =>
      dsimp only at hp
      rw [hp, beDecodeStr_packet] at hk
      split at hk
      · cases hk
      · simp only [Except.ok.injEq, Prod.mk.injEq] at hk
        rw [← hk.2] at ht
        rcases ht.packet_loose with ⟨s', hs', hread⟩
        exact ⟨s', hs', fun h => .next (Prod.ext hk.1 rfl) hread h⟩

theorem StopsAt.cut {p : Goal × Cursor} (h : StopsAt p .overread) {s : List UInt8}
    (hp : p.2 = packetCursor s) : p.1.Cut s := by
  cases h with
  -- at a node the length is zero when the bytes are used up, so this read is prevented
  | past hn =>
      simp only [packetCursor, Cursor.mk.injEq] at hp
      rcases hp with ⟨rfl, rfl⟩
      exact absurd rfl hn
  | int hn hi =>
      rcases packetCursor_eq_cons hp with ⟨rfl, -⟩
      rw [beDecodeInt_eq] at hi
      split at hi
      · rename_i hopen
        exact .int hopen
      · cases hi
  | str hb hs =>
      rcases packetCursor_eq_cons hp with ⟨rfl, -⟩
      dsimp only at hp
      rw [hp, beDecodeStr_packet] at hs
      split at hs
      · rename_i hopen
        rw [OpenNumber, afterSign_of_isDigit hb] at hopen
        -- the number is open when nothing but digits follows
        have hall := List.dropWhile_eq_nil_iff.1 hopen
        exact .str hb (fun x hx => hall x (by simp [hx]))
      · cases hs
  | listPast =>
      simp only [packetCursor, Cursor.mk.injEq] at hp
      rcases hp with ⟨rfl, -⟩
      exact .nil
  | dictPast =>
      simp only [packetCursor, Cursor.mk.injEq] at hp
      rcases hp with ⟨rfl, -⟩
      exact .nil
  | key hb hk =>
      rcases packetCursor_eq_cons hp with ⟨rfl, -⟩
      dsimp only at hp
      rw [hp, beDecodeStr_packet] at hk
      split at hk
      · rename_i hopen
        exact .key (by simp) hopen
      · cases hk

/-- Only packets that are cut short make the decoder run off their end. -/
theorem Decodes.cut {g : Goal} {c : Cursor} {r : DecodeResult} (h : Decodes g c r)
    (hr : r = .error .overread) {s : List UInt8} (hc : c = packetCursor s) : g.Cut s := by
  rcases h.stops hr with ⟨p, hp, hstop⟩
  exact Visits.back Enters.cut hp hstop.cut hc

theorem OpenNumber.head_ne {s : List UInt8} (hne : s ≠ []) (h : OpenNumber s) :
    ∃ b s', s = b :: s' ∧ b ≠ chr 'e' := by
  cases s with
  | nil =>
      exact absurd rfl hne
  | cons b s' =>
      refine ⟨b, s', rfl, ?_⟩
      -- an `e` is no part of a number, so the number in front of it is closed
      rintro rfl
      exact (number_of_stop (by decide) (by decide) (by decide) (by decide) s').2 h

mutual

/-- Every packet that is cut short makes the decoder run off its end. -/
theorem CutShort.decodes {s : List UInt8} :
    CutShort s → Decodes .node (packetCursor s) (.error .overread)
  | .int (s := s) h => by
      rw [packetCursor_cons]
      refine .intFault (by omega) ?_
      simp [beDecodeInt_eq, h]
  | .str (b := b) (s := s) hb hs => by
      have hopen : OpenNumber (b :: s) := by
        rw [OpenNumber, afterSign_of_isDigit hb]
        exact List.dropWhile_eq_nil_iff.2 (by simpa [hb] using hs)
      have hstr := beDecodeStr_packet (b :: s)
      rw [if_pos hopen, packetCursor_cons] at hstr
      rw [packetCursor_cons]
      exact .strFault (by omega) hb hstr
  | .list (s := s) h => by
      have hrun := h.decodes []
      rw [packetCursor_cons]
      exact .list (by omega) (by simpa [packetCursor] using hrun)
  | .dict (s := s) h => by
      have hrun := h.decodes []
      rw [packetCursor_cons]
      exact .dict (by omega) (by simpa [packetCursor] using hrun)

theorem CutItems.decodes {s : List UInt8} :
    CutItems s → ∀ l, Decodes (.list l) (packetCursor s) (.error .overread)
  | .nil, l => .listPast
  | .item h, l => by
      have hrun := h.decodes
      rcases h.head_ne with ⟨b, s₁, rfl, hb⟩
      exact .listFault hb hrun
  | .next (t := t) ht hs, l => by
      have hrest := hs.decodes (l ++ [t])
      rcases ht.head_ne with ⟨b, s₁, rfl, hb⟩
      -- an entry may itself run off the end; then the loop does so earlier
      rcases ht.packet with hpast | hrun
      · exact .listFault hb hpast
      · exact .listNext hb hrun hrest

theorem CutPairs.decodes {s : List UInt8} :
    CutPairs s → ∀ d, Decodes (.dict d) (packetCursor s) (.error .overread)
  | .nil, d => .dictPast
  | .key hne h, d => by
      have hkey := beDecodeStr_packet s
      rw [if_pos h] at hkey
      rcases h.head_ne hne with ⟨b, s₁, rfl, hb⟩
      exact .dictKeyFault hb hkey
  | .val he h hv, d => by
      have hrun := hv.decodes
      have hkey := beDecodeStr_packet s
      rw [if_neg h] at hkey
      cases s with
      | nil =>
          exact absurd rfl h
      | cons b s₁ =>
          exact .dictFault (by simpa using he) hkey hrun
  | .next (k := k) (t := t) hk ht hs, d => by
      have hrest := hs.decodes (d ++ [(k, t)])
      have hkey := beDecodeStr_packet s
      rcases text_head_ne hk with ⟨b, s₁, rfl, hb⟩
      -- the key, too, may run off the end
      by_cases hopen : OpenNumber (b :: s₁)
      · rw [if_pos hopen] at hkey
        exact .dictKeyFault hb hkey
      · rw [if_neg hopen, hk] at hkey
        rcases ht.packet with hpast | hrun
        · exact .dictFault hb hkey hpast
        · exact .dictNext hb hkey hrun hrest

end

/-- The decoder runs off the end of a buffer that ends with the packet exactly when the packet is
cut short. -/
theorem decodes_packet_overread_iff {s : List UInt8} :
    Decodes .node (packetCursor s) (.error .overread) ↔ CutShort s :=
  ⟨fun h => h.cut rfl rfl, CutShort.decodes⟩

/-! ## Dictionary entries without a key -/

mutual

/-- The packet holds a dictionary entry whose value can be read but whose key cannot. -/
inductive LostKey : List UInt8 → Prop
  | list {s : List UInt8} : LostItems s → LostKey (chr 'l' :: s)
  | dict {s : List UInt8} : LostPairs s → LostKey (chr 'd' :: s)

inductive LostItems : List UInt8 → Prop
  | item {s : List UInt8} : LostKey s → LostItems s
  | next {s s' : List UInt8} {t : BeNode} : Loose s t s' → LostItems s' → LostItems s

inductive LostPairs : List UInt8 → Prop
  | key {s r : List UInt8} {t : BeNode} (he : s.head? ≠ some (chr 'e'))
      (hk : (text s).1 = none) : Loose (text s).2 t r → LostPairs s
  | val {s : List UInt8} (he : s.head? ≠ some (chr 'e')) : LostKey (text s).2 → LostPairs s
  | next {s s' s'' k : List UInt8} {t : BeNode} (hk : text s = (some k, s')) : Loose s' t s'' →
      LostPairs s'' → LostPairs s

end

def Goal.Lost : Goal → List UInt8 → Prop
  | .node, s => LostKey s
  | .list _, s => LostItems s
  | .dict _, s => LostPairs s

/-- A lost key that a run comes to later has been lost where the run comes from. -/
theorem Enters.lost {p q : Goal × Cursor} (h : Enters p q) {s : List UInt8} (hp : p.2 = nulCursor s) :
    ∃ s', q.2 = nulCursor s' ∧ (q.1.Lost s' → p.1.Lost s) := by
  cases h with
  | list hn =>
      rcases nulCursor_eq_cons hp (.inl hn) with ⟨s', rfl, hs'⟩
      exact ⟨s', hs', fun h => .list h⟩
  | dict hn =>
      rcases nulCursor_eq_cons hp (.inl hn) with ⟨s', rfl, hs'⟩
      exact ⟨s', hs', fun h => .dict h⟩
  | item hb =>
      exact ⟨s, hp, fun h => .item h⟩
  | next hb ht =>
      rcases (ht.nul hp).reads with ⟨s', hs', hread⟩
      exact ⟨s', hs', fun h => .next hread h⟩
  | val hb hk =>
      have he := nulCursor_head_ne hp hb
      dsimp only at hp
      rw [hp, beDecodeStr_nul] at hk
      cases hk
      exact ⟨_, rfl, fun h => .val he h⟩
  -- the key of this entry is there, so the lost one comes later
  | nextPair hb hk ht =>
      dsimp only at hp
      rw [hp, beDecodeStr_nul] at hk
      simp only [Except.ok.injEq, Prod.mk.injEq] at hk
      rcases (ht.nul hk.2.symm).reads with ⟨s', hs', hread⟩
      exact ⟨s', hs', fun h => .next (Prod.ext hk.1 rfl) hread h⟩

theorem LostAt.lost {p : Goal × Cursor} (h : LostAt p) {s : List UInt8} (hp : p.2 = nulCursor s) :
    p.1.Lost s := by
  cases h with
  | dict hb hk ht =>
      have he := nulCursor_head_ne hp hb
      dsimp only at hp
      rw [hp, beDecodeStr_nul] at hk
      simp only [Except.ok.injEq, Prod.mk.injEq] at hk
      rcases (ht.nul hk.2.symm).reads with ⟨s', -, hread⟩
      exact .key he hk.1 hread

/-- Only a lost key makes the cleanup of the decoder read a slot that was never assigned. -/
theorem Decodes.lost {g : Goal} {c : Cursor} {r : DecodeResult} (h : Decodes g c r)
    (hr : r = .error .unassigned) {s : List UInt8} (hc : c = nulCursor s) : g.Lost s := by
  rcases h.stops hr with ⟨p, hp, hstop⟩
  exact Visits.back Enters.lost hp hstop.lostAt.lost hc

theorem LostKey.head_ne {s : List UInt8} (h : LostKey s) : ∃ b s', s = b :: s' ∧ b ≠ chr 'e' := by
  cases h with
  | list _ =>
      exact ⟨_, _, rfl, by decide⟩
  | dict _ =>
      exact ⟨_, _, rfl, by decide⟩

/-- A key that something can be read behind starts somewhere. -/
theorem cons_of_text_snd {s s' : List UInt8} {b : UInt8} (he : s.head? ≠ some (chr 'e'))
    (h : (text s).2 = b :: s') : ∃ b' s₁, s = b' :: s₁ ∧ b' ≠ chr 'e' := by
  -- what follows the key is a part of what starts with it
  have hsuffix := text_snd_suffix s
  rw [h] at hsuffix
  cases s with
  | nil =>
      simp at hsuffix
  | cons b' s₁ =>
      exact ⟨b', s₁, rfl, by simpa using he⟩

mutual

/-- Every lost key makes the cleanup of the decoder read a slot that was never assigned. -/
theorem LostKey.decodes {s : List UInt8} :
    LostKey s → Decodes .node (nulCursor s) (.error .unassigned)
  | .list (s := s) h => by
      have hrun := h.decodes []
      rw [nulCursor_cons]
      exact .list (nulCursor_dataLen_ne s) (by rwa [nulCursor_tail])
  | .dict (s := s) h => by
      have hrun := h.decodes []
      rw [nulCursor_cons]
      exact .dict (nulCursor_dataLen_ne s) (by rwa [nulCursor_tail])

theorem LostItems.decodes {s : List UInt8} :
    LostItems s → ∀ l, Decodes (.list l) (nulCursor s) (.error .unassigned)
  | .item h, l => by
      have hrun := h.decodes
      rcases h.head_ne with ⟨b, s₁, rfl, hb⟩
      exact .listFault hb hrun
  | .next (t := t) ht hs, l => by
      have hrest := hs.decodes (l ++ [t])
      have hrun := ht.decodes
      rcases ht.head_ne with ⟨b, s₁, rfl, hb⟩
      exact .listNext hb hrun hrest

theorem LostPairs.decodes {s : List UInt8} :
    LostPairs s → ∀ d, Decodes (.dict d) (nulCursor s) (.error .unassigned)
  -- the value is read, then the cleanup goes by it into the spare slot
  | .key he hk ht, d => by
      have hkey := beDecodeStr_nul s
      have hrun := ht.decodes
      rcases ht.head_ne with ⟨b₁, s', hs', _⟩
      rcases cons_of_text_snd he hs' with ⟨b, s₁, rfl, hb⟩
      rw [hk] at hkey
      exact .dictLost hb hkey hrun
  | .val he h, d => by
      have hkey := beDecodeStr_nul s
      have hrun := h.decodes
      rcases h.head_ne with ⟨b₁, s', hs', _⟩
      rcases cons_of_text_snd he hs' with ⟨b, s₁, rfl, hb⟩
      exact .dictFault hb hkey hrun
  | .next (k := k) (t := t) hk ht hs, d => by
      have hkey := beDecodeStr_nul s
      have hrun := ht.decodes
      have hrest := hs.decodes (d ++ [(k, t)])
      rcases text_head_ne hk with ⟨b, s₁, rfl, hb⟩
      rw [hk] at hkey
      exact .dictNext hb hkey hrun hrest

end

/-! ## Bytes behind the packet -/

/-- Whatever follows the packet `p` in its buffer, `be_decoden` comes to its end with the same result and
consumes no more than the packet. -/
def ReadsPacketOnly (p : List UInt8) : Prop :=
  (∃ t, ∀ z, beDecoden (p ++ z) p.length = .ok t) ∧
    ∀ z t c, beDecodenAt (p ++ z) p.length = .ok (t, c) →
      (p ++ z).length ≤ c.data.length + p.length

theorem beDecodenAt_append {p : List UInt8} (h : ¬ CutShort p) (z : List UInt8) :
    beDecodenAt (p ++ z) p.length = extendResult z (beDecodenAt p p.length) := by
  have hrun : Decodes .node (packetCursor p) (beDecodenAt p p.length) := beDecodenAt_eq_iff.1 rfl
  refine beDecodenAt_eq_iff.2 (hrun.extend ?_ z)
  -- a packet that is not cut short keeps the decoder inside
  intro hpast
  rw [hpast] at hrun
  exact h (decodes_packet_overread_iff.1 hrun)

theorem beDecoden_append {p : List UInt8} (h : ¬ CutShort p) (z : List UInt8) :
    beDecoden (p ++ z) p.length = beDecoden p p.length := by
  rw [beDecoden, beDecoden, beDecodenAt_append h]
  rcases beDecodenAt p p.length with e | ⟨t, c⟩
  · rfl
  · rfl

/-- What `be_decoden` does on a packet that is not cut short, whatever follows it: it is stopped by a
lost key, or it returns the loose reading of the packet, or NULL if there is none. -/
theorem beDecoden_eq_of_complete {p : List UInt8} (h : ¬ CutShort p) (z : List UInt8) :
    (LostKey p ∧ beDecoden (p ++ z) p.length = .error .unassigned) ∨
    (¬ LostKey p ∧ ∃ t r, Loose p t r ∧ beDecoden (p ++ z) p.length = .ok (some t)) ∨
    (¬ LostKey p ∧ (∀ t r, ¬ Loose p t r) ∧ beDecoden (p ++ z) p.length = .ok none) := by
  -- whatever follows the packet, it may as well be a NUL
  have hnul : beDecoden (p ++ z) p.length = beDecoden (p ++ [0]) p.length := by
    calc
      beDecoden (p ++ z) p.length = beDecoden p p.length := beDecoden_append h z
      _ = beDecoden (p ++ [0]) p.length := (beDecoden_append h [0]).symm
  rw [hnul, beDecoden]
  have hrun : Decodes .node (nulCursor p) (beDecodenAt (p ++ [0]) p.length) :=
    beDecodenAt_eq_iff.1 rfl
  -- a run with a result is not the run that the lost key stops
  have hfault : ∀ {x}, beDecodenAt (p ++ [0]) p.length = .ok x → ¬ LostKey p := by
    intro x hx hlost
    rw [hx] at hrun
    cases hrun.unique hlost.decodes
  rcases hrun.nul rfl with hx | ⟨s', hx⟩ | ⟨t, s', hx, hloose⟩
  · rw [hx] at hrun
    exact .inl ⟨hrun.lost rfl rfl, by simp [hx]⟩
  · refine .inr (.inr ⟨hfault hx, ?_, by simp [hx]⟩)
    intro t r hloose
    rw [hx] at hrun
    cases hrun.unique hloose.decodes
  · exact .inr (.inl ⟨hfault hx, t, s', hloose, by simp [hx]⟩)

theorem beDecoden_of_cutShort {p : List UInt8} (h : CutShort p) :
    beDecoden p p.length = .error .overread := by
  rw [beDecoden, beDecodenAt_eq_iff.2 h.decodes]
  rfl

theorem loose_of_beDecoden {p : List UInt8} {t : BeNode}
    (h : beDecoden p p.length = .ok (some t)) : ∃ r, Loose p t r := by
  have hcut : ¬ CutShort p := by
    intro hcut
    rw [beDecoden_of_cutShort hcut] at h
    cases h
  have hcases := beDecoden_eq_of_complete hcut []
  rw [List.append_nil, h] at hcases
  rcases hcases with ⟨_, hrun⟩ | ⟨_, t', r, hloose, hrun⟩ | ⟨_, _, hrun⟩
  · cases hrun
  · cases hrun
    exact ⟨r, hloose⟩
  · cases hrun

theorem beDecoden_of_lostKey {p : List UInt8} (h : LostKey p) :
    beDecoden (p ++ [0]) p.length = .error .unassigned := by
  have hrun : Decodes .node (nulCursor p) (beDecodenAt (p ++ [0]) p.length) :=
    beDecodenAt_eq_iff.1 rfl
  rw [beDecoden, hrun.unique h.decodes]
  rfl

/-- The decoder keeps to the packet and returns exactly when the packet is not cut short and none of its
entries has lost its key. -/
theorem readsPacketOnly_iff (p : List UInt8) : ReadsPacketOnly p ↔ ¬ CutShort p ∧ ¬ LostKey p := by
  constructor
  · rintro ⟨⟨t, ht⟩, _⟩
    refine ⟨?_, ?_⟩
    -- a buffer that ends with the packet shows the read past it
    · intro hcut
      have hend := ht []
      rw [List.append_nil, beDecoden_of_cutShort hcut] at hend
      cases hend
    -- a NUL behind the packet keeps the run inside until it comes to the lost key
    · intro hlost
      have hnul := ht [0]
      rw [beDecoden_of_lostKey hlost] at hnul
      cases hnul
  · rintro ⟨hcut, hlost⟩
    refine ⟨?_, ?_⟩
    · have hsame : ∀ z, beDecoden (p ++ z) p.length = beDecoden p p.length := beDecoden_append hcut
      have hcases := beDecoden_eq_of_complete hcut []
      rw [List.append_nil] at hcases
      rcases hcases with ⟨hl, _⟩ | ⟨_, t, r, _, hrun⟩ | ⟨_, _, hrun⟩
      · exact absurd hl hlost
      · exact ⟨some t, fun z => (hsame z).trans hrun⟩
      · exact ⟨none, fun z => (hsame z).trans hrun⟩
    · intro z t c hrun
      rw [beDecodenAt_append hcut] at hrun
      -- what is left of the buffer includes all that follows the packet
      rcases hres : beDecodenAt p p.length with e | ⟨t', c'⟩
      · rw [hres] at hrun
        cases hrun
      · rw [hres] at hrun
        cases hrun
        simp only [Cursor.extend, List.length_append]
        omega

/-- After `i1`, an `e` that is not part of the packet makes an integer of it, an `x` does not. -/
theorem not_readsPacketOnly_int : ¬ ReadsPacketOnly (ascii "i1") := by
  rintro ⟨⟨t, ht⟩, _⟩
  have hsame : beDecoden (ascii "i1" ++ ascii "e") (ascii "i1").length =
      beDecoden (ascii "i1" ++ ascii "x") (ascii "i1").length := by
    rw [ht (ascii "e"), ht (ascii "x")]
  exact absurd hsame (by decide +kernel)

end BitDht
