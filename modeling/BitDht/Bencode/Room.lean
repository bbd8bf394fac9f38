import BitDht.Bencode.Encode

/-!
# Room — how far `be_encode` goes in a short buffer

`be_encode` gives the length that is left to `snprintf`, but it copies the content of a string and counts
the tags of a container without a look at it.  `written` says where it stands behind each byte of the
encoding, and `beEncode_stays_iff` when it stays within the buffer.
-/

namespace BitDht

open Decimal Outcome

/-! ## Where the next byte goes -/

/-- The offset behind one byte of the text, in a buffer of `len` bytes.  A byte that is printed is left
out where the place is needed for the NUL. -/
def room (len loc : Nat) (unguarded : Bool) : Nat :=
  if unguarded = true ∨ loc + 1 < len then loc + 1 else loc

/-- The offset behind a text, of which `mask` says which bytes are unguarded. -/
def written (len loc : Nat) (mask : List Bool) : Nat :=
  mask.foldl (room len) loc

theorem written_append (len loc : Nat) (mask mask' : List Bool) :
    written len loc (mask ++ mask') = written len (written len loc mask) mask' :=
  List.foldl_append

theorem written_cons (len loc : Nat) (b : Bool) (mask : List Bool) :
    written len loc (b :: mask) = written len (room len loc b) mask :=
  rfl

theorem room_true (len loc : Nat) : room len loc true = loc + 1 :=
  if_pos (.inl rfl)

theorem room_of_lt {len loc : Nat} (h : loc + 1 < len) (b : Bool) : room len loc b = loc + 1 :=
  if_pos (.inr h)

theorem room_last {len loc : Nat} (h : len ≤ loc + 1) : room len loc false = loc :=
  if_neg (by simpa using h)

theorem le_room (len loc : Nat) (b : Bool) : loc ≤ room len loc b := by
  rw [room]
  split_ifs
  · exact Nat.le_succ loc
  · exact le_rfl

theorem le_written (len loc : Nat) (mask : List Bool) : loc ≤ written len loc mask := by
  induction mask generalizing loc with
  | nil =>
      exact le_rfl
  | cons b mask ih =>
      exact (le_room len loc b).trans (ih _)

/-- A part of a buffer is a buffer. -/
theorem written_add (len loc k : Nat) (mask : List Bool) :
    written (loc + len) (loc + k) mask = loc + written len k mask := by
  induction mask generalizing k with
  | nil =>
      rfl
  | cons b mask ih =>
      have hroom : room (loc + len) (loc + k) b = loc + room len k b := by
        by_cases hnext : k + 1 < len
        · rw [room_of_lt hnext, room_of_lt (by omega), Nat.add_assoc]
        · cases b with
          | false =>
              rw [room_last (by omega), room_last (by omega)]
          | true =>
              rw [room_true, room_true, Nat.add_assoc]
      rw [written_cons, written_cons, hroom, ih]

/-- Where there is only room for the NUL, the unguarded bytes are counted. -/
theorem written_full {len loc : Nat} (hloc : len ≤ loc + 1) (mask : List Bool) :
    written len loc mask = loc + mask.count true := by
  induction mask generalizing loc with
  | nil =>
      rfl
  | cons b mask ih =>
      rw [written_cons]
      cases b with
      | false =>
          rw [room_last hloc, ih hloc, List.count_cons_of_ne (by decide)]
      | true =>
          rw [room_true, ih (by omega), List.count_cons_self]
          omega

theorem written_unguarded (len loc n : Nat) :
    written len loc (List.replicate n true) = loc + n := by
  induction n generalizing loc with
  | zero =>
      rfl
  | succ n ih =>
      rw [List.replicate_succ, written_cons, room_true, ih]
      omega

/-- A text that is printed ends in front of the last byte of the buffer. -/
theorem written_guarded {len loc : Nat} (hloc : loc < len) (n : Nat) :
    written len loc (List.replicate n false) = loc + min n (len - 1 - loc) := by
  induction n generalizing loc with
  | zero =>
      simp [written]
  | succ n ih =>
      rw [List.replicate_succ, written_cons]
      by_cases hnext : loc + 1 < len
      · rw [room_of_lt hnext, ih hnext]
        omega
      · rw [room_last (not_lt.1 hnext), ih hloc]
        omega

theorem written_le_iff {len loc : Nat} (hloc : loc < len) (mask : List Bool) :
    written len loc mask ≤ len ↔ (mask.drop (len - 1 - loc)).count true ≤ 1 := by
  induction mask generalizing loc with
  | nil =>
      simp only [List.drop_nil, List.count_nil, Nat.zero_le, iff_true]
      exact hloc.le
  | cons b mask ih =>
      by_cases hnext : loc + 1 < len
      · have hskip : len - 1 - loc = len - 1 - (loc + 1) + 1 := by omega
        rw [written_cons, room_of_lt hnext, ih hnext, hskip, List.drop_succ_cons]
      -- from the last byte of the buffer on
      · have hzero : len - 1 - loc = 0 := by omega
        rw [written_full (by omega), hzero, List.drop_zero]
        omega

/-! ## Writing into a buffer -/

/-- A step from one buffer to another leaves what lies behind the first `len` bytes as it is. -/
structure Kept (len : Nat) (str str' : List UInt8) : Prop where
  length : str'.length = str.length
  behind : str'.drop len = str.drop len

namespace Kept

variable {len : Nat} {str str' str'' : List UInt8}

theorem refl (len : Nat) (str : List UInt8) : Kept len str str :=
  ⟨rfl, rfl⟩

theorem trans (h : Kept len str str') (h' : Kept len str' str'') : Kept len str str'' :=
  ⟨h'.length.trans h.length, h'.behind.trans h.behind⟩

/-- A step in the part of a buffer that starts at `loc`. -/
theorem part {loc : Nat} {sub : List UInt8} (hloc : loc ≤ len) (hlen : len ≤ str.length)
    (h : Kept (len - loc) (str.drop loc) sub) : Kept len str (str.take loc ++ sub) := by
  have hlength := h.length
  have hbehind := h.behind
  rw [List.length_drop] at hlength
  rw [List.drop_drop, Nat.add_sub_cancel' hloc] at hbehind
  have htake : (str.take loc).length = loc := List.length_take_of_le (hloc.trans hlen)
  refine ⟨?_, ?_⟩
  · rw [List.length_append, htake, hlength]
    omega
  · rw [List.drop_append, htake, hbehind, List.drop_eq_nil_of_le (htake.trans_le hloc),
      List.nil_append]

end Kept

theorem length_writeAt {dst dst' bs : List UInt8} {loc : Nat} (h : writeAt dst loc bs = .ok dst') :
    dst'.length = dst.length := by
  rw [writeAt] at h
  split_ifs at h with hfit
  cases h
  simp only [List.length_append, List.length_take, List.length_drop]
  omega

theorem length_snprintf {dst dst' text : List UInt8} {loc : Nat} {size : Int}
    (h : snprintf dst loc size text = .ok dst') : dst'.length = dst.length := by
  rw [snprintf] at h
  split_ifs at h
  · cases h
    rfl
  · exact length_writeAt h
  · exact length_writeAt h

theorem writeAt_within {str bs : List UInt8} {len loc : Nat} (hfit : loc + bs.length ≤ len)
    (hlen : len ≤ str.length) :
    ∃ str', writeAt str loc bs = .ok str' ∧
      str'.drop loc = bs ++ str.drop (loc + bs.length) ∧ Kept len str str' := by
  have hwrite : writeAt str loc bs = .ok (str.take loc ++ (bs ++ str.drop (loc + bs.length))) :=
    if_pos (hfit.trans hlen)
  have htake : (str.take loc).length = loc := List.length_take_of_le (by omega)
  refine ⟨_, hwrite, List.drop_left' htake, length_writeAt hwrite, ?_⟩
  rw [List.drop_append, List.drop_append, htake, List.drop_drop,
    List.drop_eq_nil_of_le (by omega), List.drop_eq_nil_of_le (by omega), List.nil_append,
    List.nil_append]
  congr 1
  omega

/-- A text is printed as far as there is room for it. -/
theorem snprintf_within {text str : List UInt8} {len loc : Nat} (hnz : ∀ b ∈ text, b ≠ 0)
    (hloc : loc < len) (hlen : len ≤ str.length) :
    ∃ str', snprintf str loc ((len : Int) - loc) text = .ok str' ∧
      strlen (str'.drop loc) = .ok (min text.length (len - 1 - loc)) ∧ Kept len str str' := by
  have hsize : ((len : Int) - loc).toNat - 1 = len - 1 - loc := by omega
  have hzero : ¬ (len : Int) - loc = 0 := by omega
  have hneg : ¬ (len : Int) - loc < 0 := by omega
  have hfit : loc + (text.take (len - 1 - loc) ++ [0]).length ≤ len := by
    rw [List.length_append, List.length_take, List.length_singleton]
    omega
  rcases writeAt_within hfit hlen with ⟨str', hwrite, hdrop, hkept⟩
  refine ⟨str', ?_, ?_, hkept⟩
  · rw [snprintf, if_neg hzero, if_neg hneg, hsize, hwrite]
  · have hprefix : ∀ b ∈ text.take (len - 1 - loc), b ≠ 0 :=
      fun b hb => hnz b (List.mem_of_mem_take hb)
    rw [hdrop, List.append_assoc, List.singleton_append, strlen_append hprefix, List.length_take,
      Nat.min_comm]

/-! ## The unguarded bytes of an encoding -/

/-- A text that is printed. -/
def printed (text : List UInt8) : List Bool :=
  List.replicate text.length false

mutual

/-- Which bytes of the encoding are written, or counted, without a look at the length: the tags of
containers and the contents of strings. -/
def unguarded : BeNode → List Bool
  | .str s => printed (ofNat (beStrLen s) ++ [chr ':']) ++ List.replicate (beStrLen s) true
  | .int i => printed (chr 'i' :: (ofInt i ++ [chr 'e']))
  | .list l => true :: (unguardedItems l ++ [true])
  | .dict d => true :: (unguardedPairs d ++ [true])

def unguardedItems : List BeNode → List Bool
  | [] => []
  | n :: l => unguarded n ++ unguardedItems l

def unguardedPairs : List (List UInt8 × BeNode) → List Bool
  | [] => []
  | (key, val) :: d =>
      printed (bencodeString (cstr key)) ++ (unguarded val ++ unguardedPairs d)

end

mutual

/-- There is an entry for each byte of the encoding. -/
theorem length_unguarded : (t : BeNode) → (unguarded t).length = (bencode t).length
  | .str s => by
      simp [unguarded, printed, bencode, bencodeString, length_getD, Nat.add_assoc, Nat.add_comm 1]
  | .int i => by
      simp [unguarded, printed, bencode]
  | .list l => by
      simp [unguarded, bencode, length_unguardedItems l]
  | .dict d => by
      simp [unguarded, bencode, length_unguardedPairs d]

theorem length_unguardedItems : (l : List BeNode) →
    (unguardedItems l).length = (bencodeItems l).length
  | [] => rfl
  | n :: l => by
      simp [unguardedItems, bencodeItems, length_unguarded n, length_unguardedItems l]

theorem length_unguardedPairs : (d : List (List UInt8 × BeNode)) →
    (unguardedPairs d).length = (bencodePairs d).length
  | [] => rfl
  | (key, val) :: d => by
      simp [unguardedPairs, bencodePairs, printed, length_unguarded val, length_unguardedPairs d]

end

/-! ## Runs that come to their end -/

/-- What is known when some of the text has been written from `loc` on: the run stands where `written`
says, or else behind the buffer. -/
structure Counted (len : Int) (loc : Nat) (mask : List Bool) (str str' : List UInt8)
    (loc' : Nat) : Prop where
  length : str'.length = str.length
  le : loc ≤ loc'
  value : ∀ n : Nat, len = n → loc ≤ n → n ≤ str.length →
    loc' = written n loc mask ∨ n < loc'

namespace Counted

variable {len : Int} {loc loc' loc'' k : Nat} {mask mask' : List Bool}
  {str str' str'' bs : List UInt8}

theorem nil (len : Int) (loc : Nat) (str : List UInt8) : Counted len loc [] str str loc where
  length := rfl
  le := le_rfl
  value := fun _ _ _ _ => .inl rfl

theorem trans (h : Counted len loc mask str str' loc') (h' : Counted len loc' mask' str' str'' loc'') :
    Counted len loc (mask ++ mask') str str'' loc'' where
  length := h'.length.trans h.length
  le := h.le.trans h'.le
  value := by
    intro n hn hloc hlen
    by_cases hbehind : n < loc'
    · exact .inr (hbehind.trans_le h'.le)
    · have hloc' : loc' = written n loc mask := (h.value n hn hloc hlen).resolve_right hbehind
      rw [written_append, ← hloc']
      exact h'.value n hn (not_lt.1 hbehind) (h.length ▸ hlen)

/-- A run in the part of the buffer that starts at `loc`. -/
theorem part {sub : List UInt8} (h : Counted (len - loc) 0 mask (str.drop loc) sub k) :
    Counted len loc mask str (str.take loc ++ sub) (loc + k) where
  length := by
    rw [List.length_append, h.length, List.length_take, List.length_drop]
    omega
  le := Nat.le_add_right loc k
  value := by
    intro n hn hloc hlen
    have hcast : len - loc = (n - loc : Nat) := by omega
    have hdrop : n - loc ≤ (str.drop loc).length := by
      rw [List.length_drop]
      omega
    have hadd := written_add (n - loc) loc 0 mask
    rw [Nat.add_sub_cancel' hloc, Nat.add_zero] at hadd
    have hsub := h.value (n - loc) hcast (Nat.zero_le _) hdrop
    omega

/-- A tag is counted whether it has been printed or not. -/
theorem tag (h : snprintf str loc (len - loc) bs = .ok str') :
    Counted len loc [true] str str' (loc + 1) where
  length := length_snprintf h
  le := Nat.le_succ loc
  value := fun n _ _ _ => .inl (room_true n loc).symm

theorem text (hnz : ∀ b ∈ bs, b ≠ 0) (h : snprintf str loc (len - loc) bs = .ok str')
    (hk : strlen (str'.drop loc) = .ok k) :
    Counted len loc (printed bs) str str' (loc + k) where
  length := length_snprintf h
  le := Nat.le_add_right loc k
  value := by
    intro n hn hloc hlen
    subst hn
    rcases hloc.lt_or_eq with hlt | rfl
    · rcases snprintf_within hnz hlt hlen with ⟨str₁, hprint, hstrlen, -⟩
      rw [h] at hprint
      cases hprint
      rw [hk] at hstrlen
      cases hstrlen
      exact .inl (written_guarded hlt _).symm
    -- behind the buffer `strlen` finds what is there
    · have hfull := written_full (Nat.le_succ loc) (printed bs)
      rw [printed, List.count_replicate, if_neg (by decide)] at hfull
      rw [printed, hfull]
      omega

theorem copy (h : writeAt str loc bs = .ok str') :
    Counted len loc (List.replicate bs.length true) str str' (loc + bs.length) where
  length := length_writeAt h
  le := Nat.le_add_right _ _
  value := fun n _ _ _ => .inl (written_unguarded n loc _).symm

/-- The tags of a container stand around what its loop has counted. -/
theorem container {loop : List UInt8 → Nat → Int → Exec (List UInt8 × Nat)} {c : UInt8}
    (h : ∀ {str str' loc'}, loop str 1 len = .ok (str', loc') → Counted len 1 mask str str' loc')
    (hrun : (do
        let str ← snprintf str 0 len [c]
        let (str, loc) ← loop str 1 len
        let str ← snprintf str loc (len - loc) [chr 'e']
        pure (str, loc + 1) : Exec (List UInt8 × Nat)) = .ok (str', k)) :
    Counted len 0 (true :: (mask ++ [true])) str str' k := by
  rcases bind_eq_ok.1 hrun with ⟨str₁, h₁, hrun⟩
  rcases bind_eq_ok.1 hrun with ⟨⟨str₂, loc⟩, h₂, hrun⟩
  rcases bind_eq_ok.1 hrun with ⟨str₃, h₃, hrun⟩
  cases hrun
  have hopen : Counted len 0 [true] str str₁ 1 := Counted.tag (by simpa using h₁)
  exact hopen.trans ((h h₂).trans (Counted.tag h₃))

end Counted

mutual

theorem beEncode_counted : (t : BeNode) → ∀ (str str' : List UInt8) (len : Int) (k : Nat),
    beEncode t str len = .ok (str', k) → Counted len 0 (unguarded t) str str' k
  | .str s => by
      intro str str' len k h
      rw [beEncode] at h
      rcases bind_eq_ok.1 h with ⟨str₁, h₁, h⟩
      rcases bind_eq_ok.1 h with ⟨loc, hloc, h⟩
      rcases bind_eq_ok.1 h with ⟨str₂, h₂, h⟩
      cases h
      have htext : Counted len 0 (printed (ofNat (beStrLen s) ++ [chr ':'])) str str₁ (0 + loc) :=
        Counted.text (ne_zero_strText s) (by simpa using h₁) hloc
      have hcopy := @Counted.copy len _ _ _ _ h₂
      rw [Nat.zero_add] at htext
      rw [length_getD] at hcopy
      exact htext.trans hcopy
  | .int i => by
      intro str str' len k h
      rw [beEncode] at h
      rcases bind_eq_ok.1 h with ⟨str₁, h₁, h⟩
      rcases bind_eq_ok.1 h with ⟨loc, hloc, h⟩
      cases h
      have htext : Counted len 0 (printed (chr 'i' :: (ofInt i ++ [chr 'e']))) str str' (0 + k) :=
        Counted.text (ne_zero_intText i) (by simpa using h₁) hloc
      rw [Nat.zero_add] at htext
      exact htext
  | .list l => by
      intro str str' len k h
      exact Counted.container (fun h => beEncodeList_counted l _ _ _ _ _ h) h
  | .dict d => by
      intro str str' len k h
      exact Counted.container (fun h => beEncodeDict_counted d _ _ _ _ _ h) h

theorem beEncodeList_counted : (l : List BeNode) →
    ∀ (str str' : List UInt8) (len : Int) (loc loc' : Nat),
    beEncodeList l str loc len = .ok (str', loc') →
    Counted len loc (unguardedItems l) str str' loc'
  | [] => by
      intro str str' len loc loc' h
      cases h
      exact .nil len loc str
  | n :: l => by
      intro str str' len loc loc' h
      rw [beEncodeList] at h
      rcases bind_eq_ok.1 h with ⟨⟨sub, k⟩, h₁, h⟩
      exact (beEncode_counted n _ _ _ _ h₁).part.trans (beEncodeList_counted l _ _ _ _ _ h)

theorem beEncodeDict_counted : (d : List (List UInt8 × BeNode)) →
    ∀ (str str' : List UInt8) (len : Int) (loc loc' : Nat),
    beEncodeDict d str loc len = .ok (str', loc') →
    Counted len loc (unguardedPairs d) str str' loc'
  | [] => by
      intro str str' len loc loc' h
      cases h
      exact .nil len loc str
  | (key, val) :: d => by
      intro str str' len loc loc' h
      rw [beEncodeDict] at h
      rcases bind_eq_ok.1 h with ⟨str₁, h₁, h⟩
      rcases bind_eq_ok.1 h with ⟨k, hk, h⟩
      rcases bind_eq_ok.1 h with ⟨⟨sub, k'⟩, h₂, h⟩
      have hkey := Counted.text (ne_zero_keyText key) h₁ hk
      exact hkey.trans ((beEncode_counted val _ _ _ _ h₂).part.trans (beEncodeDict_counted d _ _ _ _ _ h))

end

/-! ## Encodings for which there is room -/

theorem snprintf_start_within {text str : List UInt8} {len : Nat} (hnz : ∀ b ∈ text, b ≠ 0)
    (hpos : 0 < len) (hlen : len ≤ str.length) :
    ∃ str', snprintf str 0 len text = .ok str' ∧ strlen str' = .ok (min text.length (len - 1)) ∧
      Kept len str str' := by
  rcases snprintf_within hnz hpos hlen with ⟨str', hprint, hstrlen, hkept⟩
  exact ⟨str', by simpa using hprint, by simpa using hstrlen, hkept⟩

/-- Where there is room for it, the encoder of a tree comes to its end where `written` says. -/
def NodeFits (run : List UInt8 → Int → Exec (List UInt8 × Nat)) (mask : List Bool) : Prop :=
  ∀ (str : List UInt8) (len : Nat), 1 ≤ len → len ≤ str.length → written len 0 mask ≤ len →
    ∃ str', run str len = .ok (str', written len 0 mask) ∧ Kept len str str'

/-- The same in the part of the buffer that starts at `loc`. -/
theorem NodeFits.part {run : List UInt8 → Int → Exec (List UInt8 × Nat)} {mask : List Bool}
    (h : NodeFits run mask) {str : List UInt8} {len loc : Nat} (hlen : len ≤ str.length)
    (hfit : written len loc mask < len) :
    ∃ sub k, run (str.drop loc) (len - loc) = .ok (sub, k) ∧ loc + k = written len loc mask ∧
      Kept len str (str.take loc ++ sub) := by
  have hloc : loc < len := (le_written len loc mask).trans_lt hfit
  have hcast : (len : Int) - loc = (len - loc : Nat) := by omega
  have hadd := written_add (len - loc) loc 0 mask
  rw [Nat.add_sub_cancel' hloc.le, Nat.add_zero] at hadd
  have hdrop : len - loc ≤ (str.drop loc).length := by
    rw [List.length_drop]
    omega
  rcases h (str.drop loc) (len - loc) (by omega) hdrop (by omega) with ⟨sub, hrun, hkept⟩
  exact ⟨sub, _, by rw [hcast, hrun], hadd.symm, hkept.part hloc.le hlen⟩

/-- Where there is room for it, a loop over the entries of a container comes to its end where
`written` says. -/
def LoopFits (loop : List UInt8 → Nat → Int → Exec (List UInt8 × Nat)) (mask : List Bool) : Prop :=
  ∀ (str : List UInt8) (len loc : Nat), len ≤ str.length → written len loc mask < len →
    ∃ str', loop str loc len = .ok (str', written len loc mask) ∧ Kept len str str'

theorem ne_zero_tag {c : UInt8} (hc : c ≠ 0) : ∀ b ∈ [c], b ≠ 0 := by
  simpa using hc

theorem LoopFits.container {loop : List UInt8 → Nat → Int → Exec (List UInt8 × Nat)}
    {mask : List Bool} (h : LoopFits loop mask) {c : UInt8} (hc : c ≠ 0) {str : List UInt8}
    {len : Nat} (hlen : len ≤ str.length) (hfit : written len 0 (true :: (mask ++ [true])) ≤ len) :
    ∃ str', (do
        let str ← snprintf str 0 len [c]
        let (str, loc) ← loop str 1 len
        let str ← snprintf str loc (len - loc) [chr 'e']
        pure (str, loc + 1) : Exec (List UInt8 × Nat)) =
          .ok (str', written len 0 (true :: (mask ++ [true]))) ∧ Kept len str str' := by
  have hwritten : written len 0 (true :: (mask ++ [true])) = written len 1 mask + 1 := by
    rw [written_cons, room_true, written_append, written_cons, room_true]
    rfl
  rw [hwritten] at hfit ⊢
  have hclose : ∀ b ∈ [chr 'e'], b ≠ 0 := ne_zero_tag (by decide)
  rcases snprintf_start_within (ne_zero_tag hc) (by omega) hlen with ⟨str₁, h₁, -, hkept₁⟩
  rcases h str₁ len 1 (hkept₁.length ▸ hlen) (by omega) with ⟨str₂, h₂, hkept₂⟩
  have hlen₂ : len ≤ str₂.length := (hkept₁.trans hkept₂).length ▸ hlen
  rcases snprintf_within hclose (by omega : written len 1 mask < len) hlen₂ with
    ⟨str₃, h₃, -, hkept₃⟩
  refine ⟨str₃, ?_, (hkept₁.trans hkept₂).trans hkept₃⟩
  rw [h₁, ok_bind, h₂, ok_bind]
  dsimp only
  rw [h₃]
  rfl

mutual

theorem beEncode_fits : (t : BeNode) → NodeFits (beEncode t) (unguarded t)
  | .str s => by
      intro str len hpos hlen hfit
      rcases snprintf_start_within (ne_zero_strText s) hpos hlen with ⟨str₁, h₁, hloc, hkept₁⟩
      have hguarded := written_guarded hpos (ofNat (beStrLen s) ++ [chr ':']).length
      have hunguarded := written_unguarded len (written len 0 (printed (ofNat (beStrLen s) ++
        [chr ':']))) (beStrLen s)
      rw [← written_append] at hunguarded
      rw [unguarded, hunguarded, printed, hguarded, Nat.zero_add] at hfit ⊢
      have hcopy : min (ofNat (beStrLen s) ++ [chr ':']).length (len - 1) +
          (s.getD []).length ≤ len := by
        rw [length_getD]
        exact hfit
      rcases writeAt_within hcopy (hkept₁.length ▸ hlen) with ⟨str₂, h₂, -, hkept₂⟩
      refine ⟨str₂, ?_, hkept₁.trans hkept₂⟩
      rw [beEncode, h₁, ok_bind, hloc, ok_bind, h₂]
      rfl
  | .int i => by
      intro str len hpos hlen hfit
      rcases snprintf_start_within (ne_zero_intText i) hpos hlen with ⟨str₁, h₁, hloc, hkept₁⟩
      have hguarded := written_guarded hpos (chr 'i' :: (ofInt i ++ [chr 'e'])).length
      refine ⟨str₁, ?_, hkept₁⟩
      rw [unguarded, printed, hguarded, Nat.zero_add, beEncode, h₁, ok_bind, hloc]
      rfl
  | .list l => by
      intro str len hpos hlen hfit
      exact (beEncodeList_fits l).container (by decide) hlen hfit
  | .dict d => by
      intro str len hpos hlen hfit
      exact (beEncodeDict_fits d).container (by decide) hlen hfit

theorem beEncodeList_fits : (l : List BeNode) → LoopFits (beEncodeList l) (unguardedItems l)
  | [] => by
      intro str len loc hlen hfit
      exact ⟨str, rfl, .refl len str⟩
  | n :: l => by
      intro str len loc hlen hfit
      rw [unguardedItems, written_append] at hfit ⊢
      rcases (beEncode_fits n).part hlen ((le_written _ _ _).trans_lt hfit) with
        ⟨sub, k, h₁, hk, hkept₁⟩
      rcases beEncodeList_fits l _ len _ (hkept₁.length ▸ hlen) hfit with ⟨str₂, h₂, hkept₂⟩
      refine ⟨str₂, ?_, hkept₁.trans hkept₂⟩
      rw [beEncodeList, h₁, ok_bind]
      dsimp only
      rw [hk]
      exact h₂

theorem beEncodeDict_fits : (d : List (List UInt8 × BeNode)) →
    LoopFits (beEncodeDict d) (unguardedPairs d)
  | [] => by
      intro str len loc hlen hfit
      exact ⟨str, rfl, .refl len str⟩
  | (key, val) :: d => by
      intro str len loc hlen hfit
      rw [unguardedPairs, written_append, written_append] at hfit ⊢
      have hvalue := (le_written _ _ _).trans_lt hfit
      have hkey := (le_written _ _ _).trans_lt hvalue
      have hloc := (le_written _ _ _).trans_lt hkey
      rcases snprintf_within (ne_zero_keyText key) hloc hlen with ⟨str₁, h₁, hk, hkept₁⟩
      have hguarded : written len loc (printed (bencodeString (cstr key))) = _ :=
        written_guarded hloc (bencodeString (cstr key)).length
      rw [hguarded] at hfit hvalue ⊢
      rcases (beEncode_fits val).part (hkept₁.length ▸ hlen) hvalue with
        ⟨sub, k', h₂, hk', hkept₂⟩
      have hkept := hkept₁.trans hkept₂
      rcases beEncodeDict_fits d _ len _ (hkept.length ▸ hlen) hfit with ⟨str₂, h₃, hkept₃⟩
      refine ⟨str₂, ?_, hkept.trans hkept₃⟩
      rw [beEncodeDict, ← bencodeString, h₁, ok_bind, hk, ok_bind]
      dsimp only
      rw [h₂, ok_bind]
      dsimp only
      rw [hk']
      exact h₃

end

/-! ## When `be_encode` stays within the buffer -/

/-- `be_encode` writes only at offsets below `len` and returns a value that is not greater. -/
def Stays (t : BeNode) (mem : List UInt8) (len : Nat) : Prop :=
  ∃ mem' loc, beEncode t mem len = .ok (mem', loc) ∧ loc ≤ len ∧ Kept len mem mem'

/-- It does so if and only if, from the place of the last byte of the buffer on, the encoding has at
most one unguarded byte. -/
theorem beEncode_stays_iff (t : BeNode) {mem : List UInt8} {len : Nat} (hpos : 1 ≤ len)
    (hlen : len ≤ mem.length) :
    Stays t mem len ↔ ((unguarded t).drop (len - 1)).count true ≤ 1 := by
  have hwritten := written_le_iff hpos (unguarded t)
  rw [Nat.sub_zero] at hwritten
  rw [← hwritten]
  constructor
  · rintro ⟨mem', loc, hrun, hloc, -⟩
    have hvalue := (beEncode_counted t _ _ _ _ hrun).value len rfl (Nat.zero_le len) hlen
    omega
  · intro hfit
    rcases beEncode_fits t mem len hpos hlen hfit with ⟨mem', hrun, hkept⟩
    exact ⟨mem', _, hrun, hfit, hkept⟩

/-- The content of a string is copied to the end of the buffer and beyond. -/
theorem beEncode_overruns :
    beEncode (.str (some (ascii "abcdef"))) (List.replicate 12 0) 4 =
      .ok (ascii "6:abcdef" ++ List.replicate 4 0, 8) ∧
    ¬ Stays (.str (some (ascii "abcdef"))) (List.replicate 12 0) 4 := by
  have hrun : beEncode (.str (some (ascii "abcdef"))) (List.replicate 12 0) 4 =
      .ok (ascii "6:abcdef" ++ List.replicate 4 0, 8) := by
    decide +kernel
  refine ⟨hrun, ?_⟩
  rintro ⟨mem', loc, hrun', hloc, -⟩
  rw [Nat.cast_ofNat, hrun] at hrun'
  cases hrun'
  exact absurd hloc (by decide)

/-- A list of two numbers is cut short. -/
theorem beEncode_stays_list : Stays (.list [.int 17, .int 4]) (List.replicate 12 0) 6 :=
  (beEncode_stays_iff _ (by decide) (by decide)).2 (by decide +kernel)

end BitDht
