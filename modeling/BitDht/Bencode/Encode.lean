import BitDht.Bencode.Grammar

/-!
# Encode — the encoder of `bencode.c` and the functions that build trees

`be_encode` writes into a caller's buffer; `bencode` is the text it is meant to write.  In a buffer
that is long enough it writes that text (`beEncode_eq`), the text of a tree made by the `be_create`
and `be_add` functions is in the format (`Encodable.bencoded`), and so it is read back
(`beEncode_roundTrip`).
-/

namespace BitDht

open Decimal Outcome

/-! ## `be_encode` -/

mutual

/-- `be_encode(node, str, len)`: the buffer from `str` on, and the returned `loc`. -/
def beEncode : BeNode → List UInt8 → Int → Exec (List UInt8 × Nat)
  | .str s, str, len => do
      let str ← snprintf str 0 len (ofNat (beStrLen s) ++ [chr ':'])
      let loc ← strlen str
      let str ← writeAt str loc (s.getD [])
      pure (str, loc + beStrLen s)
  | .int i, str, len => do
      let str ← snprintf str 0 len (chr 'i' :: (ofInt i ++ [chr 'e']))
      let loc ← strlen str
      pure (str, loc)
  | .list l, str, len => do
      let str ← snprintf str 0 len [chr 'l']
      let (str, loc) ← beEncodeList l str 1 len
      let str ← snprintf str loc (len - loc) [chr 'e']
      pure (str, loc + 1)
  | .dict d, str, len => do
      let str ← snprintf str 0 len [chr 'd']
      let (str, loc) ← beEncodeDict d str 1 len
      let str ← snprintf str loc (len - loc) [chr 'e']
      pure (str, loc + 1)

/-- The loop over `node->val.l[i]`. -/
def beEncodeList : List BeNode → List UInt8 → Nat → Int → Exec (List UInt8 × Nat)
  | [], str, loc, _ => pure (str, loc)
  | n :: l, str, loc, len => do
      let (sub, k) ← beEncode n (str.drop loc) (len - loc)
      beEncodeList l (str.take loc ++ sub) (loc + k) len

/-- The loop over `node->val.d[i]`. -/
def beEncodeDict : List (List UInt8 × BeNode) → List UInt8 → Nat → Int →
    Exec (List UInt8 × Nat)
  | [], str, loc, _ => pure (str, loc)
  | (key, val) :: d, str, loc, len => do
      -- assumption that key must be ascii: it is printed as a C string
      let str ← snprintf str loc (len - loc) (ofNat (cstr key).length ++ chr ':' :: cstr key)
      let k ← strlen (str.drop loc)
      let loc := loc + k
      let (sub, k) ← beEncode val (str.drop loc) (len - loc)
      beEncodeDict d (str.take loc ++ sub) (loc + k) len

end

/-! ## The encoding of a tree -/

def bencodeString (s : List UInt8) : List UInt8 :=
  ofNat s.length ++ chr ':' :: s

mutual

/-- The encoding of a tree. -/
def bencode : BeNode → List UInt8
  | .str s => bencodeString (s.getD [])
  | .int i => chr 'i' :: (ofInt i ++ [chr 'e'])
  | .list l => chr 'l' :: (bencodeItems l ++ [chr 'e'])
  | .dict d => chr 'd' :: (bencodePairs d ++ [chr 'e'])

def bencodeItems : List BeNode → List UInt8
  | [] => []
  | n :: l => bencode n ++ bencodeItems l

def bencodePairs : List (List UInt8 × BeNode) → List UInt8
  | [] => []
  | (key, val) :: d => bencodeString (cstr key) ++ (bencode val ++ bencodePairs d)

end

/-! ## `be_encode` writes the encoding -/

theorem length_getD (s : Option (List UInt8)) : (s.getD []).length = beStrLen s := by
  cases s <;> rfl

theorem ofNat_ne_zero {n : Nat} {b : UInt8} (hb : b ∈ ofNat n) : b ≠ 0 := by
  rintro rfl
  exact absurd (ofNat_digits hb) (by decide)

theorem ofInt_ne_zero {i : Int} {b : UInt8} (hb : b ∈ ofInt i) : b ≠ 0 := by
  cases i with
  | ofNat n =>
      exact ofNat_ne_zero hb
  | negSucc n =>
      simp only [ofInt, List.mem_cons] at hb
      rcases hb with rfl | hb
      · decide
      · exact ofNat_ne_zero hb

/-- No text that is printed holds a NUL, so `strlen` measures it. -/
theorem ne_zero_strText (s : Option (List UInt8)) :
    ∀ b ∈ ofNat (beStrLen s) ++ [chr ':'], b ≠ 0 := by
  intro b hb
  simp only [List.mem_append, List.mem_singleton] at hb
  rcases hb with hb | rfl
  · exact ofNat_ne_zero hb
  · decide

theorem ne_zero_intText (i : Int) : ∀ b ∈ chr 'i' :: (ofInt i ++ [chr 'e']), b ≠ 0 := by
  intro b hb
  simp only [List.mem_cons, List.mem_append] at hb
  rcases hb with rfl | hb | rfl | hb
  · decide
  · exact ofInt_ne_zero hb
  · decide
  · cases hb

theorem ne_zero_keyText (key : List UInt8) :
    ∀ b ∈ bencodeString (cstr key), b ≠ 0 := by
  intro b hb
  simp only [bencodeString, List.mem_append, List.mem_cons] at hb
  rcases hb with hb | rfl | hb
  · exact ofNat_ne_zero hb
  · decide
  · exact cstr_ne_zero hb

/-- A text at the start of a buffer. -/
theorem snprintf_start {text str : List UInt8} {len : Int} (hlen : (text.length : Int) < len)
    (hstr : len ≤ str.length) :
    snprintf str 0 len text = .ok (text ++ 0 :: str.drop (text.length + 1)) := by
  have hrest : text.length < str.length := by omega
  simpa using snprintf_append hlen hrest []

/-- The closing `e` behind what is written already. -/
theorem snprintf_close {w rest : List UInt8} {len : Int} (hlen : (w.length : Int) + 1 < len)
    (hstr : len ≤ w.length + rest.length) :
    ∃ rest', snprintf (w ++ rest) w.length (len - w.length) [chr 'e'] =
        .ok (w ++ chr 'e' :: rest') ∧ rest'.length + 1 = rest.length := by
  have hsize : (([chr 'e'].length : Nat) : Int) < len - w.length := by
    simp only [List.length_singleton]
    omega
  have hrest : [chr 'e'].length < rest.length := by
    simp only [List.length_singleton]
    omega
  refine ⟨0 :: rest.drop 2, by simpa using snprintf_append hsize hrest w, ?_⟩
  simp only [List.length_cons, List.length_drop] at hrest ⊢
  omega

/-- What a loop over the entries of a container does with the text `items` of its entries: in a
buffer that is long enough it appends them to what is written. -/
def Appends (loop : List UInt8 → Nat → Int → Exec (List UInt8 × Nat)) (items : List UInt8) : Prop :=
  ∀ (w rest : List UInt8) (len : Int), (w.length : Int) + items.length < len →
    len ≤ w.length + rest.length →
    ∃ rest', loop (w ++ rest) w.length len = .ok ((w ++ items) ++ rest', (w ++ items).length) ∧
      (w ++ items).length + rest'.length = w.length + rest.length

theorem Appends.container {loop : List UInt8 → Nat → Int → Exec (List UInt8 × Nat)}
    {items : List UInt8} (h : Appends loop items) (c : UInt8) {str : List UInt8} {len : Int}
    (hlen : ((c :: (items ++ [chr 'e'])).length : Int) < len) (hstr : len ≤ str.length) :
    ∃ rest, (do
        let str ← snprintf str 0 len [c]
        let (str, loc) ← loop str 1 len
        let str ← snprintf str loc (len - loc) [chr 'e']
        pure (str, loc + 1) : Exec (List UInt8 × Nat)) =
          .ok ((c :: (items ++ [chr 'e'])) ++ rest, (c :: (items ++ [chr 'e'])).length) ∧
      (c :: (items ++ [chr 'e'])).length + rest.length = str.length := by
  simp only [List.length_cons, List.length_append, List.length_nil] at hlen
  have hopen : (([c].length : Nat) : Int) < len := by
    simp only [List.length_singleton]
    omega
  -- the tag is written with a NUL behind it, which the loop overwrites
  have hprint := snprintf_start hopen hstr
  rcases h [c] (0 :: str.drop 2) len
    (by simp only [List.length_singleton]; omega)
    (by simp only [List.length_cons, List.length_drop]; omega)
    with ⟨rest, hloop, hrest⟩
  simp only [List.length_append, List.length_cons, List.length_nil, List.length_drop] at hrest
  have hroom : ((([c] ++ items).length : Nat) : Int) + 1 < len := by
    simp only [List.length_append, List.length_singleton]
    omega
  have hstr' : len ≤ ([c] ++ items).length + rest.length := by
    simp only [List.length_append, List.length_singleton]
    omega
  -- the closing `e`, behind the tag and the entries
  rcases snprintf_close hroom hstr' with ⟨rest', hclose, hrest'⟩
  refine ⟨rest', ?_, ?_⟩
  · simp only [List.length_singleton] at hprint hloop
    simp only [hprint, ok_bind, hloop, hclose]
    simp
  · simp only [List.length_cons, List.length_append, List.length_nil]
    omega

mutual

/-- In a buffer that is longer than the encoding, `be_encode` writes the encoding and returns its
length. -/
theorem beEncode_eq : (t : BeNode) → ∀ (str : List UInt8) (len : Int),
    ((bencode t).length : Int) < len → len ≤ str.length →
    ∃ rest, beEncode t str len = .ok (bencode t ++ rest, (bencode t).length) ∧
      (bencode t).length + rest.length = str.length
  | .str s => by
      intro str len hlen hstr
      obtain ⟨text, htext⟩ : ∃ text, text = ofNat (beStrLen s) ++ [chr ':'] := ⟨_, rfl⟩
      have henc : bencode (.str s) = text ++ s.getD [] := by
        simp [bencode, bencodeString, htext, length_getD]
      have hnz : ∀ b ∈ text, b ≠ 0 := htext ▸ ne_zero_strText s
      rw [henc] at hlen ⊢
      simp only [List.length_append, length_getD] at hlen
      have htextlen : (text.length : Int) < len := by omega
      have hprint := snprintf_start htextlen hstr
      -- the bytes of the string go over the NUL of the printed length
      have hdata : (s.getD []).length ≤ (0 :: str.drop (text.length + 1)).length := by
        simp only [List.length_cons, List.length_drop, length_getD]
        omega
      refine ⟨(0 :: str.drop (text.length + 1)).drop (s.getD []).length, ?_, ?_⟩
      · simp only [beEncode, ← htext, hprint, ok_bind, strlen_append hnz, writeAt_append hdata]
        simp [length_getD]
      · simp only [List.length_append, List.length_drop, List.length_cons, length_getD] at hdata ⊢
        omega
  | .int i => by
      intro str len hlen hstr
      have hnz : ∀ b ∈ bencode (.int i), b ≠ 0 := ne_zero_intText i
      have hprint := snprintf_start hlen hstr
      refine ⟨0 :: str.drop ((bencode (.int i)).length + 1), ?_, ?_⟩
      · rw [beEncode, ← bencode, hprint, ok_bind, strlen_append hnz]
        rfl
      · simp only [List.length_cons, List.length_drop]
        omega
  | .list l => by
      intro str len hlen hstr
      exact (beEncodeList_appends l).container (chr 'l') hlen hstr
  | .dict d => by
      intro str len hlen hstr
      exact (beEncodeDict_appends d).container (chr 'd') hlen hstr

/-- One round of the list loop appends the encoding of one entry. -/
theorem beEncodeList_appends : (l : List BeNode) → Appends (beEncodeList l) (bencodeItems l)
  | [] => by
      intro w rest len _ _
      exact ⟨rest, by simp [beEncodeList, bencodeItems], by simp [bencodeItems]⟩
  | n :: l => by
      intro w rest len hlen hrest
      simp only [bencodeItems, List.length_append] at hlen
      -- the entry is encoded into the rest of the buffer, and the loop goes on behind it
      rcases beEncode_eq n rest (len - w.length) (by omega) (by omega) with ⟨rest₁, hn, hrest₁⟩
      rcases beEncodeList_appends l (w ++ bencode n) rest₁ len
        (by simp only [List.length_append]; omega)
        (by simp only [List.length_append]; omega) with ⟨rest₂, hl, hrest₂⟩
      refine ⟨rest₂, ?_, ?_⟩
      · simp only [beEncodeList, List.drop_left', List.take_left', hn, ok_bind]
        simpa [bencodeItems] using hl
      · simp only [bencodeItems, List.length_append] at hrest₂ ⊢
        omega

/-- One round of the dictionary loop appends the key and the encoding of its value. -/
theorem beEncodeDict_appends : (d : List (List UInt8 × BeNode)) →
    Appends (beEncodeDict d) (bencodePairs d)
  | [] => by
      intro w rest len _ _
      exact ⟨rest, by simp [beEncodeDict, bencodePairs], by simp [bencodePairs]⟩
  | (key, val) :: d => by
      intro w rest len hlen hrest
      obtain ⟨text, htext⟩ : ∃ text, text = bencodeString (cstr key) := ⟨_, rfl⟩
      -- a key is printed up to its first NUL, so `strlen` finds all of it
      have hnz : ∀ b ∈ text, b ≠ 0 := htext ▸ ne_zero_keyText key
      simp only [bencodePairs, List.length_append, ← htext] at hlen
      have hsize : (text.length : Int) < len - w.length := by omega
      have hprint := snprintf_append hsize (by omega : text.length < rest.length) w
      have hloc : w.length + text.length = (w ++ text).length := by simp
      rcases beEncode_eq val (0 :: rest.drop (text.length + 1)) (len - (w ++ text).length)
        (by simp only [List.length_append]; omega)
        (by simp only [List.length_append, List.length_cons, List.length_drop]; omega)
        with ⟨rest₁, hval, hrest₁⟩
      simp only [List.length_cons, List.length_drop] at hrest₁
      rcases beEncodeDict_appends d (w ++ text ++ bencode val) rest₁ len
        (by simp only [List.length_append]; omega)
        (by simp only [List.length_append]; omega) with ⟨rest₂, hd, hrest₂⟩
      refine ⟨rest₂, ?_, ?_⟩
      -- what is in front of the value stays as it is
      · have hkey : strlen ((w ++ (text ++ 0 :: rest.drop (text.length + 1))).drop w.length) =
            .ok text.length := by
          rw [List.drop_left, strlen_append hnz]
        have hdrop : (w ++ (text ++ 0 :: rest.drop (text.length + 1))).drop (w ++ text).length =
            0 :: rest.drop (text.length + 1) := by
          rw [← List.append_assoc, List.drop_left]
        have htake : (w ++ (text ++ 0 :: rest.drop (text.length + 1))).take (w ++ text).length =
            w ++ text := by
          rw [← List.append_assoc, List.take_left]
        rw [beEncodeDict, ← bencodeString, ← htext, hprint, ok_bind, hkey, ok_bind, hloc]
        simp only [hdrop, hval, ok_bind, htake]
        simpa [bencodePairs, ← htext, Nat.add_assoc] using hd
      · simp only [bencodePairs, ← htext, List.length_append] at hrest₂ ⊢
        omega

end

/-! ## Trees made by the `be_create` and `be_add` functions -/

/-- `be_decode` -/
def beDecodeText (data : List UInt8) : Exec (Option BeNode) := do
  let len ← strlen data
  beDecoden data len

/-- `be_create_dict`, for callers that use the node without looking at it. -/
def beCreateDict : Exec BeNode := do
  match ← beDecodeText (ascii "de" ++ [0]) with
  | some n => pure n
  | none => .error .nullNode

/-- `be_create_list` -/
def beCreateList : Exec BeNode := do
  match ← beDecodeText (ascii "le" ++ [0]) with
  | some n => pure n
  | none => .error .nullNode

/-- `be_create_str` -/
def beCreateStr (str : List UInt8) : Exec BeNode := do
  let len ← strlen str
  let s ← readBytes len str
  pure (.str (some s))

/-- `be_create_str_wlen` -/
def beCreateStrWlen (str : List UInt8) (len : Nat) : Exec BeNode := do
  let s ← readBytes len str
  pure (.str (some s))

/-- `be_create_int` -/
def beCreateInt (num : Int) : BeNode :=
  .int num

/-- `be_add_keypair`: the dictionary afterwards and the returned flag. -/
def beAddKeypair (dict : BeNode) (str : List UInt8) (node : BeNode) : Exec (BeNode × Nat) :=
  match dict with
  | .dict d => do
      let len ← strlen str
      let key ← readBytes len str
      pure (.dict (d ++ [(key, node)]), 1)
  | other => pure (other, 0)

/-- `be_add_list`: the list afterwards and the returned flag. -/
def beAddList (list node : BeNode) : BeNode × Nat :=
  match list with
  | .list l => (.list (l ++ [node]), 1)
  | other => (other, 0)

/-- The trees that these functions make of one another. -/
inductive Built : BeNode → Prop
  | dict {n : BeNode} (h : beCreateDict = .ok n) : Built n
  | list {n : BeNode} (h : beCreateList = .ok n) : Built n
  | int {num : Int} (hlo : llongMin ≤ num) (hhi : num ≤ llongMax) : Built (beCreateInt num)
  | str {str : List UInt8} {len : Nat} {n : BeNode} (h : beCreateStrWlen str len = .ok n) : Built n
  | keypair {dict node n : BeNode} {str : List UInt8} {r : Nat}
      (h : beAddKeypair dict str node = .ok (n, r)) : Built dict → Built node → Built n
  | item {list node : BeNode} : Built list → Built node → Built (beAddList list node).1

theorem beDecodeText_append {w : List UInt8} {t : BeNode} (hw : Bencoded w t)
    (hnz : 0 ∉ w) (hmax : (w.length : Int) ≤ llongMax) (z : List UInt8) :
    beDecodeText (w ++ 0 :: z) = .ok (some t) := by
  rw [beDecodeText, strlen_append (List.forall_mem_ne'.2 hnz), ok_bind]
  exact beDecoden_eq_ok_iff.2 ⟨_, hw.decodes hmax (0 :: z) w.length le_rfl⟩

@[simp] theorem beCreateDict_eq : beCreateDict = .ok (.dict []) := by
  have htext : beDecodeText (ascii "de" ++ [0]) = .ok (some (.dict [])) :=
    beDecodeText_append (.dict .nil) (by decide) (by decide) []
  simp [beCreateDict, htext]

@[simp] theorem beCreateList_eq : beCreateList = .ok (.list []) := by
  have htext : beDecodeText (ascii "le" ++ [0]) = .ok (some (.list [])) :=
    beDecodeText_append (.list .nil) (by decide) (by decide) []
  simp [beCreateList, htext]

/-- What a built tree is like: every integer is a `long long`, every string has its data, and every
key is a C string. -/
inductive Encodable : BeNode → Prop
  | str (s : List UInt8) : Encodable (.str (some s))
  | int {i : Int} (hlo : llongMin ≤ i) (hhi : i ≤ llongMax) : Encodable (.int i)
  | list {l : List BeNode} : (∀ n ∈ l, Encodable n) → Encodable (.list l)
  | dict {d : List (List UInt8 × BeNode)} : (∀ e ∈ d, ∀ b ∈ e.1, b ≠ 0) →
      (∀ e ∈ d, Encodable e.2) → Encodable (.dict d)

theorem strlen_eq_ok {s : List UInt8} {n : Nat} (h : strlen s = .ok n) :
    n ≤ s.length ∧ ∀ b ∈ s.take n, b ≠ 0 := by
  induction s generalizing n with
  | nil =>
      cases h
  | cons b bs ih =>
      simp only [strlen] at h
      split at h
      · cases h
        simp
      · rename_i hb
        rcases bind_eq_ok.1 h with ⟨k, hk, hn⟩
        cases hn
        have hbs := ih hk
        refine ⟨Nat.succ_le_succ hbs.1, ?_⟩
        simpa [hb] using hbs.2

theorem Built.encodable {t : BeNode} (h : Built t) : Encodable t := by
  induction h with
  | dict h =>
      rw [beCreateDict_eq] at h
      cases h
      exact .dict (by simp) (by simp)
  | list h =>
      rw [beCreateList_eq] at h
      cases h
      exact .list (by simp)
  | int hlo hhi =>
      exact .int hlo hhi
  | str h =>
      rcases bind_eq_ok.1 h with ⟨s, _, hs⟩
      cases hs
      exact .str s
  | @keypair dict node n str r h _ _ ihd ihn =>
      cases ihd with
      | dict hkeys hvals =>
          rcases bind_eq_ok.1 h with ⟨len, hlen, h⟩
          rcases bind_eq_ok.1 h with ⟨key, hkey, h⟩
          cases h
          -- the key is copied up to the NUL that ends it
          have hnz : ∀ b ∈ key, b ≠ 0 := by
            have hstr := strlen_eq_ok hlen
            simp only [readBytes, hstr.1, if_true, Except.ok.injEq] at hkey
            rw [← hkey]
            exact hstr.2
          refine .dict ?_ ?_
          · intro e he
            rcases List.mem_append.1 he with he | he
            · exact hkeys e he
            · rw [List.mem_singleton.1 he]
              exact hnz
          · intro e he
            rcases List.mem_append.1 he with he | he
            · exact hvals e he
            · rw [List.mem_singleton.1 he]
              exact ihn
      -- nothing but a dictionary gets a key
      | str s =>
          cases h
          exact .str s
      | int hlo hhi =>
          cases h
          exact .int hlo hhi
      | list hl =>
          cases h
          exact .list hl
  | item _ _ ihl ihn =>
      cases ihl with
      | list hl =>
          refine .list ?_
          intro n hn
          rcases List.mem_append.1 hn with hn | hn
          · exact hl n hn
          · rw [List.mem_singleton.1 hn]
            exact ihn
      | str s =>
          exact .str s
      | int hlo hhi =>
          exact .int hlo hhi
      | dict hkeys hvals =>
          exact .dict hkeys hvals

theorem bencodeString_bencoded (s : List UInt8) : BencodedString (bencodeString s) s :=
  .mk (ofNat_ne_nil _) (fun _ hb => ofNat_digits hb) (value_ofNat _)

theorem bencodeItems_bencoded {l : List BeNode} (h : ∀ n ∈ l, Bencoded (bencode n) n) :
    BencodedItems (bencodeItems l) l := by
  induction l with
  | nil =>
      exact .nil
  | cons n l ih =>
      exact .cons (h n (by simp)) (ih (fun m hm => h m (by simp [hm])))

theorem bencodePairs_bencoded {d : List (List UInt8 × BeNode)} (hkeys : ∀ e ∈ d, ∀ b ∈ e.1, b ≠ 0)
    (h : ∀ e ∈ d, Bencoded (bencode e.2) e.2) : BencodedPairs (bencodePairs d) d := by
  induction d with
  | nil =>
      exact .nil
  | cons e d ih =>
      -- a key without a NUL is printed whole
      have hkey : cstr e.1 = e.1 := cstr_of_ne_zero (hkeys e (by simp))
      have hrest := ih (fun m hm => hkeys m (by simp [hm])) (fun m hm => h m (by simp [hm]))
      rw [bencodePairs, hkey]
      exact .cons (bencodeString_bencoded e.1) (h e (by simp)) hrest

/-- The encoding of such a tree is in the format, and it is the text of that tree. -/
theorem Encodable.bencoded {t : BeNode} (h : Encodable t) : Bencoded (bencode t) t := by
  induction h with
  | str s =>
      exact .str (bencodeString_bencoded s)
  | int hlo hhi =>
      exact .int hlo hhi
  | list _ ih =>
      exact .list (bencodeItems_bencoded ih)
  | dict hkeys _ ih =>
      exact .dict (bencodePairs_bencoded hkeys ih)

/-- The encoding of such a tree is decoded to it, whatever stands behind it. -/
theorem Encodable.beDecoden_bencode {t : BeNode} (ht : Encodable t)
    (hmax : ((bencode t).length : Int) ≤ llongMax) (z : List UInt8) {len : Nat}
    (hlen : (bencode t).length ≤ len) : beDecoden (bencode t ++ z) len = .ok (some t) :=
  beDecoden_eq_ok_iff.2 ⟨_, ht.bencoded.decodes hmax z len (Int.ofNat_le.2 hlen)⟩

/-- What `be_encode` writes for such a tree is decoded to that tree, all of it and nothing behind
it. -/
theorem Encodable.roundTrip {t : BeNode} (ht : Encodable t) {str : List UInt8} {len : Int}
    (hlen : ((bencode t).length : Int) < len) (hstr : len ≤ str.length) (hint : len ≤ intMax) :
    ∃ rest, beEncode t str len = .ok (bencode t ++ rest, (bencode t).length) ∧
      (bencode t).length + rest.length = str.length ∧
      ∀ z, beDecodenAt (bencode t ++ z) (bencode t).length = .ok (some t, ⟨z, 0⟩) := by
  rcases beEncode_eq t str len hlen hstr with ⟨rest, hrun, hrest⟩
  refine ⟨rest, hrun, hrest, ?_⟩
  intro z
  have hmax : ((bencode t).length : Int) ≤ llongMax := by
    have hle : intMax ≤ llongMax := by decide
    omega
  have hdec := ht.bencoded.decodes hmax z (bencode t).length le_rfl
  rw [Int.sub_self] at hdec
  exact beDecodenAt_eq_iff.2 hdec

/-- For every tree that the `be_create` and `be_add` functions make, `be_encode` returns the length
of its encoding, and decoding those bytes gives the tree back and consumes them all. -/
theorem beEncode_roundTrip {t : BeNode} (ht : Built t) {str : List UInt8} {len : Int}
    (hlen : ((bencode t).length : Int) < len) (hstr : len ≤ str.length) (hint : len ≤ intMax) :
    ∃ rest, beEncode t str len = .ok (bencode t ++ rest, (bencode t).length) ∧
      (bencode t).length + rest.length = str.length ∧
      ∀ z, beDecodenAt (bencode t ++ z) (bencode t).length = .ok (some t, ⟨z, 0⟩) :=
  ht.encodable.roundTrip hlen hstr hint

/-- The list with the least `long long` in it. -/
theorem beEncode_roundTrip_min : ∃ rest,
    beEncode (.list [.int llongMin]) (List.replicate 32 0) 32 =
        .ok (bencode (.list [.int llongMin]) ++ rest, (bencode (.list [.int llongMin])).length) ∧
      (bencode (.list [.int llongMin])).length + rest.length = (List.replicate 32 0).length ∧
      ∀ z, beDecodenAt (bencode (.list [.int llongMin]) ++ z)
        (bencode (.list [.int llongMin])).length = .ok (some (.list [.int llongMin]), ⟨z, 0⟩) :=
  beEncode_roundTrip (.item (.list beCreateList_eq) (.int (by decide) (by decide)))
    (by decide +kernel) (by decide) (by decide)

end BitDht
