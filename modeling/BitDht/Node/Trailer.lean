import BitDht.Msgs.Detection
import BitDht.Node.Delivery
import BitDht.Node.Leftover
import BitDht.Node.Sending

/-!
# Trailer — NEWCONN and REPLY_NEWCONN, with a trailer and without

Both messages get as far as the trailer when a node receives them.  A trailer of `bitdht_ecrypt` has
the right checksum; where there is none, the bytes that are taken for it are text of the message, and
a checksum of so few bytes is never that number.
-/

namespace BitDht

open Outcome Recv

variable {mFns : BdDhtFunctions}

namespace Msg

/-! ## Up to the trailer -/

theorem tokensFit_tree {m : Msg} (h : m.Short) : TokensFit m.tree m.type := by
  intro t ht
  rw [m.tree_t, Option.some.injEq] at ht
  rw [← ht]
  refine ⟨not_overlong_strOf (h.tokens _ m.tid_mem_tokens), ?_⟩
  intro _ v hv
  rw [versionNode_tree] at hv
  rcases Option.map_eq_some_iff.1 hv with ⟨vid, hvid, rfl⟩
  exact not_overlong_strOf (h.tokens vid (vid_mem_tokens hvid))

theorem complete_tree (m : Msg) : Complete m.tree m.type := by
  have hfield := bodyField_some m.packetBody_tree
  refine ⟨by simp [m.tree_t], by simp [hfield, m.body_id], ?_⟩
  intro k hk
  rw [hfield]
  exact m.laterKeys_tree k hk

/-- The messages of the two types. -/
theorem eq_of_conn {m : Msg} (hconn : m.type = .newconn ∨ m.type = .replyNewconn) :
    (∃ tid id, m = .newconn tid id) ∨
      ∃ tid id peerId started, m = .replyNewconn tid id peerId started := by
  cases m with
  | newconn tid id => exact .inl ⟨tid, id, rfl⟩
  | replyNewconn tid id peerId started => exact .inr ⟨tid, id, peerId, started, rfl⟩
  | _ => simp [type] at hconn

/-- A short message of one of the two types comes to the trailer, whatever is put behind it. -/
theorem reachesTrailer {m : Msg} (h : m.Short) (hconn : m.type = .newconn ∨ m.type = .replyNewconn)
    (z : List UInt8) : ReachesTrailer (bencode m.tree ++ z) m.type := by
  refine ⟨m.tree, h.beDecoden_tree z, m.beMsgType_tree, tokensFit_tree h, m.complete_tree, ?_⟩
  have hfield := bodyField_some m.packetBody_tree
  rcases eq_of_conn hconn with ⟨tid, id, rfl⟩ | ⟨tid, id, peerId, started, rfl⟩
  · exact .inl rfl
  · refine .inr ⟨rfl, ?_, encodeCompactNodeId peerId, ?_, ?_⟩
    · rw [hfield, body, beMsgGetDictNode_there (by decide), beMsgGetDictNode_here (by decide)]
      simp
    · rw [hfield, body, beMsgGetDictNode_there (by decide), beMsgGetDictNode_there (by decide),
        beMsgGetDictNode_here (by decide)]
    · rw [length_encodeCompactNodeId]

end Msg

/-! ## With a trailer -/

theorem trailerValid_append {body tail : List UInt8} (h : tail.length = 8) :
    trailerValid (body ++ tail) = holds (loadU32 tail) (fun sum => sum == decryptSum body) := by
  have hlen : (body ++ tail).length - 8 = body.length := by
    rw [List.length_append, h, Nat.add_sub_cancel]
  rw [trailerValid, hlen, List.drop_left, List.take_left]

theorem trailerValid_ecrypt (body : List UInt8) (token : UInt32) :
    trailerValid (body ++ (storeU32 (ecryptSum body) ++ storeU32 token)) = true := by
  rw [trailerValid_append (by simp), loadU32_storeU32, holds, decryptSum_eq, beq_self_eq_true]

/-! ## Without one -/

/-- No checksum of a short text is a word with a letter for its last byte. -/
theorem decryptSum_ne {body : List UInt8} (hlen : body.length ≤ 4000) {word : UInt32}
    (hlo : 1000000 ≤ word.toNat) (hhi : word.toNat ≤ 4000000000) : word ≠ decryptSum body := by
  rintro rfl
  have hnear := sum_charInt_range body
  have hsum := charSum_toNat 0 body
  rw [UInt32.toNat_zero] at hsum
  rw [decryptSum, reduceSum, UInt32.toNat_mod, UInt32.toNat_add, UInt32.toNat_ofNat'] at hlo hhi
  have hmod : (4294967295 : UInt32).toNat = 4294967295 := rfl
  rw [hmod] at hlo hhi
  omega

/-- The last entry of a dictionary is the end of its encoding. -/
theorem bencode_dictOf_concat (entries : List (String × BeNode)) (key : String) (n : BeNode) :
    ∃ w, bencode (dictOf (entries ++ [(key, n)])) =
      chr 'd' :: w ++ (bencodeString (cstr (ascii key)) ++ (bencode n ++ [chr 'e'])) := by
  have hpairs : ∀ d : List (List UInt8 × BeNode), ∃ w, bencodePairs (d ++ [(ascii key, n)]) =
      w ++ (bencodeString (cstr (ascii key)) ++ bencode n) := by
    intro d
    induction d with
    | nil =>
        exact ⟨[], by simp [bencodePairs]⟩
    | cons e d ih =>
        rcases ih with ⟨w, hw⟩
        exact ⟨bencodeString (cstr e.1) ++ (bencode e.2 ++ w), by simp [bencodePairs, hw]⟩
  rcases hpairs (entries.map (fun e => (ascii e.1, e.2))) with ⟨w, hw⟩
  refine ⟨w, ?_⟩
  rw [dictOf, List.map_append, List.map_singleton, bencode, hw]
  simp

/-- A text that ends in a key of one letter and a value of one letter is no message with a trailer:
the word before its last four bytes is no checksum. -/
theorem trailerValid_text {w : List UInt8} (hw : w.length ≤ 4000) (c : UInt8) {key value : UInt8}
    (hlo : 1 ≤ key.toNat) (hhi : key.toNat ≤ 200) :
    trailerValid (w ++ [c, chr '1', chr ':', key, chr '1', chr ':', value, chr 'e']) = false := by
  have hload : loadU32 [c, chr '1', chr ':', key, chr '1', chr ':', value, chr 'e'] =
      .ok (UInt32.ofNat (c.toNat + 256 * 49 + 65536 * 58 + 16777216 * key.toNat)) := rfl
  have hc : c.toNat < 256 := c.toNat_lt
  have hword : (UInt32.ofNat (c.toNat + 256 * 49 + 65536 * 58 + 16777216 * key.toNat)).toNat =
      c.toNat + 256 * 49 + 65536 * 58 + 16777216 * key.toNat := by
    rw [UInt32.toNat_ofNat']
    omega
  rw [trailerValid_append rfl, hload, holds]
  exact beq_false_of_ne (decryptSum_ne hw (by omega) (by omega))

theorem Msg.trailerValid_bare {m : Msg} (h : m.Short)
    (hconn : m.type = .newconn ∨ m.type = .replyNewconn) :
    trailerValid (bencode m.tree) = false := by
  have hlen := h.length_le
  -- the messages of both types have such an entry for their last one
  have htail : ∃ entries key value, m.tree = dictOf (entries ++ [(key, strOf [value])]) ∧
      ∃ k : UInt8, bencodeString (cstr (ascii key)) = [chr '1', chr ':', k] ∧ 1 ≤ k.toNat ∧
        k.toNat ≤ 200 := by
    rcases Msg.eq_of_conn hconn with ⟨tid, id, rfl⟩ | ⟨tid, id, peerId, started, rfl⟩
    · exact ⟨[("a", dictOf _), ("q", _), ("t", _)], "y", chr 'q', rfl, chr 'y', by decide⟩
    · cases started with
      | true =>
          exact ⟨[("r", dictOf _), ("t", _), ("y", _)], "n", chr 'y', rfl, chr 'n', by decide⟩
      | false =>
          exact ⟨[("r", dictOf _), ("t", _), ("y", _)], "n", chr 'n', rfl, chr 'n', by decide⟩
  rcases htail with ⟨entries, key, value, htree, k, hkey, hlo, hhi⟩
  rcases bencode_dictOf_concat entries key (strOf [value]) with ⟨w, hw⟩
  have hvalue : bencode (strOf [value]) = [chr '1', chr ':', value] := by
    rw [strOf, bencode, bencodeString]
    rfl
  rw [hkey, hvalue] at hw
  -- the byte in front of the key belongs to the word as well
  have hfront : chr 'd' :: w = (chr 'd' :: w).dropLast ++ [(chr 'd' :: w).getLast (by simp)] :=
    (List.dropLast_append_getLast _).symm
  rw [htree, hw] at hlen ⊢
  rw [hfront, List.append_assoc]
  refine trailerValid_text ?_ _ hlo hhi
  rw [List.length_dropLast]
  simp only [List.length_append, List.length_cons] at hlen ⊢
  omega

end BitDht
