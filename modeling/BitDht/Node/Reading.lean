import BitDht.Bencode.Bounds
import BitDht.Node.Fields

/-!
# Reading — a packet up to its fields

The sender, the decoder and the type decide whether `recvPkt` looks at the fields of a packet at
all.  `received` lists what can happen before that.
-/

namespace BitDht

open Outcome Recv

variable {mFns : BdDhtFunctions}

theorem beMsgGetY_of_type {n : BeNode} {beType : MsgType} (h : beMsgType n = .ok beType) :
    ∃ y, beMsgGetY n = .ok y := by
  rcases bind_eq_ok.1 h with ⟨y, hy, _⟩
  exact ⟨y, hy⟩

theorem beMsgGetY_error {n : BeNode} {e : Fault} (h : beMsgGetY n = .error e) :
    e = .nullNode ∨ e = .nullString := by
  rcases hy : beMsgGetDictNode n (ascii "y") with _ | y
  · rw [beMsgGetY, hy] at h
    cases h
    exact .inl rfl
  -- a node under `y` is read only when it is a string
  · cases y with
    | str s =>
        cases s with
        | none =>
            simp only [beMsgGetY, hy, firstByte, error_bind, Except.error.injEq] at h
            exact .inr h.symm
        | some s =>
            simp only [beMsgGetY, hy, firstByte, pure_eq_ok, ok_bind] at h
            split at h
            · cases h
            · split at h
              · cases h
              · cases h
    | int i =>
        simp [beMsgGetY, hy] at h
    | list l =>
        simp [beMsgGetY, hy] at h
    | dict d =>
        simp [beMsgGetY, hy] at h

/-- A packet that cannot be classified leads to a null pointer. -/
theorem beMsgType_error {n : BeNode} {e : Fault} (h : beMsgType n = .error e) :
    e = .nullNode ∨ e = .nullString := by
  rcases bind_eq_error.1 h with hy | ⟨y, _, hrest⟩
  · exact beMsgGetY_error hy
  · cases y with
    | unknown =>
        cases hrest
    | q =>
        -- the node under `q` is used without a test
        rcases hquery : beMsgGetDictNode n (ascii "q") with _ | query
        · simp only [hquery, matchQuery_none, Except.error.injEq] at hrest
          exact .inl hrest.symm
        · rcases matchQuery_some query queryNames with ⟨type, htype⟩
          simp only [hquery, htype] at hrest
          cases hrest
    | r =>
        rcases hreply : beMsgGetDictNode n (ascii "r") with _ | reply
        · simp [hreply] at hrest
        · simp [hreply] at hrest

namespace BdNode

/-- A packet of a known type goes through the blocks and the switch. -/
theorem recvAct_known {s : BdNode mFns} {addr : SockaddrIn}
    (hblack : s.isMemberOfBlackList addr = false) {p : List UInt8} {len : Nat} {node : BeNode}
    (hdec : beDecoden p len = .ok (some node)) {beType : MsgType}
    (htype : beMsgType node = .ok beType) (hknown : beType ≠ .unknown) {y : BeY}
    (hy : beMsgGetY node = .ok y) :
    s.recvAct p len addr = (parseFields node beType (y = .q) >>= fun r =>
      dispatch s p len addr beType r.1 r.2) := by
  simp [recvAct, hblack, call, need, hdec, htype, hy, hknown]

/-- How far `recvPkt` gets with the packet `p`. -/
inductive Received (s : BdNode mFns) (addr : SockaddrIn) (p : List UInt8) : Prop
  /-- nothing is read -/
  | blackListed (hblack : s.isMemberOfBlackList addr = true)
      (hrun : (s.recvAct p p.length addr).run = .ok none)
  /-- the decoder reads on behind the packet -/
  | cutShort (hcut : CutShort p) (hrun : (s.recvAct p p.length addr).run = .error .overread)
  /-- the decoder frees an entry that it never assigned -/
  | lostKey (hlost : LostKey p) (hrun : (s.recvAct p p.length addr).run = .error .unassigned)
  /-- the decoder returns NULL -/
  | notDecoded (hcut : ¬ CutShort p) (hlost : ¬ LostKey p) (hno : ∀ n r, ¬ Loose p n r)
      (hrun : (s.recvAct p p.length addr).run = .ok none)
  /-- `beMsgType` does not come back -/
  | notClassified {n : BeNode} {r : List UInt8} {e : Fault} (hn : Loose p n r)
      (htype : beMsgType n = .error e) (hrun : (s.recvAct p p.length addr).run = .error e)
  /-- the type is unknown -/
  | unknown {n : BeNode} {r : List UInt8} (hcut : ¬ CutShort p) (hlost : ¬ LostKey p)
      (hn : Loose p n r) (htype : beMsgType n = .ok .unknown)
      (hrun : (s.recvAct p p.length addr).run = .ok none)
  /-- the fields come next -/
  | known {n : BeNode} {r : List UInt8} {beType : MsgType} {y : BeY}
      (hblack : s.isMemberOfBlackList addr = false) (hcut : ¬ CutShort p) (hlost : ¬ LostKey p)
      (hn : Loose p n r) (hdec : beDecoden p p.length = .ok (some n))
      (htype : beMsgType n = .ok beType) (hknown : beType ≠ .unknown) (hy : beMsgGetY n = .ok y)
      (hrun : s.recvAct p p.length addr = (parseFields n beType (y = .q) >>= fun f =>
        dispatch s p p.length addr beType f.1 f.2))

theorem received (s : BdNode mFns) (addr : SockaddrIn) (p : List UInt8) : Received s addr p := by
  by_cases hblack : s.isMemberOfBlackList addr = true
  · exact .blackListed hblack (by simp [recvAct, hblack])
  rw [Bool.not_eq_true] at hblack
  by_cases hcut : CutShort p
  · exact .cutShort hcut (by simp [recvAct, hblack, call, beDecoden_of_cutShort hcut])
  have hcases := beDecoden_eq_of_complete hcut []
  rw [List.append_nil] at hcases
  rcases hcases with ⟨hlost, hdec⟩ | ⟨hlost, n, r, hn, hdec⟩ | ⟨hlost, hno, hdec⟩
  · exact .lostKey hlost (by simp [recvAct, hblack, call, hdec])
  · rcases htype : beMsgType n with e | beType
    · exact .notClassified hn htype (by simp [recvAct, hblack, call, need, hdec, htype])
    rcases beMsgGetY_of_type htype with ⟨y, hy⟩
    by_cases hknown : beType = .unknown
    · rw [hknown] at htype
      exact .unknown hcut hlost hn htype (by simp [recvAct, hblack, call, need, hdec, htype, hy])
    · exact .known hblack hcut hlost hn hdec htype hknown hy
        (recvAct_known hblack hdec htype hknown hy)
  · exact .notDecoded hcut hlost hno (by simp [recvAct, hblack, call, need, hdec])

/-- A packet that `recvPkt` does something with is one whose fields came through, and what it does is
what the switch makes of them. -/
theorem recvAct_some {s : BdNode mFns} {addr : SockaddrIn} {p : List UInt8} {act : RecvAct}
    (h : (s.recvAct p p.length addr).run = .ok (some act)) :
    s.isMemberOfBlackList addr = false ∧ ∃ n r beType t d i, Loose p n r ∧
      beDecoden p p.length = .ok (some n) ∧ beMsgType n = .ok beType ∧ TokensFit n beType ∧
      Complete n beType ∧ beMsgGetDictNode n (ascii "t") = some t ∧ packetBody n = some d ∧
      (dispatch s p p.length addr beType d (fieldsOf n beType t d i)).run = .ok (some act) := by
  cases s.received addr p with
  | @known n r beType y hblack _ _ hn hdec htype _ hy hrun =>
      rw [hrun] at h
      rcases parseFields_cases hy beType with ⟨_, hparse⟩ | ⟨_, _, hparse⟩ |
        ⟨hfit, hcomplete, t, d, i, ht, hd, _, hparse⟩
      · rw [bind_of_error hparse] at h
        cases h
      · rw [bind_of_none hparse] at h
        cases h
      · rw [bind_of_some hparse] at h
        exact ⟨hblack, n, r, beType, t, d, i, hn, hdec, htype, hfit, hcomplete, ht, hd, h⟩
  | blackListed _ hrun | cutShort _ hrun | lostKey _ hrun | notDecoded _ _ _ hrun
  | notClassified _ _ hrun | unknown _ _ _ _ hrun =>
      rw [hrun] at h
      cases h

end BdNode

end BitDht
