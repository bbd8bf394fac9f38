import BitDht.Node.Extraction

/-!
# Leftover — a trailer that is read into the wrong place

`bitdht_decrypt` writes the last bytes of the packet behind its scratch word, so the token that it
returns is what the word held before.  In `recvPkt` the model stops at the first of these writes; here
they are lost, as on a machine where nothing lies behind the word, and the packet is received with
the leftover `word` for its token.
-/

namespace BitDht

open Outcome Recv

variable {mFns : BdDhtFunctions}

/-! ## The functions -/

/-- `c.byte[j] = b`, which is lost where it is behind the word. -/
def setScratchOn (c : List UInt8) (j : Int) (b : UInt8) : List UInt8 :=
  if 0 ≤ j ∧ j < 4 then c.set j.toNat b else c

/-- `c.byte[j] = msg[j]` for `count` indices from `j` on. -/
def copyScratchOn (msg c : List UInt8) : Nat → Int → Exec (List UInt8)
  | 0, _ => pure c
  | count + 1, j => do
      let b ← charAt msg j
      copyScratchOn msg (setScratchOn c j b) count (j + 1)

/-- `bitdht_decrypt`, whose scratch starts with what `word` left there. -/
def bitdhtDecryptOn (word : UInt32) (msg : List UInt8) (size : Nat) : Exec (Bool × UInt32) := do
  let c ← copyScratchOn msg (storeU32 word) 4 ((size : Int) - 4)
  let token ← loadU32 c
  let body ← readBytes (size - 8) msg
  let c ← readBytes 4 (msg.drop (size - 8))
  let sum ← loadU32 c
  pure (sum == decryptSum body, token)

/-- The cases of NEWCONN and REPLY_NEWCONN. -/
def recvEcryptedOn (word : UInt32) (s : BdNode mFns) (msg : List UInt8) (len : Nat)
    (addr : SockaddrIn) (m : MsgIn) : Recv RecvAct := do
  let (valid, token) ← call (bitdhtDecryptOn word msg len)
  if s.isUsedToken token then
    pure (.addBlackList addr)
  else if valid then
    pure (.msgin m)
  else
    failure

/-- The switch of `recvPkt`, of which two cases read the trailer. -/
def dispatchOn (word : UInt32) (s : BdNode mFns) (msg : List UInt8) (len : Nat)
    (addr : SockaddrIn) (beType : MsgType) (beData : BeNode) (f : Fields) : Recv RecvAct :=
  match beType with
  | .newconn => recvEcryptedOn word s msg len addr (.askMyip { addr := addr, id := f.id } f.transId)
  | .replyNewconn => do
      let _ ← need (beMsgGetDictNode beData (ascii "newconn"))
      let bePid ← need (beMsgGetDictNode beData (ascii "pid"))
      let peerId ← call (beMsgGetBdId bePid)
      let peerId ← need peerId
      recvEcryptedOn word s msg len addr (.replyAskMyip peerId f.transId)
  | beType => dispatch s msg len addr beType beData f

namespace BdNode

/-- What `recvPkt` does with a packet; it fails where the packet is dropped. -/
def recvActOn (word : UInt32) (s : BdNode mFns) (msg : List UInt8) (len : Nat) (addr : SockaddrIn) :
    Recv RecvAct :=
  if s.isMemberOfBlackList addr then
    failure
  else do
    let node ← call (beDecoden msg len)
    let node ← need node
    let beType ← call (beMsgType node)
    let y ← call (beMsgGetY node)
    if beType = .unknown then
      failure
    else do
      let (beData, f) ← parseFields node beType (y = .q)
      dispatchOn word s msg len addr beType beData f

/-- `recvPkt` -/
def recvPktOn (word : UInt32) (s : BdNode mFns) (now : Int) (junk : Junk) (msg : List UInt8)
    (len : Nat) (addr : SockaddrIn) : Exec (BdNode mFns) := do
  let act ← (s.recvActOn word msg len addr).run
  s.perform now junk act

end BdNode

/-! ## What the trailer comes to -/

/-- The four bytes in front of the last four are the checksum of those before them. -/
def trailerValid (p : List UInt8) : Bool :=
  holds (loadU32 (p.drop (p.length - 8))) (fun sum => sum == decryptSum (p.take (p.length - 8)))

theorem charAt_of_lt {msg : List UInt8} {j : Int} (h : 0 ≤ j) (hlt : j < msg.length) :
    ∃ b, charAt msg j = .ok b := by
  have hdrop : 0 < (msg.drop j.toNat).length := by
    rw [List.length_drop]
    omega
  rcases List.exists_cons_of_length_pos hdrop with ⟨b, bs, hb⟩
  refine ⟨b, ?_⟩
  rw [charAt, if_neg (not_lt.2 h), hb, deref_cons]

/-- Behind the word, nothing of the packet gets into it. -/
theorem copyScratchOn_behind {msg c : List UInt8} {count : Nat} {j : Int} (hj : 4 ≤ j)
    (hend : j + count ≤ msg.length) : copyScratchOn msg c count j = .ok c := by
  induction count generalizing j with
  | zero =>
      rfl
  | succ count ih =>
      rcases charAt_of_lt (by omega) (by omega : j < msg.length) with ⟨b, hb⟩
      have hlost : setScratchOn c j b = c := if_neg (by omega)
      rw [copyScratchOn, hb, ok_bind, hlost]
      exact ih (by omega) (by omega)

theorem loadU32_take {s : List UInt8} : loadU32 (s.take 4) = loadU32 s := by
  match s with
  | [] => rfl
  | [_] => rfl
  | [_, _] => rfl
  | [_, _, _] => rfl
  | _ :: _ :: _ :: _ :: _ => rfl

/-- A packet that is long enough for a trailer gives the leftover word. -/
theorem bitdhtDecryptOn_eq (word : UInt32) {p : List UInt8} (h : 8 ≤ p.length) :
    bitdhtDecryptOn word p p.length = .ok (trailerValid p, word) := by
  have hcopy := @copyScratchOn_behind p (storeU32 word) 4 ((p.length : Int) - 4) (by omega) (by omega)
  have htoken := loadU32_storeU32 word []
  rw [List.append_nil] at htoken
  have hbody : readBytes (p.length - 8) p = .ok (p.take (p.length - 8)) := if_pos (by omega)
  have hdrop : 4 ≤ (p.drop (p.length - 8)).length := by
    rw [List.length_drop]
    omega
  have hword : readBytes 4 (p.drop (p.length - 8)) = .ok ((p.drop (p.length - 8)).take 4) :=
    if_pos hdrop
  rcases loadU32_of_le hdrop with ⟨sum, hsum⟩
  rw [bitdhtDecryptOn, hcopy, ok_bind, htoken, ok_bind, hbody, ok_bind, hword, ok_bind, loadU32_take,
    hsum, ok_bind, trailerValid, hsum, holds]
  rfl

/-! ## Which packets come so far -/

/-- The blocks let the packet pass, and its type is one of the two with a trailer. -/
def ReachesTrailer (p : List UInt8) (beType : MsgType) : Prop :=
  ∃ n, beDecoden p p.length = .ok (some n) ∧ beMsgType n = .ok beType ∧ TokensFit n beType ∧
    Complete n beType ∧ (beType = .newconn ∨ beType = .replyNewconn ∧
      bodyField n "newconn" ≠ none ∧ IsCompactId (bodyField n "pid"))

/-- The calls that such a packet from `addr` leads to. -/
def MsgIn.IsConn (addr : SockaddrIn) : MsgIn → MsgType → Prop
  | .askMyip tunnelId transId, .newconn =>
      tunnelId.addr = addr ∧ transId.len ≤ bitdhtTokenMaxLen
  | .replyAskMyip _ transId, .replyNewconn => transId.len ≤ bitdhtTokenMaxLen
  | _, _ => False

/-- The other cases are those of `recvPkt`. -/
theorem dispatchOn_plain {beType : MsgType} (h : beType ≠ .newconn) (h' : beType ≠ .replyNewconn)
    (word : UInt32) (s : BdNode mFns) (p : List UInt8) (len : Nat) (addr : SockaddrIn) (d : BeNode)
    (f : Fields) : dispatchOn word s p len addr beType d f = dispatch s p len addr beType d f := by
  cases beType
  case newconn => exact absurd rfl h
  case replyNewconn => exact absurd rfl h'
  all_goals rfl

theorem dispatchOn_replyNewconn (word : UInt32) (s : BdNode mFns) (msg : List UInt8) (len : Nat)
    (addr : SockaddrIn) (d : BeNode) (f : Fields) :
    dispatchOn word s msg len addr .replyNewconn d f =
      match beMsgGetDictNode d (ascii "newconn"), bdIdOf (beMsgGetDictNode d (ascii "pid")) with
      | some _, some peerId => recvEcryptedOn word s msg len addr (.replyAskMyip peerId f.transId)
      | _, _ => OptionT.mk (.ok none) := by
  simp only [dispatchOn, need, call]
  rcases beMsgGetDictNode d (ascii "newconn") with _ | _
  · rfl
  rcases beMsgGetDictNode d (ascii "pid") with _ | pid
  · rfl
  simp only [beMsgGetBdId_eq, pure_eq_ok, mk_some_bind, lift_ok_bind]
  rcases bdIdOf (some pid) with _ | peerId
  · rfl
  · rfl

theorem recvEcryptedOn_run (word : UInt32) (s : BdNode mFns) {p : List UInt8} (h : 8 ≤ p.length)
    (addr : SockaddrIn) (m : MsgIn) : (recvEcryptedOn word s p p.length addr m).run =
      .ok (if s.isUsedToken word then some (.addBlackList addr)
        else if trailerValid p then some (.msgin m) else none) := by
  simp only [recvEcryptedOn, call, bitdhtDecryptOn_eq word h, lift_ok_bind]
  split
  · rfl
  · split
    · rfl
    · rfl

/-- A packet with a body has three keys, which take the eight bytes that the trailer is read from. -/
theorem length_of_body {p r : List UInt8} {n y t d : BeNode} (h : Loose p n r)
    (hy : beMsgGetDictNode n (ascii "y") = some y) (ht : beMsgGetDictNode n (ascii "t") = some t)
    (hd : packetBody n = some d) : 8 ≤ p.length := by
  have hbody : ∃ key, (key = ascii "a" ∨ key = ascii "r") ∧ beMsgGetDictNode n key = some d := by
    rw [packetBody] at hd
    split_ifs at hd
    · exact ⟨_, .inl rfl, hd⟩
    · exact ⟨_, .inr rfl, hd⟩
  rcases hbody with ⟨key, hkey, hd⟩
  have hnodup : ([ascii "y", ascii "t", key].map cstr).Nodup := by
    rcases hkey with rfl | rfl
    · decide
    · decide
  exact length_of_keys h hnodup (by simp [hy, ht, hd]) (List.cons_ne_nil _ _)

/-- What the blocks make of such a packet. -/
theorem ReachesTrailer.parsed {p : List UInt8} {beType : MsgType} (h : ReachesTrailer p beType) :
    ∃ n y t d i, beDecoden p p.length = .ok (some n) ∧ beMsgType n = .ok beType ∧
      beType ≠ .unknown ∧ beMsgGetY n = .ok y ∧
      (parseFields n beType (y = .q)).run = .ok (some (d, fieldsOf n beType t d i)) ∧
      (tokenOf t).len ≤ bitdhtTokenMaxLen ∧ 8 ≤ p.length ∧
      (beType = .newconn ∨ beType = .replyNewconn ∧ ∃ new peerId,
        beMsgGetDictNode d (ascii "newconn") = some new ∧
        bdIdOf (beMsgGetDictNode d (ascii "pid")) = some peerId) := by
  rcases h with ⟨n, hdec, htype, hfit, hcomplete, hconn⟩
  have hknown : beType ≠ .unknown := by
    rintro rfl
    rcases hconn with h | h
    · cases h
    · cases h.1
  rcases beMsgGetY_of_type htype with ⟨y, hy⟩
  rcases parseFields_cases hy beType with ⟨hno, _⟩ | ⟨_, hno, _⟩ |
    ⟨_, _, t, d, i, ht, hd, hi, hparse⟩
  · exact absurd hfit hno
  · exact absurd hcomplete hno
  rcases dictNode_y_of_type htype with ⟨x, hx⟩
  rcases loose_of_beDecoden hdec with ⟨r, hn⟩
  refine ⟨n, y, t, d, i, hdec, htype, hknown, hy, hparse, len_tokenOf_le (hfit t ht).1,
    length_of_body hn hx ht hd, ?_⟩
  rcases hconn with rfl | ⟨rfl, hnew, hpid⟩
  · exact .inl rfl
  · rw [bodyField_some hd] at hnew hpid
    rw [isCompactId_iff] at hpid
    rcases Option.ne_none_iff_exists'.1 hnew with ⟨new, hnew⟩
    rcases Option.ne_none_iff_exists'.1 hpid with ⟨peerId, hpid⟩
    exact .inr ⟨rfl, new, peerId, hnew, hpid⟩

theorem dispatch_ne_addBlackList {len : Nat} (hlen : len ≠ 4) (s : BdNode mFns) (msg : List UInt8)
    (addr : SockaddrIn) (beType : MsgType) (d : BeNode) (f : Fields) (a : SockaddrIn) :
    (dispatch s msg len addr beType d f).run ≠ .ok (some (.addBlackList a)) := by
  cases beType with
  | newconn =>
      exact recvEcrypted_ne_ok hlen
  | replyNewconn =>
      rw [dispatch_replyNewconn]
      split
      · exact recvEcrypted_ne_ok hlen
      · exact fun h => nomatch h
  | broadcastConn =>
      rw [dispatch_broadcastConn]
      split
      · exact fun h => nomatch h
      · exact fun h => nomatch h
  | askConn =>
      rw [dispatch_askConn]
      split
      · exact fun h => nomatch h
      · exact fun h => nomatch h
  | _ => exact fun h => nomatch h

namespace BdNode

theorem recvActOn_known {s : BdNode mFns} {addr : SockaddrIn}
    (hblack : s.isMemberOfBlackList addr = false) {p : List UInt8} {len : Nat} {node : BeNode}
    (hdec : beDecoden p len = .ok (some node)) {beType : MsgType}
    (htype : beMsgType node = .ok beType) (hknown : beType ≠ .unknown) {y : BeY}
    (hy : beMsgGetY node = .ok y) (word : UInt32) :
    s.recvActOn word p len addr = (parseFields node beType (y = .q) >>= fun r =>
      dispatchOn word s p len addr beType r.1 r.2) := by
  simp [recvActOn, hblack, call, need, hdec, htype, hy, hknown]

/-- A packet that comes so far is judged by the leftover word and its checksum. -/
theorem recvActOn_of_reaches {s : BdNode mFns} {addr : SockaddrIn} {p : List UInt8}
    {beType : MsgType} (hblack : s.isMemberOfBlackList addr = false)
    (h : ReachesTrailer p beType) (word : UInt32) : ∃ c : MsgIn, c.IsConn addr beType ∧
      (s.recvActOn word p p.length addr).run =
        .ok (if s.isUsedToken word then some (.addBlackList addr)
          else if trailerValid p then some (.msgin c) else none) := by
  rcases h.parsed with ⟨n, y, t, d, i, hdec, htype, hknown, hy, hparse, htoken, hlen, hconn⟩
  rw [recvActOn_known hblack hdec htype hknown hy, bind_of_some hparse]
  rcases hconn with rfl | ⟨rfl, new, peerId, hnew, hpid⟩
  · exact ⟨.askMyip ⟨addr, beMsgGetNodeId i⟩ (tokenOf t), ⟨rfl, htoken⟩,
      recvEcryptedOn_run word s hlen addr _⟩
  · refine ⟨.replyAskMyip peerId (tokenOf t), htoken, ?_⟩
    simp only [dispatchOn_replyNewconn, hnew, hpid]
    exact recvEcryptedOn_run word s hlen addr _

/-- The other packets never get to the trailer. -/
theorem recvActOn_of_not_reaches {s : BdNode mFns} {addr : SockaddrIn} {p : List UInt8}
    (h : s.isMemberOfBlackList addr = false → ∀ beType, ¬ ReachesTrailer p beType)
    (word : UInt32) :
    (s.recvActOn word p p.length addr).run = (s.recvAct p p.length addr).run := by
  by_cases hblack : s.isMemberOfBlackList addr = true
  · simp [recvActOn, recvAct, hblack]
  rw [Bool.not_eq_true] at hblack
  rcases hdec : beDecoden p p.length with e | _ | n
  · simp [recvActOn, recvAct, hblack, call, hdec]
  · simp [recvActOn, recvAct, hblack, call, need, hdec]
  rcases htype : beMsgType n with e | beType
  · simp [recvActOn, recvAct, hblack, call, need, hdec, htype]
  rcases beMsgGetY_of_type htype with ⟨y, hy⟩
  by_cases hknown : beType = .unknown
  · simp [recvActOn, recvAct, hblack, call, need, hdec, htype, hy, hknown]
  rw [recvActOn_known hblack hdec htype hknown hy, recvAct_known hblack hdec htype hknown hy]
  rcases parseFields_cases hy beType with ⟨_, hparse⟩ | ⟨_, _, hparse⟩ |
    ⟨hfit, hcomplete, t, d, i, ht, hd, hi, hparse⟩
  · rw [bind_of_error hparse, bind_of_error hparse]
  · rw [bind_of_none hparse, bind_of_none hparse]
  rw [bind_of_some hparse, bind_of_some hparse]
  -- the switch is the same, except where the trailer is read
  cases beType with
  | newconn =>
      exact absurd ⟨n, hdec, htype, hfit, hcomplete, .inl rfl⟩ (h hblack .newconn)
  | replyNewconn =>
      have hno := h hblack .replyNewconn
      simp only [dispatchOn_replyNewconn, dispatch_replyNewconn]
      rcases hnew : beMsgGetDictNode d (ascii "newconn") with _ | new
      · rfl
      rcases hpid : bdIdOf (beMsgGetDictNode d (ascii "pid")) with _ | peerId
      · rfl
      refine absurd ⟨n, hdec, htype, hfit, hcomplete, .inr ⟨rfl, ?_, ?_⟩⟩ hno
      · rw [bodyField_some hd, hnew]
        simp
      · rw [bodyField_some hd, isCompactId_iff, hpid]
        simp
  | _ => rfl

/-- A read of the trailer is where the model of `recvPkt` stops. -/
theorem recvAct_of_reaches {s : BdNode mFns} {addr : SockaddrIn} {p : List UInt8}
    {beType : MsgType} (hblack : s.isMemberOfBlackList addr = false)
    (h : ReachesTrailer p beType) : ∃ e, (s.recvAct p p.length addr).run = .error e := by
  rcases h.parsed with ⟨n, y, t, d, i, hdec, htype, hknown, hy, hparse, _, hlen, hconn⟩
  have hne : p.length ≠ 4 := by omega
  rw [recvAct_known hblack hdec htype hknown hy, bind_of_some hparse]
  rcases hconn with rfl | ⟨rfl, new, peerId, hnew, hpid⟩
  · exact recvEcrypted_error hne s p addr _
  · simp only [dispatch_replyNewconn, hnew, hpid]
    exact recvEcrypted_error hne s p addr _

/-- Where the model of `recvPkt` goes on, no address is put on the blacklist. -/
theorem recvAct_ne_addBlackList (s : BdNode mFns) (addr : SockaddrIn) (p : List UInt8)
    (a : SockaddrIn) : (s.recvAct p p.length addr).run ≠ .ok (some (.addBlackList a)) := by
  intro h
  rcases recvAct_some h with ⟨_, n, r, beType, t, d, i, hn, _, htype, _, _, ht, _, hact⟩
  rcases dictNode_y_of_type htype with ⟨y, hy⟩
  exact dispatch_ne_addBlackList (length_ne_four hn hy ht) s p addr beType d _ a hact

/-- A packet puts its sender on the blacklist exactly when it comes to the trailer and the leftover
word is a token of the node. -/
theorem recvActOn_addBlackList_iff {s : BdNode mFns} {addr a : SockaddrIn} {p : List UInt8}
    {word : UInt32} : (s.recvActOn word p p.length addr).run = .ok (some (.addBlackList a)) ↔
      a = addr ∧ s.isMemberOfBlackList addr = false ∧ (∃ beType, ReachesTrailer p beType) ∧
        s.isUsedToken word = true := by
  by_cases hreach : s.isMemberOfBlackList addr = false ∧ ∃ beType, ReachesTrailer p beType
  · rcases hreach with ⟨hblack, beType, hreach⟩
    rcases recvActOn_of_reaches hblack hreach word with ⟨c, _, hrun⟩
    rw [hrun]
    by_cases hused : s.isUsedToken word = true
    · simp only [hused, hblack, if_true, Except.ok.injEq, Option.some.injEq,
        RecvAct.addBlackList.injEq, true_and, and_true]
      exact ⟨fun h => ⟨h.symm, beType, hreach⟩, fun h => h.1.symm⟩
    · refine iff_of_false ?_ (fun h => hused h.2.2.2)
      rw [if_neg hused]
      split_ifs
      · exact fun h => nomatch h
      · exact fun h => nomatch h
  · refine iff_of_false ?_ (fun h => hreach ⟨h.2.1, h.2.2.1⟩)
    rw [recvActOn_of_not_reaches (fun hblack beType h => hreach ⟨hblack, beType, h⟩) word]
    exact s.recvAct_ne_addBlackList addr p a

/-- Where the model of `recvPkt` does not stop, no leftover word makes a difference. -/
theorem recvPktOn_eq_of_ok {s s' : BdNode mFns} {now : Int} {junk : Junk} {p : List UInt8}
    {addr : SockaddrIn} (h : s.recvPkt now junk p p.length addr = .ok s') (word : UInt32) :
    s.recvPktOn word now junk p p.length addr = .ok s' := by
  rcases bind_eq_ok.1 h with ⟨act, hact, hs'⟩
  have hno : s.isMemberOfBlackList addr = false → ∀ beType, ¬ ReachesTrailer p beType := by
    intro hblack beType hreach
    rcases recvAct_of_reaches hblack hreach with ⟨e, he⟩
    rw [he] at hact
    cases hact
  rw [recvPktOn, recvActOn_of_not_reaches hno word, hact]
  exact hs'

end BdNode

end BitDht
