import BitDht.Node.Known

/-!
# Tokens — lengths of tokens over a run

`beMsgGetToken` copies a string into the array of a token without asking how long it is.  In a run
whose packets have no overlong string in that place, every token that a handler is called with and
every transaction id in the queue of remote queries fits in the array, and in no other run do the
copies stay inside it (`tokensBounded_iff`).  A packet that can be classified besides is one that
`recvPkt` comes back from (`Readable`, `recvActOn_ok_iff`).
-/

namespace BitDht

open Outcome Recv

variable {mFns : BdDhtFunctions}

/-! ## The faults of the switch -/

theorem charAt_error {msg : List UInt8} {j : Int} {e : Fault} (h : charAt msg j = .error e) :
    e = .overread := by
  rw [charAt] at h
  split at h
  · cases h
    rfl
  · rcases hdrop : msg.drop j.toNat with _ | ⟨b, bs⟩
    · rw [hdrop, deref_nil] at h
      cases h
      rfl
    · rw [hdrop, deref_cons] at h
      cases h

theorem copyScratchOn_error {msg c : List UInt8} {count : Nat} {j : Int} {e : Fault}
    (h : copyScratchOn msg c count j = .error e) : e = .overread := by
  induction count generalizing c j with
  | zero =>
      cases h
  | succ count ih =>
      -- each round reads a byte of the message; where it is written never fails
      rcases bind_eq_error.1 h with hb | ⟨b, _, h⟩
      · exact charAt_error hb
      · exact ih h

theorem loadU32_error {s : List UInt8} {e : Fault} (h : loadU32 s = .error e) : e = .overread := by
  match s, h with
  | [], h => cases h; rfl
  | [_], h => cases h; rfl
  | [_, _], h => cases h; rfl
  | [_, _, _], h => cases h; rfl

theorem readBytes_error {n : Nat} {src : List UInt8} {e : Fault}
    (h : readBytes n src = .error e) : e = .overread := by
  rw [readBytes] at h
  split at h
  · cases h
  · cases h
    rfl

theorem bitdhtDecryptOn_error {word : UInt32} {msg : List UInt8} {size : Nat} {e : Fault}
    (h : bitdhtDecryptOn word msg size = .error e) : e = .overread := by
  rcases bind_eq_error.1 h with hc | ⟨c, _, h⟩
  · exact copyScratchOn_error hc
  rcases bind_eq_error.1 h with htoken | ⟨token, _, h⟩
  · exact loadU32_error htoken
  rcases bind_eq_error.1 h with hbody | ⟨body, _, h⟩
  · exact readBytes_error hbody
  rcases bind_eq_error.1 h with hword | ⟨word, _, h⟩
  · exact readBytes_error hword
  rcases bind_eq_error.1 h with hsum | ⟨sum, _, h⟩
  · exact loadU32_error hsum
  · cases h

/-- What the switch may do with the local variables `f`: a call gets its tokens from there, and no
fault is a write past a token. -/
def SwitchResult (f : Fields) (x : Exec (Option RecvAct)) : Prop :=
  x ≠ .error .tokenOverrun ∧ ∀ c, x = .ok (some (.msgin c)) →
    ∀ tok ∈ c.tokens, tok = f.transId ∨ tok = f.token ∨ f.versionId = some tok

theorem switchResult_drop (f : Fields) : SwitchResult f (.ok none) :=
  ⟨by simp, fun c hc => by cases hc⟩

theorem switchResult_msgin {f : Fields} {c : MsgIn}
    (h : ∀ tok ∈ c.tokens, tok = f.transId ∨ tok = f.token ∨ f.versionId = some tok) :
    SwitchResult f (.ok (some (.msgin c))) := by
  refine ⟨by simp, ?_⟩
  rintro _ ⟨⟩
  exact h

theorem recvEcryptedOn_result {f : Fields} {c : MsgIn} (hc : ∀ tok ∈ c.tokens, tok = f.transId)
    (word : UInt32) (s : BdNode mFns) (msg : List UInt8) (len : Nat) (addr : SockaddrIn) :
    SwitchResult f (recvEcryptedOn word s msg len addr c).run := by
  rcases hdec : bitdhtDecryptOn word msg len with e | ⟨valid, token⟩
  · have hrun : (recvEcryptedOn word s msg len addr c).run = .error e := by
      simp [recvEcryptedOn, call, hdec]
    rw [hrun, bitdhtDecryptOn_error hdec]
    exact ⟨by simp, fun c hc => by cases hc⟩
  · simp only [recvEcryptedOn, call, hdec, lift_ok_bind]
    -- a known token, then a valid checksum
    split
    · exact ⟨by simp, fun c hc => by cases hc⟩
    · split
      · exact switchResult_msgin (fun tok ht => .inl (hc tok ht))
      · exact switchResult_drop f

theorem dispatchOn_result (word : UInt32) (s : BdNode mFns) (msg : List UInt8) (len : Nat)
    (addr : SockaddrIn) (beType : MsgType) (beData : BeNode) (f : Fields) :
    SwitchResult f (dispatchOn word s msg len addr beType beData f).run := by
  cases beType
  case newconn =>
    exact recvEcryptedOn_result (by simp [MsgIn.tokens]) word s msg len addr
  case replyNewconn =>
    rw [dispatchOn_replyNewconn]
    split
    · exact recvEcryptedOn_result (by simp [MsgIn.tokens]) word s msg len addr
    · exact switchResult_drop f
  case broadcastConn =>
    rw [dispatchOn_plain MsgType.noConfusion MsgType.noConfusion, dispatch_broadcastConn]
    split
    · exact switchResult_msgin (by simp [MsgIn.tokens])
    · exact switchResult_drop f
  case askConn =>
    rw [dispatchOn_plain MsgType.noConfusion MsgType.noConfusion, dispatch_askConn]
    split
    · exact switchResult_msgin (by simp [MsgIn.tokens])
    · exact switchResult_drop f
  case replyConn =>
    exact switchResult_drop f
  case unknown =>
    exact switchResult_drop f
  -- only this call has a token besides the transaction id that need not be empty
  case pong =>
    apply switchResult_msgin
    intro tok htok
    rcases List.mem_cons.1 htok with rfl | htok
    · exact .inl rfl
    · exact .inr (.inr (Option.mem_toList.1 htok))
  all_goals
    exact switchResult_msgin (by simp [MsgIn.tokens])

/-- What the first `len` bytes of `data` are read as, if it has a known type, has no overlong string
where the blocks fill a token. -/
def PacketFits (data : List UInt8) (len : Nat) : Prop :=
  ∀ n beType, beDecoden data len = .ok (some n) → beMsgType n = .ok beType → beType ≠ .unknown →
    TokensFit n beType

/-- Where the packet is not cut short, its own bytes say whether it fits. -/
theorem packetFits_append_iff {p : List UInt8} (h : ¬ CutShort p) (rest : List UInt8) :
    PacketFits (p ++ rest) p.length ↔ ∀ n r beType, ¬ LostKey p → Loose p n r →
      beMsgType n = .ok beType → beType ≠ .unknown → TokensFit n beType := by
  have hcases := beDecoden_eq_of_complete h rest
  constructor
  · intro hfits n r beType hlost hn
    apply hfits n beType
    rcases hcases with ⟨hl, _⟩ | ⟨_, t, r', ht, hrun⟩ | ⟨_, hno, _⟩
    · exact absurd hl hlost
    · rw [hrun, (hn.rest_unique ht).1]
    · exact absurd hn (hno n r)
  · intro hfits n beType hdec
    rcases hcases with ⟨_, hrun⟩ | ⟨hlost, t, r, ht, hrun⟩ | ⟨_, _, hrun⟩
    · rw [hrun] at hdec
      cases hdec
    · rw [hrun, Except.ok.injEq, Option.some.injEq] at hdec
      rw [hdec] at ht
      exact hfits n r beType hlost ht
    · rw [hrun] at hdec
      cases hdec

theorem len_fieldsOf_le {n : BeNode} {beType : MsgType} (hfit : TokensFit n beType)
    {t d i : BeNode} (ht : beMsgGetDictNode n (ascii "t") = some t) (hid : bodyField n "id" ≠ none)
    {tok : BdToken} (h : tok = (fieldsOf n beType t d i).transId ∨
      tok = (fieldsOf n beType t d i).token ∨ (fieldsOf n beType t d i).versionId = some tok) :
    tok.len ≤ bitdhtTokenMaxLen := by
  rcases hfit t ht with ⟨hshort, hversion⟩
  rcases h with rfl | rfl | h
  · exact len_tokenOf_le hshort
  · exact Nat.zero_le _
  · rcases Option.map_eq_some_iff.1 h with ⟨v, hv, rfl⟩
    exact len_tokenOf_le (hversion hid v hv)

namespace BdNode

variable {s : BdNode mFns} {word : UInt32} {data : List UInt8} {len : Nat} {addr : SockaddrIn}

/-- How far `recvPkt` gets: it gives the packet up before it looks at the fields, or the fields of a tree
of a known type come next. -/
theorem recvActOn_cases (s : BdNode mFns) (word : UInt32) (data : List UInt8) (len : Nat)
    (addr : SockaddrIn) :
    (s.isMemberOfBlackList addr = true ∧ (s.recvActOn word data len addr).run = .ok none) ∨
    (s.isMemberOfBlackList addr = false ∧
      (∀ n beType, beDecoden data len = .ok (some n) → beMsgType n = .ok beType →
        beType = .unknown) ∧
      ((s.recvActOn word data len addr).run = .ok none ∨
        ∃ e, e ≠ .tokenOverrun ∧ (s.recvActOn word data len addr).run = .error e)) ∨
    (s.isMemberOfBlackList addr = false ∧ ∃ n beType y, beDecoden data len = .ok (some n) ∧
      beMsgType n = .ok beType ∧ beType ≠ .unknown ∧ beMsgGetY n = .ok y ∧
      s.recvActOn word data len addr = (parseFields n beType (y = .q) >>= fun r =>
        dispatchOn word s data len addr beType r.1 r.2)) := by
  by_cases hblack : s.isMemberOfBlackList addr = true
  · exact .inl ⟨hblack, by simp [recvActOn, hblack]⟩
  rw [Bool.not_eq_true] at hblack
  right
  rcases hdec : beDecoden data len with e | _ | n
  · refine .inl ⟨hblack, ?_, .inr ⟨e, ?_, ?_⟩⟩
    · rintro n beType ⟨⟩
    · rcases beDecoden_error hdec with rfl | rfl
      · simp
      · simp
    · simp [recvActOn, hblack, call, hdec]
  · refine .inl ⟨hblack, ?_, .inl ?_⟩
    · rintro n beType ⟨⟩
    · simp [recvActOn, hblack, call, need, hdec]
  rcases htype : beMsgType n with e | beType
  · refine .inl ⟨hblack, ?_, .inr ⟨e, ?_, ?_⟩⟩
    · rintro _ beType ⟨⟩ hn
      rw [htype] at hn
      cases hn
    · rcases beMsgType_error htype with rfl | rfl
      · simp
      · simp
    · simp [recvActOn, hblack, call, need, hdec, htype]
  rcases beMsgGetY_of_type htype with ⟨y, hy⟩
  by_cases hknown : beType = .unknown
  · refine .inl ⟨hblack, ?_, .inl ?_⟩
    · rintro _ beType' ⟨⟩ hn
      rw [htype, Except.ok.injEq] at hn
      rw [← hn, hknown]
    · simp [recvActOn, hblack, call, need, hdec, htype, hy, hknown]
  · exact .inr ⟨hblack, n, beType, y, rfl, htype, hknown, hy,
      recvActOn_known hblack hdec htype hknown hy word⟩

/-- Exactly the packets of listened-to senders with an overlong string run over a token. -/
theorem recvActOn_tokenOverrun_iff : (s.recvActOn word data len addr).run = .error .tokenOverrun ↔
    ¬ (s.isMemberOfBlackList addr = true ∨ PacketFits data len) := by
  rcases s.recvActOn_cases word data len addr with ⟨hblack, hrun⟩ | ⟨_, hno, hrun⟩ |
    ⟨hblack, n, beType, y, hdec, htype, hknown, hy, hrun⟩
  · exact iff_of_false (by simp [hrun]) (not_not.2 (.inl hblack))
  · refine iff_of_false ?_ (not_not.2 (.inr ?_))
    · rcases hrun with hrun | ⟨e, he, hrun⟩
      · simp [hrun]
      · simpa [hrun] using he
    · intro n beType hn htype hknown
      exact absurd (hno n beType hn htype) hknown
  have hfits : PacketFits data len ↔ TokensFit n beType := by
    constructor
    · exact fun h => h n beType hdec htype hknown
    · intro h n' beType' hn' htype' _
      rw [hdec, Except.ok.injEq, Option.some.injEq] at hn'
      rw [← hn', htype, Except.ok.injEq] at htype'
      rwa [← hn', ← htype']
  rw [hfits, hblack, hrun]
  rcases parseFields_cases hy beType with ⟨hlong, hparse⟩ | ⟨hfit, _, hparse⟩ |
    ⟨hfit, _, t, d, i, _, _, _, hparse⟩
  · refine iff_of_true (by rw [bind_of_error hparse]; rfl) ?_
    rintro (h | h)
    · cases h
    · exact hlong h
  · exact iff_of_false (by rw [bind_of_none hparse]; simp) (not_not.2 (.inr hfit))
  · refine iff_of_false ?_ (not_not.2 (.inr hfit))
    rw [bind_of_some hparse]
    exact (dispatchOn_result word s data len addr beType d (fieldsOf n beType t d i)).1

/-- The tokens of a call that `recvPkt` makes fit. -/
theorem recvActOn_tokens {c : MsgIn}
    (h : (s.recvActOn word data len addr).run = .ok (some (.msgin c))) :
    ∀ tok ∈ c.tokens, tok.len ≤ bitdhtTokenMaxLen := by
  rcases s.recvActOn_cases word data len addr with ⟨_, hrun⟩ | ⟨_, _, hrun | ⟨e, _, hrun⟩⟩ |
    ⟨_, n, beType, y, _, _, _, hy, hrun⟩
  · rw [hrun] at h
    cases h
  · rw [hrun] at h
    cases h
  · rw [hrun] at h
    cases h
  rw [hrun] at h
  rcases parseFields_cases hy beType with ⟨_, hparse⟩ | ⟨_, _, hparse⟩ |
    ⟨hfit, hcomplete, t, d, i, ht, _, _, hparse⟩
  · rw [bind_of_error hparse] at h
    cases h
  · rw [bind_of_none hparse] at h
    cases h
  · rw [bind_of_some hparse] at h
    have hresult := dispatchOn_result word s data len addr beType d (fieldsOf n beType t d i)
    intro tok htok
    exact len_fieldsOf_le hfit ht hcomplete.2.1 (hresult.2 c h tok htok)

end BdNode

namespace Fits

variable {s : BdNode mFns} {word : UInt32}

/-- What a packet comes to is done. -/
theorem perform (h : Fits s) {data : List UInt8} {len : Nat} {addr : SockaddrIn}
    {act : Option RecvAct} (hact : (s.recvActOn word data len addr).run = .ok act) (now : Int)
    (junk : Junk) : ∃ node, s.perform now junk act = .ok node ∧ Fits node := by
  rcases act with _ | c | black
  · exact ⟨s, rfl, h⟩
  · exact h.msgin (BdNode.recvActOn_tokens hact) (fun _ _ => trivial) (fun _ _ => trivial) now
  · exact ⟨_, rfl, h.addBlackList black⟩

end Fits

/-! ## Runs -/

/-- A node, and the calls of its handlers so far. -/
structure NodeRun (mFns : BdDhtFunctions) where
  node : BdNode mFns
  calls : List MsgIn

/-- A new node. -/
def NodeRun.start (ownId : BdNodeId) (dhtVersion : List UInt8) (store : List BdPeer)
    (rand : Nat → UInt32) : NodeRun mFns where
  node := BdNode.new ownId dhtVersion store rand
  calls := []

def RecvAct.msginCall : RecvAct → Option MsgIn
  | .msgin c => some c
  | .addBlackList _ => none

/-- A call at a time.  A packet comes with the bytes that follow it in its buffer. -/
def nodeStep (r : NodeRun mFns) : Int × NodeCall × List UInt8 → Exec (NodeRun mFns)
  | (now, .recvPkt junk word msg addr, rest) => do
      let act ← (r.node.recvActOn word (msg ++ rest) msg.length addr).run
      let node ← r.node.perform now junk act
      pure { node := node, calls := r.calls ++ (act.bind RecvAct.msginCall).toList }
  | (now, c, _) => do
      let node ← callStep r.node (now, c)
      pure { r with node := node }

/-- A packet has no overlong string where a token is filled, or its sender is not listened to. -/
def StepFits (r : NodeRun mFns) : Int × NodeCall × List UInt8 → Prop
  | (_, .recvPkt _ _ msg addr, rest) =>
      r.node.isMemberOfBlackList addr = true ∨ PacketFits (msg ++ rest) msg.length
  | _ => True

/-- Every queued transaction id and every token of a call fits in a `bdToken`. -/
structure TokenInv (r : NodeRun mFns) : Prop where
  queued : ∀ q ∈ r.node.mRemoteQueries, q.mTransId.len ≤ bitdhtTokenMaxLen
  called : ∀ c ∈ r.calls, ∀ tok ∈ c.tokens, tok.len ≤ bitdhtTokenMaxLen

/-- In the run of `ops` from `r` no token is written past its array, and all tokens fit whenever
a part of the run is over. -/
def TokensBounded (r : NodeRun mFns) (ops : List (Int × NodeCall × List UInt8)) : Prop :=
  ops.foldlM nodeStep r ≠ .error .tokenOverrun ∧
    ∀ pre r', pre <+: ops → pre.foldlM nodeStep r = .ok r' → TokenInv r'

/-- What a run preserves: the node knows no more than it may, and the calls so far had tokens that fit. -/
structure NodeRun.Good (r : NodeRun mFns) : Prop where
  fits : Fits r.node
  called : ∀ c ∈ r.calls, ∀ tok ∈ c.tokens, tok.len ≤ bitdhtTokenMaxLen

section run

variable {r r' : NodeRun mFns} {op : Int × NodeCall × List UInt8}

theorem NodeRun.Good.tokenInv (h : r.Good) : TokenInv r :=
  ⟨h.fits.len_le, h.called⟩

/-- A packet that is received does what it does, and keeps the tokens. -/
theorem NodeRun.Good.perform (h : r.Good) {word : UInt32} {data : List UInt8} {len : Nat}
    {addr : SockaddrIn} {act : Option RecvAct}
    (hact : (r.node.recvActOn word data len addr).run = .ok act) (now : Int) (junk : Junk) :
    ∃ node, r.node.perform now junk act = .ok node ∧
      NodeRun.Good ⟨node, r.calls ++ (act.bind RecvAct.msginCall).toList⟩ := by
  rcases h.fits.perform hact now junk with ⟨node, hnode, hnext⟩
  refine ⟨node, hnode, hnext, ?_⟩
  intro c hc
  rcases List.mem_append.1 hc with hold | hnew
  · exact h.called c hold
  · rcases act with _ | call | black
    · exact absurd hnew List.not_mem_nil
    · have heq : c = call := by simpa [RecvAct.msginCall] using hnew
      rw [heq]
      exact BdNode.recvActOn_tokens hact
    · exact absurd hnew List.not_mem_nil

/-- The step of a call that is none of a packet. -/
theorem nodeStep_call (r : NodeRun mFns) (now : Int) {c : NodeCall} (rest : List UInt8)
    (hc : ∀ junk word msg addr, c ≠ .recvPkt junk word msg addr) :
    nodeStep r (now, c, rest) = (callStep r.node (now, c) >>= fun node =>
      pure { r with node := node }) ∧ StepFits r (now, c, rest) := by
  cases c
  case recvPkt junk word msg addr => exact absurd rfl (hc junk word msg addr)
  all_goals exact ⟨rfl, trivial⟩

/-- What a step can come to. -/
theorem NodeRun.Good.step (h : r.Good) (op : Int × NodeCall × List UInt8) :
    (nodeStep r op = .error .tokenOverrun ↔ ¬ StepFits r op) ∧
      ∀ r', nodeStep r op = .ok r' → r'.Good := by
  rcases op with ⟨now, c, rest⟩
  by_cases hc : ∀ junk word msg addr, c ≠ .recvPkt junk word msg addr
  · rcases nodeStep_call r now rest hc with ⟨hstep, hfits⟩
    rcases h.fits.callStep hc now with ⟨node, hnode, hnext⟩
    rw [hstep, hnode, ok_bind]
    refine ⟨iff_of_false (by simp) (not_not.2 hfits), ?_⟩
    rintro _ ⟨⟩
    exact ⟨hnext, h.called⟩
  · simp only [not_forall, not_not] at hc
    rcases hc with ⟨junk, word, msg, addr, rfl⟩
    rw [StepFits, ← BdNode.recvActOn_tokenOverrun_iff, nodeStep]
    -- the handler comes back, so a fault is one of the blocks or the switch
    rcases hact : (r.node.recvActOn word (msg ++ rest) msg.length addr).run with e | act
    · refine ⟨by simp, ?_⟩
      rintro r' ⟨⟩
    · rcases h.perform hact now junk with ⟨node, hnode, hnext⟩
      rw [ok_bind, hnode, ok_bind]
      refine ⟨by simp, ?_⟩
      rintro _ ⟨⟩
      exact hnext

theorem NodeRun.Good.run (h : r.Good) {ops : List (Int × NodeCall × List UInt8)}
    (hrun : ops.foldlM nodeStep r = .ok r') : r'.Good :=
  foldlM_inv (fun hs hstep => (hs.step _).2 _ hstep) h hrun

end run

/-- The tokens of a run are bounded exactly when each of its steps fits in the state in which its
turn comes. -/
theorem tokensBounded_iff (ownId : BdNodeId) (dhtVersion : List UInt8) (store : List BdPeer)
    (rand : Nat → UInt32) (ops : List (Int × NodeCall × List UInt8)) :
    TokensBounded (NodeRun.start ownId dhtVersion store rand : NodeRun mFns) ops ↔
      Guarded nodeStep StepFits (NodeRun.start ownId dhtVersion store rand : NodeRun mFns) ops := by
  have hinit : (NodeRun.start ownId dhtVersion store rand : NodeRun mFns).Good :=
    ⟨.new ownId dhtVersion store rand, fun c hc => absurd hc List.not_mem_nil⟩
  constructor
  · rintro ⟨hrun, _⟩ pre op post r' hops hpre
    -- a step that does not fit is reached with tokens that do, and faults there
    by_contra hlong
    apply hrun
    rw [hops]
    exact foldlM_of_error hpre (((hinit.run hpre).step op).1.2 hlong)
  · intro hguard
    refine ⟨?_, fun pre r' _ hpre => (hinit.run hpre).tokenInv⟩
    refine hguard.ne_error (fun hs _ hstep => (hs.step _).2 _ hstep) ?_ hinit
    intro r op hgood hfits hstep
    exact (hgood.step op).1.1 hstep hfits

/-- A PING whose transaction id has 21 bytes. -/
theorem not_tokensBounded_ping :
    ¬ TokensBounded (NodeRun.start bdZeroNodeId [] [] (fun _ => 0) : NodeRun bdStdDht)
        [(0, .recvPkt ⟨bdZeroNodeId, bdZeroNodeId, 0⟩ 0
          (ascii "d1:ad2:id20:aaaaaaaaaaaaaaaaaaaae1:q4:ping1:t21:bbbbbbbbbbbbbbbbbbbbb1:y1:qe")
          ⟨afInet, 16777343, 8080⟩, [])] := by
  rintro ⟨hrun, _⟩
  apply hrun
  have hact : ((NodeRun.start bdZeroNodeId [] [] (fun _ => 0) : NodeRun bdStdDht).node.recvActOn 0
      (ascii "d1:ad2:id20:aaaaaaaaaaaaaaaaaaaae1:q4:ping1:t21:bbbbbbbbbbbbbbbbbbbbb1:y1:qe" ++ [])
      (ascii "d1:ad2:id20:aaaaaaaaaaaaaaaaaaaae1:q4:ping1:t21:bbbbbbbbbbbbbbbbbbbbb1:y1:qe").length
      ⟨afInet, 16777343, 8080⟩).run = .error .tokenOverrun := by
    decide +kernel
  rw [List.foldlM_cons, nodeStep, hact]
  rfl

end BitDht
