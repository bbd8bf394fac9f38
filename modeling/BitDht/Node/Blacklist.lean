import BitDht.Node.Effects
import BitDht.Node.Trailer

/-!
# Blacklist — who is not listened to any more

A sender is put on the blacklist when its NEWCONN or REPLY_NEWCONN carries a token of the node itself.
But `bitdht_decrypt` does not return the token that the packet carries: it returns what its scratch
word held before.  So the law that only a packet with an own token at its end puts its sender on the
blacklist holds exactly for the runs in which the leftover word never tells an own token that is not
there (`blacklistsOwn_iff`).
-/

namespace BitDht

open Outcome

variable {mFns : BdDhtFunctions}

/-! ## Runs -/

/-- A node, and all the tokens that it has drawn so far. -/
structure TokenRun (mFns : BdDhtFunctions) where
  node : BdNode mFns
  tokens : List UInt32

/-- A new node. -/
def TokenRun.start (ownId : BdNodeId) (dhtVersion : List UInt8) (store : List BdPeer)
    (rand : Nat → UInt32) : TokenRun mFns where
  node := BdNode.new ownId dhtVersion store rand
  tokens := []

/-- A call, and the tokens that it draws. -/
def tokenStep (r : TokenRun mFns) (op : Int × NodeCall) : Exec (TokenRun mFns) := do
  let node ← callStep r.node op
  let drawn := (List.range (tokensDrawn r.node op.2)).map r.node.rand
  pure { node := node, tokens := r.tokens ++ drawn }

/-- The packet is a NEWCONN or a REPLY_NEWCONN. -/
def IsConnPacket (p : List UInt8) : Prop :=
  ∃ n, beDecoden p p.length = .ok (some n) ∧
    (beMsgType n = .ok .newconn ∨ beMsgType n = .ok .replyNewconn)

/-- The packet ends in the four bytes of one of the last 1000 tokens. -/
def EndsInToken (p : List UInt8) (tokens : List UInt32) : Prop :=
  ∃ token ∈ recent tokens, storeU32 token <:+ p

/-- An address that the call adds to the blacklist is that of such a packet. -/
def BlacklistsOwn (r : TokenRun mFns) (op : Int × NodeCall) : Prop :=
  ∀ r', tokenStep r op = .ok r' → ∀ a ∈ r'.node.mBlackNodes, a ∉ r.node.mBlackNodes →
    ∃ junk word p, op.2 = .recvPkt junk word p a ∧ IsConnPacket p ∧ EndsInToken p r.tokens

/-- Where a packet comes to the trailer and the leftover word is one of the last 1000 tokens, the
packet ends in one of them as well. -/
def LeftoverOwn (r : TokenRun mFns) : Int × NodeCall → Prop
  | (_, .recvPkt _ word p addr) => r.node.isMemberOfBlackList addr = false →
      (∃ beType, ReachesTrailer p beType) → word ∈ recent r.tokens → EndsInToken p r.tokens
  | _ => True

/-! ## One call -/

theorem ReachesTrailer.isConnPacket {p : List UInt8} {beType : MsgType}
    (h : ReachesTrailer p beType) : IsConnPacket p := by
  rcases h with ⟨n, hdec, htype, _, _, rfl | ⟨rfl, _⟩⟩
  · exact ⟨n, hdec, .inl htype⟩
  · exact ⟨n, hdec, .inr htype⟩

namespace BdNode

variable {s s' : BdNode mFns}

theorem isUsedToken_iff {word : UInt32} : s.isUsedToken word = true ↔ word ∈ s.mRandomTokenArray := by
  simp [isUsedToken]

theorem not_mem_of_not_isMember {addr : SockaddrIn} (h : s.isMemberOfBlackList addr = false) :
    addr ∉ s.mBlackNodes := by
  intro hmem
  rw [isMemberOfBlackList, List.any_eq_false] at h
  exact h addr hmem (by simp [sameAddr])

theorem mem_addBlackList {addr a : SockaddrIn} (h : a ∈ (s.addBlackList addr).mBlackNodes) :
    a ∈ s.mBlackNodes ∨ a = addr := by
  rw [addBlackList] at h
  split_ifs at h
  · exact .inl h
  · exact (List.mem_append.1 h).imp id List.mem_singleton.1

theorem addBlackList_mem {addr : SockaddrIn} (h : s.isMemberOfBlackList addr = false) :
    addr ∈ (s.addBlackList addr).mBlackNodes := by
  rw [isMemberOfBlackList] at h
  rw [addBlackList, h]
  simp

theorem addBlackList_draws (s : BdNode mFns) (addr : SockaddrIn) :
    (s.addBlackList addr).rand = s.rand ∧
      (s.addBlackList addr).mRandomTokenArray = s.mRandomTokenArray := by
  rw [addBlackList]
  split_ifs
  · exact ⟨rfl, rfl⟩
  · exact ⟨rfl, rfl⟩

theorem msgin_draws {now : Int} {junk : Junk} {c : MsgIn}
    (htokens : ∀ tok ∈ c.tokens, tok.len ≤ bitdhtTokenMaxLen)
    (h : s.msgin now junk c = .ok s') : Draws c.draws s s' := by
  -- the queue has no part in it
  cases c with
  | findNode id transId query =>
      cases h
      exact .of_eq rfl rfl rfl
  | getHash id transId infoHash =>
      cases h
      exact .of_eq rfl rfl rfl
  | _ =>
      exact (msgin_quiet htokens not_false h).toDraws

theorem msgout_draws {build : List UInt8 → Int → Exec (List UInt8 × Nat)} {addr : SockaddrIn}
    (h : s.msgout build addr = .ok s') : Draws 0 s s' := by
  rcases bind_eq_ok.1 h with ⟨r, _, hsend⟩
  rcases bind_eq_ok.1 hsend with ⟨data, _, hrest⟩
  cases hrest
  exact .of_eq rfl rfl rfl

theorem processQueue_draws {now : Int} {queue : List BdRemoteQuery}
    (h : s.processQueue now queue = .ok s') : Draws 0 s s' := by
  refine processQueue_rel (fun _ => .of_eq rfl rfl rfl) ?_ h
  intro id transId peers queue s₁ hs₁
  have hpop : Draws 0 s₁ { s₁ with mRemoteQueries := queue } := .of_eq rfl rfl rfl
  exact (msgout_draws hs₁).trans hpop

end BdNode

/-- A call draws its tokens and leaves the blacklist alone, or it is that of a packet whose sender
is put there, and draws nothing. -/
theorem callStep_draws {s s' : BdNode mFns} {op : Int × NodeCall} (h : callStep s op = .ok s') :
    Draws (tokensDrawn s op.2) s s' ∨ ∃ junk word p addr, op.2 = .recvPkt junk word p addr ∧
      (s.recvActOn word p p.length addr).run = .ok (some (.addBlackList addr)) ∧
      s' = s.addBlackList addr := by
  rcases op with ⟨now, c⟩
  cases c with
  | recvPkt junk word p addr =>
      rcases BdNode.recvPktOn_cases h with ⟨hact, rfl⟩ | ⟨hact, hs'⟩ | ⟨c, hact, htokens, hs'⟩
      · refine .inl ?_
        rw [tokensDrawn, hact]
        exact .of_eq rfl rfl rfl
      · exact .inr ⟨junk, word, p, addr, rfl, hact, hs'⟩
      · refine .inl ?_
        rw [tokensDrawn, hact]
        exact BdNode.msgin_draws htokens hs'
  | processRemoteQuery =>
      exact .inl (BdNode.processQueue_draws h)
  | outgoingMsg =>
      cases h
      exact .inl (.of_eq rfl rfl rfl)
  | shutdownNode =>
      cases h
      exact .inl (.of_eq rfl rfl rfl)
  | _ =>
      refine .inl (callStep_quiet ?_ h).toDraws
      exact trivial

/-- The array of the node is the window of the last tokens. -/
def TokenRun.Window (r : TokenRun mFns) : Prop :=
  r.node.mRandomTokenArray = recent r.tokens

theorem tokenStep_window {r r' : TokenRun mFns} {op : Int × NodeCall} (hwindow : r.Window)
    (h : tokenStep r op = .ok r') : r'.Window := by
  rcases bind_eq_ok.1 h with ⟨node, hnode, hr'⟩
  cases hr'
  rcases callStep_draws hnode with hdraws | ⟨junk, word, p, addr, hop, hact, rfl⟩
  · exact hdraws.tokens _ hwindow
  · -- nothing was drawn
    have hdrawn : tokensDrawn r.node op.2 = 0 := by rw [hop, tokensDrawn, hact]
    calc
      (r.node.addBlackList addr).mRandomTokenArray
          = r.node.mRandomTokenArray := (r.node.addBlackList_draws addr).2
      _ = recent r.tokens := hwindow
      _ = recent (r.tokens ++ (List.range (tokensDrawn r.node op.2)).map r.node.rand) := by
            rw [hdrawn, List.range_zero, List.map_nil, List.append_nil]

/-- A call adds to the blacklist as it should exactly where the leftover word does not tell an own
token that is not in the packet. -/
theorem blacklistsOwn_step_iff {r : TokenRun mFns} {op : Int × NodeCall} (hwindow : r.Window) :
    BlacklistsOwn r op ↔ LeftoverOwn r op := by
  have hused : ∀ {word}, r.node.isUsedToken word = true ↔ word ∈ recent r.tokens := by
    intro word
    rw [BdNode.isUsedToken_iff, hwindow]
  constructor
  · rcases op with ⟨now, c⟩
    cases c with
    | recvPkt junk word p addr =>
        intro h hblack hreach hword
        -- the sender is added, so the packet has a token at its end
        have hact := BdNode.recvActOn_addBlackList_iff.2 ⟨rfl, hblack, hreach, hused.2 hword⟩
        have hstep : callStep r.node (now, .recvPkt junk word p addr) =
            .ok (r.node.addBlackList addr) := by
          rw [callStep, BdNode.recvPktOn, hact, ok_bind]
          rfl
        have hrun : tokenStep r (now, .recvPkt junk word p addr) =
            .ok ⟨r.node.addBlackList addr, r.tokens ++ (List.range (tokensDrawn r.node
              (.recvPkt junk word p addr))).map r.node.rand⟩ := by
          rw [tokenStep, hstep, ok_bind]
          rfl
        rcases h _ hrun addr (BdNode.addBlackList_mem hblack)
          (BdNode.not_mem_of_not_isMember hblack) with ⟨_, _, _, hop, _, hends⟩
        cases hop
        exact hends
    | _ => exact fun _ => trivial
  · intro h r' hr' a ha hnew
    rcases bind_eq_ok.1 hr' with ⟨node, hnode, hrest⟩
    cases hrest
    rcases callStep_draws hnode with hdraws | ⟨junk, word, p, addr, hop, hact, rfl⟩
    · rw [hdraws.mBlackNodes] at ha
      exact absurd ha hnew
    · rcases BdNode.mem_addBlackList ha with hold | rfl
      · exact absurd hold hnew
      rcases BdNode.recvActOn_addBlackList_iff.1 hact with ⟨_, hblack, ⟨beType, hreach⟩, hword⟩
      rcases op with ⟨now, c⟩
      cases hop
      exact ⟨junk, word, p, rfl, hreach.isConnPacket, h hblack ⟨beType, hreach⟩ (hused.1 hword)⟩

/-! ## Runs -/

/-- In every run, exactly the steps whose leftover word is true to the packet add to the blacklist as
they should. -/
theorem blacklistsOwn_iff (ownId : BdNodeId) (dhtVersion : List UInt8) (store : List BdPeer)
    (rand : Nat → UInt32) (ops : List (Int × NodeCall)) :
    Guarded tokenStep BlacklistsOwn
        (TokenRun.start ownId dhtVersion store rand : TokenRun mFns) ops ↔
      Guarded tokenStep LeftoverOwn
        (TokenRun.start ownId dhtVersion store rand : TokenRun mFns) ops := by
  have hstart : (TokenRun.start ownId dhtVersion store rand : TokenRun mFns).Window := by
    simp [TokenRun.Window, TokenRun.start, BdNode.new, recent]
  exact Guarded.congr (fun hw h => tokenStep_window hw h) (fun hw => blacklistsOwn_step_iff hw)
    hstart ops

theorem BdNode.broadcastTo_ok (s : BdNode mFns) (it : BdPeer) : ∃ s', s.broadcastTo it = .ok s' := by
  have hask : ∃ s₁, s.genNewTransId.2.msgoutAskMyip it.mPeerId s.genNewTransId.1 = .ok s₁ :=
    ⟨_, msgoutEcrypted_eq (Msg.newconn_short s.len_genNewTransId_le) _ _⟩
  have hround : ∀ {s : BdNode mFns} {itt : BdNodeId × BdNodeId}, True → True →
      ∃ s', s.genNewTransId.2.msgoutBroadcastConn it.mPeerId s.genNewTransId.1 itt.1 itt.2 =
        .ok s' ∧ True := by
    intro s itt _ _
    exact ⟨_, msgout_eq (Msg.broadcastConn_short s.len_genNewTransId_le) _ _, trivial⟩
  rcases hask with ⟨s₁, hs₁⟩
  rcases exists_run hround (fun _ _ => trivial) trivial with ⟨s', hs', _⟩
  exact ⟨s', (congrArg (· >>= _) hs₁).trans hs'⟩

/-- A node sends a NEWCONN with the token 5, and then gets a NEWCONN that carries no token while the 5
still lies where `bitdht_decrypt` has its scratch. -/
theorem not_blacklistsOwn_leftover :
    ¬ Guarded tokenStep BlacklistsOwn
        (TokenRun.start bdZeroNodeId [] [] (fun _ => 5) : TokenRun bdStdDht)
        [(0, .broadcastTo ⟨⟨⟨afInet, 33554559, 8081⟩, bdZeroNodeId⟩, 0, 0, 0, 0⟩),
          (1, .recvPkt ⟨bdZeroNodeId, bdZeroNodeId, 0⟩ 5
            (ascii "d1:ad2:id20:aaaaaaaaaaaaaaaaaaaae1:q7:newconn1:t2:aa1:y1:qe")
            ⟨afInet, 16777343, 8080⟩)] := by
  intro h
  rcases BdNode.broadcastTo_ok (BdNode.new bdZeroNodeId [] [] (fun _ => 5) : BdNode bdStdDht)
    ⟨⟨⟨afInet, 33554559, 8081⟩, bdZeroNodeId⟩, 0, 0, 0, 0⟩ with ⟨node, hnode⟩
  have hstart : (TokenRun.start bdZeroNodeId [] [] (fun _ => 5) : TokenRun bdStdDht).Window := by
    simp [TokenRun.Window, TokenRun.start, BdNode.new, recent]
  have hstep : tokenStep (TokenRun.start bdZeroNodeId [] [] (fun _ => 5) : TokenRun bdStdDht)
      (0, .broadcastTo ⟨⟨⟨afInet, 33554559, 8081⟩, bdZeroNodeId⟩, 0, 0, 0, 0⟩) = .ok ⟨node, [5]⟩ := by
    rw [tokenStep, callStep, TokenRun.start, hnode, ok_bind]
    rfl
  have hown := (blacklistsOwn_step_iff (tokenStep_window hstart hstep)).1
    (h.tail hstep).head
  -- nobody is on the blacklist yet, and the packet comes to the trailer
  have hblack : node.isMemberOfBlackList ⟨afInet, 16777343, 8080⟩ = false := by
    have hsame := (BdNode.broadcastTo_quiet hnode).mBlackNodes
    rw [BdNode.isMemberOfBlackList, hsame]
    rfl
  have hpacket : ascii "d1:ad2:id20:aaaaaaaaaaaaaaaaaaaae1:q7:newconn1:t2:aa1:y1:qe" =
      bencode (Msg.newconn ⟨ascii "aa"⟩ ⟨List.replicate 20 97, rfl⟩).tree := by
    decide +kernel
  have hreach := (Msg.newconn ⟨ascii "aa"⟩ ⟨List.replicate 20 97, rfl⟩).reachesTrailer
    ⟨by decide, by decide, by decide⟩ (.inl rfl) []
  rw [List.append_nil, ← hpacket] at hreach
  rcases hown hblack ⟨_, hreach⟩ (by simp [recent]) with ⟨token, htoken, hends⟩
  have hfive : token = 5 := by simpa [recent] using htoken
  rw [hfive] at hends
  exact absurd hends (by decide)

end BitDht
