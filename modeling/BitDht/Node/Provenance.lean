import BitDht.Node.Effects
import BitDht.Node.Known

/-!
# Provenance — where the peers of a node come from

A packet is anybody's bytes, and a node takes its word for the id of its sender.  It does not take its word
for anything else: after any run of calls, with any packets in it, every peer of the table is one that a
packet came from, with the id that the packet gave and at the time that the table notes
(`run_provenance`).  The peers that a packet lists get no further than the second list of a query.
-/

namespace BitDht

open Container Outcome

variable {mFns : BdDhtFunctions}

/-! ## Packets -/

/-- The sender that the packet gives, with what `recvPkt` is left with where it can read no id. -/
def NamesSender (junk : Junk) (p : List UInt8) (id : BdId) : Prop :=
  ∃ n, beDecoden p p.length = .ok (some n) ∧
    id.id = ((bodyField n "id").bind beMsgGetNodeId).getD junk.id

/-- The packet is a reply to FIND_NODE that lists the peer. -/
def ListsPeer (p : List UInt8) (id : BdId) : Prop :=
  ∃ n, beDecoden p p.length = .ok (some n) ∧ beMsgType n = .ok .replyNode ∧
    id ∈ nodesOf (bodyField n "nodes")

/-- The sender and the peers of a handler call are those of the packet with the tree `n`. -/
def MsgIn.FromPacket (n : BeNode) (addr : SockaddrIn) (c : MsgIn) : Prop :=
  (∀ id, c.src = some id → id = ⟨addr, (bodyField n "id").bind beMsgGetNodeId⟩) ∧
    (c.listed ≠ [] → beMsgType n = .ok .replyNode ∧ c.listed = nodesOf (bodyField n "nodes"))

/-- A call for one of the two messages with a trailer notes no sender and lists no peers. -/
theorem MsgIn.IsConn.fromPacket {addr : SockaddrIn} {c : MsgIn} {beType : MsgType}
    (h : c.IsConn addr beType) (n : BeNode) : c.FromPacket n addr := by
  cases c with
  | askMyip | replyAskMyip => exact ⟨fun _ hsrc => (nomatch hsrc), fun hno => absurd rfl hno⟩
  | _ => exact h.elim

theorem dispatch_fromPacket {n t d i : BeNode} {beType : MsgType} (htype : beMsgType n = .ok beType)
    (hd : packetBody n = some d) (hi : beMsgGetDictNode d (ascii "id") = some i) {len : Nat}
    (hlen : len ≠ 4) {s : BdNode mFns} {msg : List UInt8} {addr : SockaddrIn} {c : MsgIn}
    (h : (dispatch s msg len addr beType d (fieldsOf n beType t d i)).run = .ok (some (.msgin c))) :
    c.FromPacket n addr := by
  have hid : (bodyField n "id").bind beMsgGetNodeId = beMsgGetNodeId i := by
    rw [bodyField_some hd, hi, Option.bind_some]
  have hsender : ∀ id : SrcId, some (⟨addr, beMsgGetNodeId i⟩ : SrcId) = some id →
      id = ⟨addr, (bodyField n "id").bind beMsgGetNodeId⟩ := by
    rintro id ⟨⟩
    rw [hid]
  have hnone : ∀ id : SrcId, (none : Option SrcId) = some id →
      id = ⟨addr, (bodyField n "id").bind beMsgGetNodeId⟩ := fun _ h => nomatch h
  cases beType with
  | ping | pong | findNode | getHash =>
      cases h
      exact ⟨hsender, fun hno => absurd rfl hno⟩
  | replyNode =>
      cases h
      refine ⟨hsender, fun _ => ⟨htype, ?_⟩⟩
      rw [bodyField_some hd]
      rfl
  | replyHash | replyNear | postHash | replyPost =>
      cases h
      exact ⟨hnone, fun hno => absurd rfl hno⟩
  | newconn => exact absurd h (recvEcrypted_ne_ok hlen)
  | replyNewconn =>
      rw [dispatch_replyNewconn] at h
      split at h
      · exact absurd h (recvEcrypted_ne_ok hlen)
      · cases h
  | broadcastConn =>
      rw [dispatch_broadcastConn] at h
      split at h
      · cases h
        exact ⟨hsender, fun hno => absurd rfl hno⟩
      · cases h
  | askConn =>
      rw [dispatch_askConn] at h
      split at h
      · cases h
        exact ⟨hnone, fun hno => absurd rfl hno⟩
      · cases h
  | replyConn | unknown => cases h

/-- A handler is called with what is in the packet. -/
theorem BdNode.recvActOn_fromPacket {s : BdNode mFns} {addr : SockaddrIn} {p : List UInt8}
    {word : UInt32} {c : MsgIn}
    (h : (s.recvActOn word p p.length addr).run = .ok (some (.msgin c))) :
    ∃ n, beDecoden p p.length = .ok (some n) ∧ c.FromPacket n addr := by
  by_cases hreach : s.isMemberOfBlackList addr = false ∧ ∃ beType, ReachesTrailer p beType
  · rcases hreach with ⟨hblack, beType, hreach⟩
    rcases recvActOn_of_reaches hblack hreach word with ⟨c', hconn, hrun⟩
    rw [h] at hrun
    have hcall : c = c' := by
      split_ifs at hrun
      · cases hrun
      · cases hrun
        rfl
      · cases hrun
    rcases hreach with ⟨n, hdec, _⟩
    exact ⟨n, hdec, hcall ▸ hconn.fromPacket n⟩
  · rw [recvActOn_of_not_reaches (fun hblack beType h => hreach ⟨hblack, beType, h⟩)] at h
    cases s.received addr p with
    | @known n r beType y _ _ _ hn hdec htype _ hy hrun =>
        rw [hrun] at h
        rcases parseFields_cases hy beType with ⟨_, hparse⟩ | ⟨_, _, hparse⟩ |
          ⟨_, _, t, d, i, ht, hd, hi, hparse⟩
        · rw [bind_of_error hparse] at h
          cases h
        · rw [bind_of_none hparse] at h
          cases h
        · rw [bind_of_some hparse] at h
          rcases dictNode_y_of_type htype with ⟨x, hx⟩
          exact ⟨n, hdec, dispatch_fromPacket htype hd hi (length_ne_four hn hx ht) h⟩
    | blackListed _ hrun | cutShort _ hrun | lostKey _ hrun | notDecoded _ _ _ hrun
    | notClassified _ _ hrun | unknown _ _ _ _ hrun =>
        rw [hrun] at h
        cases h

/-- What `recvPkt` changes comes from the packet. -/
theorem BdNode.recvPktOn_effects {s s' : BdNode mFns} {word : UInt32} {now : Int} {junk : Junk}
    {p : List UInt8} {addr : SockaddrIn} (h : s.recvPktOn word now junk p p.length addr = .ok s') :
    s' = s ∨ s' = s.addBlackList addr ∨ ∃ (n : BeNode) (c : MsgIn),
      beDecoden p p.length = .ok (some n) ∧ c.FromPacket n addr ∧
        Effects (c.Causes s now junk) s s' := by
  rcases recvPktOn_cases h with ⟨_, rfl⟩ | ⟨_, rfl⟩ | ⟨c, hact, htokens, hs'⟩
  · exact .inl rfl
  · exact .inr (.inl rfl)
  · rcases recvActOn_fromPacket hact with ⟨n, hdec, hfrom⟩
    rcases s.msgin_effects htokens with ⟨s₁, hs₁, heffects⟩
    rw [hs₁, Except.ok.injEq] at hs'
    subst hs'
    exact .inr (.inr ⟨n, c, hdec, hfrom, heffects⟩)

namespace MsgIn.FromPacket

variable {n : BeNode} {addr : SockaddrIn} {c : MsgIn} {p : List UInt8}

theorem namesSender (h : c.FromPacket n addr) (hdec : beDecoden p p.length = .ok (some n))
    {id : SrcId} (hid : c.src = some id) (junk : Junk) :
    (id.bdId junk).addr = addr ∧ NamesSender junk p (id.bdId junk) := by
  rw [h.1 id hid]
  exact ⟨rfl, n, hdec, rfl⟩

theorem listsPeer (h : c.FromPacket n addr) (hdec : beDecoden p p.length = .ok (some n)) {it : BdId}
    (hit : it ∈ c.listed) : ListsPeer p it := by
  have hfields := h.2 (List.ne_nil_of_mem hit)
  exact ⟨n, hdec, hfields.1, hfields.2 ▸ hit⟩

end MsgIn.FromPacket

/-- A packet brings its sender and the peers that it lists. -/
theorem Knows.recvPkt {heard told : BdId → Prop} {s s' : BdNode mFns} (h : Knows heard told s)
    {word : UInt32} {now : Int} {junk : Junk} {p : List UInt8} {addr : SockaddrIn}
    (hheard : ∀ id, id.addr = addr → NamesSender junk p id → heard id)
    (htold : ∀ id, ListsPeer p id → told id)
    (hrun : s.recvPktOn word now junk p p.length addr = .ok s') : Knows heard told s' := by
  rcases BdNode.recvPktOn_effects hrun with rfl | rfl | ⟨n, c, hdec, hfrom, heffects⟩
  · exact h
  · exact h.addBlackList addr
  · refine h.effects heffects (fun e he => he.known ?_ (fun it hit => htold it (hfrom.listsPeer hdec hit)))
    intro id hid
    have hnames := hfrom.namesSender hdec hid junk
    exact hheard _ hnames.1 hnames.2

/-! ## The table -/

/-- What holds over a new peer and over the search for those that are out of date holds over any run of
changes. -/
theorem Effects.mNodeSpace {P : BdSpace mFns → Prop} {Cause : NodeEffect → Prop} {s s' : BdNode mFns}
    (hrun : Effects Cause s s')
    (hadd : ∀ {space now id peerflags}, Cause (.addPeer now id peerflags) → P space →
      P (space.addPeer now id peerflags).1)
    (hout : ∀ {space now}, Cause (.outOfDatePeer now) → P space → P (space.outOfDatePeer now).1)
    (hs : P s.mNodeSpace) : P s'.mNodeSpace := by
  have happly : ∀ {s : BdNode mFns} {e}, P s.mNodeSpace → Cause e → P (e.apply s).mNodeSpace := by
    intro s e hs he
    cases e with
    | send c =>
        rcases c.queued_eq s with ⟨tokens, rand, hqueued⟩
        rw [NodeEffect.apply, hqueued]
        exact hs
    | addPeer now id peerflags => exact hadd he hs
    | outOfDatePeer now => exact hout he hs
    | nextQuery bdRandomMidId now endId =>
        rw [NodeEffect.apply, BdNode.turn]
        split
        · exact hs
        · exact hs
    | newTransId | mPotentialPeers | checkPotentialPeer | onRecvCallback | queueQuery | mRemoteQueries
    | connect | addMyIp | addPunching => exact hs
  exact hrun.inv @happly hs

/-- No call but that of a packet adds a peer to the table. -/
theorem callStep_mNodeSpace {P : BdSpace mFns → Prop} {s s' : BdNode mFns}
    (hout : ∀ {space} now, P space → P (space.outOfDatePeer now).1) (hclear : ∀ space : BdSpace mFns, P space.clear)
    (hlen : ∀ q ∈ s.mRemoteQueries, q.mTransId.len ≤ bitdhtTokenMaxLen) {c : NodeCall}
    (hc : ∀ junk word msg addr, c ≠ .recvPkt junk word msg addr) {now : Int} (hs : P s.mNodeSpace)
    (hrun : callStep s (now, c) = .ok s') : P s'.mNodeSpace := by
  by_cases hsends : c.Sends
  · rcases callStep_effects hlen hsends now with ⟨s₁, hs₁, heffects⟩
    rw [hs₁] at hrun
    cases hrun
    exact heffects.mNodeSpace (fun he => nomatch he) (fun _ h => hout _ h) hs
  · cases c with
    | recvPkt junk word msg addr => exact absurd rfl (hc junk word msg addr)
    | shutdownNode =>
        cases hrun
        exact hclear _
    | addQuery | clearQuery | addConnReq | addPotentialPeer | reloadStore | outgoingMsg =>
        cases hrun
        exact hs
    | pingPotential | askQueries | processRemoteQuery | pingOutOfDate | broadcastTo | punch =>
        exact absurd trivial hsends

/-- A packet changes the table only by peers that it adds. -/
theorem BdNode.recvPktOn_mNodeSpace {P : BdSpace mFns → Prop} {s s' : BdNode mFns} {word : UInt32}
    {now : Int} {junk : Junk} {p : List UInt8} {addr : SockaddrIn}
    (hadd : ∀ {space} id peerflags, P space → P (space.addPeer now id peerflags).1)
    (hs : P s.mNodeSpace) (h : s.recvPktOn word now junk p p.length addr = .ok s') :
    P s'.mNodeSpace := by
  rcases BdNode.recvPktOn_effects h with rfl | rfl | ⟨n, c, _, _, heffects⟩
  · exact hs
  · rw [BdNode.addBlackList]
    split_ifs
    · exact hs
    · exact hs
  · refine heffects.mNodeSpace ?_ ?_ hs
    · intro space t id peerflags he
      cases he with
      | peer => exact hadd _ peerflags
    · intro space t he
      cases he

/-! ## The times in the table -/

/-- An entry of the bucket afterwards was there, or it is the one of the peer with the time of the call. -/
theorem mLastRecvTime_addToBucket {ts : Int} {id : BdId} {peerflags : UInt32} {entries : BdBucket}
    {p : BdPeer} (hp : p ∈ (addToBucket mFns ts id peerflags entries).1) :
    p ∈ entries ∨ bdIdEq id p.mPeerId = true ∧ p.mLastRecvTime = ts := by
  rw [addToBucket] at hp
  split at hp
  · rename_i peer hfind
    rcases List.mem_append.1 hp with hp | hp
    · exact .inl (List.eraseP_subset hp)
    · rw [List.mem_singleton.1 hp]
      exact .inr ⟨(List.find?_eq_some_iff_append.1 hfind).1, rfl⟩
  · split at hp
    · rename_i rest hroom
      rcases List.mem_append.1 hp with hp | hp
      · exact .inl ((makeRoom_sublist hroom).subset hp)
      · rw [List.mem_singleton.1 hp]
        exact .inr ⟨bdIdEq_iff.2 ⟨rfl, rfl, rfl⟩, rfl⟩
    · exact .inl hp

/-- The peer of each entry was heard from at the time that the entry notes. -/
def BdSpace.Dated (heardAt : BdId → Int → Prop) (s : BdSpace mFns) : Prop :=
  ∀ e ∈ s.entries, ∃ id, bdIdEq id e.mPeerId = true ∧ heardAt id e.mLastRecvTime

namespace BdSpace.Dated

variable {heardAt : BdId → Int → Prop} {s : BdSpace mFns}

theorem mono {heardAt' : BdId → Int → Prop} (h : s.Dated heardAt)
    (himp : ∀ id t, heardAt id t → heardAt' id t) : s.Dated heardAt' := by
  intro e he
  rcases h e he with ⟨id, hid, ht⟩
  exact ⟨id, hid, himp id _ ht⟩

theorem new (ownId : BdNodeId) : (BdSpace.new ownId : BdSpace mFns).Dated heardAt := by
  intro e he
  simp [entries, BdSpace.new] at he

theorem clear (s : BdSpace mFns) : s.clear.Dated heardAt := by
  intro e he
  simp [entries, BdSpace.clear] at he

theorem addPeer (h : s.Dated heardAt) {ts : Int} {id : BdId} (hid : heardAt id ts)
    (peerflags : UInt32) : (s.addPeer ts id peerflags).1.Dated heardAt := by
  intro e he
  rcases List.mem_flatten.1 he with ⟨bucket, hbucket, he⟩
  rcases List.mem_or_eq_of_mem_set hbucket with hold | rfl
  · exact h e (List.mem_flatten.2 ⟨bucket, hold, he⟩)
  · rcases mLastRecvTime_addToBucket he with he | ⟨hpeer, htime⟩
    · -- the bucket of the peer is one of the table, as it has an entry
      rw [List.getD_eq_getElem?_getD] at he
      rcases hold : s.buckets[bucketOf mFns s.mOwnId id.id]? with _ | bucket
      · rw [hold] at he
        cases he
      · rw [hold] at he
        exact h e (List.mem_flatten.2 ⟨bucket, List.mem_of_getElem? hold, he⟩)
    · exact ⟨id, hpeer, htime ▸ hid⟩

theorem outOfDatePeer (h : s.Dated heardAt) (ts : Int) : (s.outOfDatePeer ts).1.Dated heardAt := by
  rcases outOfDatePeer_cases s ts with ⟨hnone, _⟩ | ⟨n, peer, space, hn, _, hout, hspace, _⟩
  · rw [hnone]
    exact h
  · rw [hout]
    intro e he
    rw [hspace] at he
    rcases List.mem_or_eq_of_mem_set he with he | rfl
    · exact h e he
    · exact h peer (List.mem_of_getElem? hn)

/-- A run of changes, each of which hears from the peers that it adds. -/
theorem effects {s s' : BdNode mFns} {Cause : NodeEffect → Prop} (h : s.mNodeSpace.Dated heardAt)
    (hrun : Effects Cause s s')
    (hcause : ∀ {now id peerflags}, Cause (.addPeer now id peerflags) → heardAt id now) :
    s'.mNodeSpace.Dated heardAt :=
  hrun.mNodeSpace (fun he h => h.addPeer (hcause he) _) (fun _ h => h.outOfDatePeer _) h

end BdSpace.Dated

/-! ## Runs -/

section runs

variable {ops ops' : List (Int × NodeCall)} {s s' : BdNode mFns}

/-- At the time `t` a packet came from the address of the peer and gave its id. -/
def HeardAt (ops : List (Int × NodeCall)) (id : BdId) (t : Int) : Prop :=
  ∃ junk word p, (t, .recvPkt junk word p id.addr) ∈ ops ∧ NamesSender junk p id

def HeardFrom (ops : List (Int × NodeCall)) (id : BdId) : Prop :=
  ∃ t, HeardAt ops id t

/-- A packet listed the peer. -/
def ToldOf (ops : List (Int × NodeCall)) (id : BdId) : Prop :=
  ∃ t junk word p addr, (t, .recvPkt junk word p addr) ∈ ops ∧ ListsPeer p id

theorem HeardAt.mono {id : BdId} {t : Int} (h : HeardAt ops id t) (hsub : ops ⊆ ops') :
    HeardAt ops' id t := by
  rcases h with ⟨junk, word, p, hmem, hnames⟩
  exact ⟨junk, word, p, hsub hmem, hnames⟩

theorem HeardFrom.mono {id : BdId} (h : HeardFrom ops id) (hsub : ops ⊆ ops') :
    HeardFrom ops' id := by
  rcases h with ⟨t, h⟩
  exact ⟨t, h.mono hsub⟩

theorem ToldOf.mono {id : BdId} (h : ToldOf ops id) (hsub : ops ⊆ ops') : ToldOf ops' id := by
  rcases h with ⟨t, junk, word, p, addr, hmem, hlists⟩
  exact ⟨t, junk, word, p, addr, hsub hmem, hlists⟩

/-- What the node knows was in the packets of the calls. -/
structure Provenance (ops : List (Int × NodeCall)) (s : BdNode mFns) : Prop where
  known : Knows (HeardFrom ops) (ToldOf ops) s
  dated : s.mNodeSpace.Dated (HeardAt ops)

theorem Provenance.mono (h : Provenance ops s) (hsub : ops ⊆ ops') : Provenance ops' s where
  known := h.known.mono (fun _ hid => hid.mono hsub) (fun _ hid => hid.mono hsub)
  dated := h.dated.mono (fun _ _ hid => hid.mono hsub)

/-- A call that is none of a packet dates no entry. -/
theorem Provenance.recvPkt (h : Provenance ops s) {now : Int} {junk : Junk} {word : UInt32}
    {p : List UInt8} {addr : SockaddrIn}
    (hrun : callStep s (now, .recvPkt junk word p addr) = .ok s') :
    Provenance (ops ++ [(now, .recvPkt junk word p addr)]) s' := by
  have hall := h.mono (List.subset_append_left ops [(now, .recvPkt junk word p addr)])
  have hself : (now, .recvPkt junk word p addr) ∈ ops ++ [(now, NodeCall.recvPkt junk word p addr)] :=
    List.mem_append_right _ (List.mem_singleton.2 rfl)
  have hheard : ∀ id : BdId, id.addr = addr → NamesSender junk p id →
      HeardAt (ops ++ [(now, .recvPkt junk word p addr)]) id now := by
    rintro id rfl hnames
    exact ⟨junk, word, p, hself, hnames⟩
  refine ⟨hall.known.recvPkt (fun id haddr hnames => ⟨now, hheard id haddr hnames⟩)
    (fun id hlists => ⟨now, junk, word, p, addr, hself, hlists⟩) hrun, ?_⟩
  rcases BdNode.recvPktOn_effects hrun with rfl | rfl | ⟨n, c, hdec, hfrom, heffects⟩
  · exact hall.dated
  · rw [BdNode.addBlackList]
    split_ifs
    · exact hall.dated
    · exact hall.dated
  · refine hall.dated.effects heffects ?_
    intro t id peerflags he
    cases he with
    | peer hid =>
        have hnames := hfrom.namesSender hdec (MsgIn.src_of_peer hid) junk
        exact hheard _ hnames.1 hnames.2

/-- After any run of calls, every peer that a node has in its table, in the queue, among the candidates of
a query or with an address for a connection is one that a packet came from, at the time that the table
notes; a query ends with SUCCESS only after a packet with the id that it looked for. -/
theorem run_provenance {ownId : BdNodeId} {dhtVersion : List UInt8} {store : List BdPeer}
    {rand : Nat → UInt32}
    (hrun : ops.foldlM callStep (BdNode.new ownId dhtVersion store rand) = .ok s) :
    Provenance ops s := by
  refine foldlM_log ?_ ⟨.new .., .new ownId⟩ hrun
  rintro pre s ⟨now, c⟩ s' h hstep
  by_cases hpacket : ∃ junk word p addr, c = .recvPkt junk word p addr
  · rcases hpacket with ⟨junk, word, p, addr, rfl⟩
    exact h.recvPkt hstep
  · have hc : ∀ junk word p addr, c ≠ .recvPkt junk word p addr :=
      fun junk word p addr heq => hpacket ⟨junk, word, p, addr, heq⟩
    have hall := h.mono (List.subset_append_left pre [(now, c)])
    rcases hall.known.callStep hc now with ⟨s₁, hs₁, hknown⟩
    have hdated := callStep_mNodeSpace (P := BdSpace.Dated (HeardAt (pre ++ [(now, c)])))
      (fun now h => h.outOfDatePeer now) (fun space => .clear space) (fun q hq => (hall.known.remote q hq).2) hc hall.dated hstep
    rw [hs₁] at hstep
    cases hstep
    exact ⟨hknown, hdated⟩

/-- A FIND_NODE, after which its sender is in the table. -/
theorem run_provenance_findNode : ∃ s : BdNode bdStdDht,
    ⟨⟨afInet, 16777343, 8080⟩, ⟨List.replicate 20 97, rfl⟩⟩ ∈ s.mNodeSpace.stored ∧
    Provenance [(7, .recvPkt ⟨bdZeroNodeId, bdZeroNodeId, 0⟩ 0 (ascii
      "d1:ad2:id20:aaaaaaaaaaaaaaaaaaaa6:target20:bbbbbbbbbbbbbbbbbbbbe1:t2:aa1:y1:q1:q9:find_nodee")
      ⟨afInet, 16777343, 8080⟩)] s := by
  have hact : ((BdNode.new bdZeroNodeId [] [] (fun _ => 0) : BdNode bdStdDht).recvActOn 0 (ascii
      "d1:ad2:id20:aaaaaaaaaaaaaaaaaaaa6:target20:bbbbbbbbbbbbbbbbbbbbe1:t2:aa1:y1:q1:q9:find_nodee")
      (ascii
      "d1:ad2:id20:aaaaaaaaaaaaaaaaaaaa6:target20:bbbbbbbbbbbbbbbbbbbbe1:t2:aa1:y1:q1:q9:find_nodee").length
      ⟨afInet, 16777343, 8080⟩).run = .ok (some (.msgin (.findNode
        ⟨⟨afInet, 16777343, 8080⟩, some ⟨List.replicate 20 97, rfl⟩⟩ ⟨ascii "aa"⟩
        (some ⟨List.replicate 20 98, rfl⟩)))) := by
    decide +kernel
  refine ⟨(BdNode.new bdZeroNodeId [] [] (fun _ => 0)).msginFindNode 7
    ⟨⟨afInet, 16777343, 8080⟩, ⟨List.replicate 20 97, rfl⟩⟩ ⟨ascii "aa"⟩
    ⟨List.replicate 20 98, rfl⟩, by decide +kernel, ?_⟩
  refine @run_provenance _ _ _ bdZeroNodeId [] [] (fun _ => 0) ?_
  rw [List.foldlM_cons, callStep, BdNode.recvPktOn, hact, ok_bind]
  rfl

end runs

end BitDht
