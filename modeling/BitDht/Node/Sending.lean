import BitDht.Msgs.RoundTrip
import BitDht.Node.State

/-!
# Sending — what the node answers

The buffers of the `msgout_` functions hold every message that a node answers with, as long as the
tokens in it fit in a `bdToken`.  So what is queued for the socket is the encoding of the message,
whole (`msgout_eq`, `msgoutEcrypted_eq`).
-/

namespace BitDht

open Container Decimal Outcome

variable {mFns : BdDhtFunctions}

/-! ## Lengths of encodings -/

theorem length_bencodeString_le {s : List UInt8} {k : Nat} (hs : s.length ≤ k) (hk : k < 1000) :
    (bencodeString s).length ≤ k + 4 := by
  have hdigits : (ofNat s.length).length ≤ 3 := length_ofNat_le (by decide) (by omega)
  simp only [bencodeString, List.length_append, List.length_cons]
  omega

theorem length_cstr_le (s : List UInt8) : (cstr s).length ≤ s.length :=
  (List.takeWhile_sublist _).length_le

/-- What the value under a key of a message can take. -/
def keyRoom (key : String) : Nat :=
  if key = "a" ∨ key = "r" then 334 else if key = "nodes" then 212 else 30

/-- A dictionary is no longer than what its keys and values can add up to. -/
theorem length_bencode_dictOf_le {entries : List (String × BeNode)}
    (hkeys : ∀ e ∈ entries, (ascii e.1).length ≤ 16)
    (hvals : ∀ e ∈ entries, (bencode e.2).length ≤ keyRoom e.1) :
    (bencode (dictOf entries)).length ≤ (entries.map (fun e => keyRoom e.1 + 20)).sum + 2 := by
  -- a key of 16 bytes takes at most 20, with its length and the colon
  have hpairs : (bencodePairs (entries.map (fun e => (ascii e.1, e.2)))).length ≤
      (entries.map (fun e => keyRoom e.1 + 20)).sum := by
    induction entries with
    | nil =>
        rw [List.map_nil, bencodePairs]
        exact Nat.zero_le _
    | cons e entries ih =>
        have hrest := ih (fun x hx => hkeys x (by simp [hx])) (fun x hx => hvals x (by simp [hx]))
        have hcstr := (length_cstr_le (ascii e.1)).trans (hkeys e (by simp))
        have hkey := length_bencodeString_le hcstr (by decide)
        have hval := hvals e (by simp)
        rw [List.map_cons, bencodePairs, List.length_append, List.length_append, List.map_cons,
          List.sum_cons]
        omega
  rw [dictOf, bencode, List.length_cons, List.length_append, List.length_singleton]
  omega

namespace Msg

/-- Messages with tokens that fit, no more compact ids than a node answers with, and no list of
values. -/
structure Short (m : Msg) : Prop where
  tokens : ∀ tok ∈ m.tokens, tok.len ≤ bitdhtTokenMaxLen
  bdIds : m.bdIds.length ≤ 8
  kind : m.type ≠ .replyHash

theorem keys_short {m : Msg} {n : BeNode} :
    (∀ e ∈ m.body, (ascii e.1).length ≤ 16) ∧ ∀ e ∈ m.entries n, (ascii e.1).length ≤ 16 := by
  cases m <;> simp only [body, entries, List.forall_mem_cons] <;> decide

theorem length_bencode_id (id : BdNodeId) : (bencode (strOf id.data)).length ≤ 30 := by
  have hlen := length_bencodeString_le (Nat.le_of_eq id.size) (by decide)
  exact hlen.trans (by decide)

theorem length_bencode_token {tok : BdToken} (h : tok.len ≤ bitdhtTokenMaxLen) :
    (bencode (strOf tok.data)).length ≤ 30 := by
  have hlen := length_bencodeString_le (h : tok.data.length ≤ bitdhtTokenMaxLen) (by decide)
  exact hlen.trans (by decide)

theorem length_bencode_bdId (id : BdId) : (bencode (strOf (encodeCompactNodeId id))).length ≤ 30 :=
  length_bencodeString_le (Nat.le_of_eq (length_encodeCompactNodeId id)) (by decide)

theorem length_bencode_nodes {nodes : List BdId} (h : nodes.length ≤ 8) :
    (bencode (strOf (nodes.flatMap encodeCompactNodeId))).length ≤ 212 := by
  -- eight compact ids
  have hbytes : (nodes.flatMap encodeCompactNodeId).length ≤ 208 := by
    rw [length_flatMap_encode, bitdhtCompactNodeIdLen]
    omega
  exact length_bencodeString_le hbytes (by decide)

theorem length_bencode_port (port : UInt32) : (bencode (.int port.toNat)).length ≤ 30 := by
  have hlt : port.toNat < 4294967296 := port.toNat_lt
  have hdigits : (ofInt port.toNat).length ≤ 10 := length_ofNat_le (by decide) (by omega)
  rw [bencode, List.length_cons, List.length_append, List.length_singleton]
  omega

theorem body_le_keyRoom {m : Msg} (h : m.Short) :
    ∀ e ∈ m.body, (bencode e.2).length ≤ keyRoom e.1 := by
  cases m
  case replyHash =>
    exact absurd rfl h.kind
  case replyNode tid id nodes =>
    simp only [body, List.forall_mem_cons]
    exact ⟨length_bencode_id id, length_bencode_nodes h.bdIds, by simp⟩
  case replyNear tid id token nodes =>
    simp only [body, List.forall_mem_cons]
    exact ⟨length_bencode_id id, length_bencode_token (h.tokens token (by simp [tokens])),
      length_bencode_nodes h.bdIds, by simp⟩
  case postHash tid id infoHash port token =>
    simp only [body, List.forall_mem_cons]
    exact ⟨length_bencode_id id, length_bencode_id infoHash, length_bencode_port port,
      length_bencode_token (h.tokens token (by simp [tokens])), by simp⟩
  case replyNewconn tid id peerId started =>
    simp only [body, List.forall_mem_cons]
    exact ⟨length_bencode_id id, by decide, length_bencode_bdId peerId, by simp⟩
  case askConn tid id nodeId peerId =>
    simp only [body, List.forall_mem_cons]
    exact ⟨length_bencode_id id, length_bencode_id nodeId, length_bencode_bdId peerId, by simp⟩
  case replyConn tid id started =>
    simp only [body, List.forall_mem_cons]
    exact ⟨length_bencode_id id, by decide, by simp⟩
  all_goals
    simp only [body, List.forall_mem_cons]
    simp [length_bencode_id, keyRoom]

theorem entries_le_keyRoom {m : Msg} (h : m.Short) {b : BeNode} (hb : (bencode b).length ≤ 334) :
    ∀ e ∈ m.entries b, (bencode e.2).length ≤ keyRoom e.1 := by
  -- the other values are tokens and short literals
  have hlit : ∀ s : List UInt8, s.length ≤ 20 → (bencode (strOf s)).length ≤ 30 := by
    intro s hs
    exact (length_bencodeString_le hs (by decide)).trans (by omega)
  have htok : ∀ tok ∈ m.tokens, (bencode (strOf tok.data)).length ≤ 30 :=
    fun tok ht => length_bencode_token (h.tokens tok ht)
  clear h
  have hstarted : ∀ started, (startedText started).length ≤ 20 := by decide
  cases m
  all_goals
    simp only [tokens, List.forall_mem_cons] at htok
    simp only [entries, List.forall_mem_cons]
    simp [hb, hlit, htok, hstarted, ascii, keyRoom]

/-- The greatest body has an id, a token and eight compact ids. -/
theorem sum_body_le (m : Msg) : (m.body.map (fun e => keyRoom e.1 + 20)).sum ≤ 332 := by
  cases m <;> simp [body, keyRoom]

theorem sum_entries_le (m : Msg) (b : BeNode) :
    ((m.entries b).map (fun e => keyRoom e.1 + 20)).sum ≤ 504 := by
  cases m <;> simp [entries, keyRoom]

/-- Such a message is far shorter than a buffer. -/
theorem Short.length_le {m : Msg} (h : m.Short) : (bencode m.tree).length ≤ 506 := by
  have hbody : (bencode (dictOf m.body)).length ≤ 334 := by
    have hlen := length_bencode_dictOf_le (@keys_short m (.int 0)).1 (body_le_keyRoom h)
    exact hlen.trans (Nat.add_le_add_right m.sum_body_le 2)
  have hlen := length_bencode_dictOf_le (@keys_short m (dictOf m.body)).2
    (entries_le_keyRoom h hbody)
  exact hlen.trans (Nat.add_le_add_right (m.sum_entries_le (dictOf m.body)) 2)

/-- Such a message is decoded to its tree, whatever is put behind it. -/
theorem Short.beDecoden_tree {m : Msg} (h : m.Short) (z : List UInt8) :
    beDecoden (bencode m.tree ++ z) (bencode m.tree ++ z).length = .ok (some m.tree) := by
  have hmax : ((bencode m.tree).length : Int) ≤ llongMax := by
    have hshort := h.length_le
    have hle : (506 : Int) ≤ llongMax := by decide
    omega
  exact m.tree_encodable.beDecoden_bencode hmax z (by simp)

/-! ## The messages that fit -/

section

variable {tid vid : BdToken} {own nodeId target : BdNodeId} {peerId : BdId} {nodes : List BdId}
  {isOk : Bool}

theorem ping_short (htid : tid.len ≤ bitdhtTokenMaxLen) : (ping tid own).Short :=
  ⟨by simp [tokens, htid], by simp [bdIds], by simp [type]⟩

theorem pong_short (htid : tid.len ≤ bitdhtTokenMaxLen) (hvid : vid.len ≤ bitdhtTokenMaxLen) :
    (pong tid own vid).Short :=
  ⟨by simp [tokens, htid, hvid], by simp [bdIds], by simp [type]⟩

theorem findNode_short (htid : tid.len ≤ bitdhtTokenMaxLen) : (findNode tid own target).Short :=
  ⟨by simp [tokens, htid], by simp [bdIds], by simp [type]⟩

theorem replyNode_short (htid : tid.len ≤ bitdhtTokenMaxLen) (hnodes : nodes.length ≤ 8) :
    (replyNode tid own nodes).Short :=
  ⟨by simp [tokens, htid], hnodes, by simp [type]⟩

theorem newconn_short (htid : tid.len ≤ bitdhtTokenMaxLen) : (newconn tid own).Short :=
  ⟨by simp [tokens, htid], by simp [bdIds], by simp [type]⟩

theorem replyNewconn_short (htid : tid.len ≤ bitdhtTokenMaxLen) :
    (replyNewconn tid own peerId isOk).Short :=
  ⟨by simp [tokens, htid], by simp [bdIds], by simp [type]⟩

theorem broadcastConn_short (htid : tid.len ≤ bitdhtTokenMaxLen) :
    (broadcastConn tid own nodeId target).Short :=
  ⟨by simp [tokens, htid], by simp [bdIds], by simp [type]⟩

theorem askConn_short (htid : tid.len ≤ bitdhtTokenMaxLen) :
    (askConn tid own nodeId peerId).Short :=
  ⟨by simp [tokens, htid], by simp [bdIds], by simp [type]⟩

end

end Msg

/-! ## What is queued for the socket -/

namespace BdNode

/-- The node with one more message for the socket. -/
def queueMsg (s : BdNode mFns) (data : List UInt8) (addr : SockaddrIn) : BdNode mFns :=
  { s with mOutgoingMsgs := s.mOutgoingMsgs ++ [{ data := data, addr := addr }] }

theorem sendPkt_append (s : BdNode mFns) (w rest : List UInt8) (addr : SockaddrIn) :
    s.sendPkt (w ++ rest) w.length addr = .ok (s.queueMsg w addr) := by
  rw [sendPkt, readBytes_append, ok_bind]
  rfl

theorem build_msgBuffer {m : Msg} (h : m.Short) : ∃ rest,
    m.build msgBuffer (10240 - 1) = .ok (bencode m.tree ++ rest, (bencode m.tree).length) ∧
      (bencode m.tree).length + rest.length = 10240 := by
  -- the encoding is far shorter than the buffer
  have hlen := h.length_le
  have hbuf : msgBuffer.length = 10240 := List.length_replicate
  rcases beEncode_eq m.tree msgBuffer (10240 - 1) (by omega) (by omega) with ⟨rest, hrun, hrest⟩
  rw [hbuf] at hrest
  exact ⟨rest, by rw [Msg.build_eq, hrun], hrest⟩

/-- A short message is queued as it is encoded. -/
theorem msgout_eq {m : Msg} (h : m.Short) (s : BdNode mFns) (addr : SockaddrIn) :
    s.msgout (fun msg avail => m.build msg avail) addr =
      .ok (s.queueMsg (bencode m.tree) addr) := by
  rcases build_msgBuffer h with ⟨rest, hrun, _⟩
  rw [msgout, hrun, ok_bind]
  exact sendPkt_append s (bencode m.tree) rest addr

/-- The same with a checksum and a fresh token behind it. -/
theorem msgoutEcrypted_eq {m : Msg} (h : m.Short) (s : BdNode mFns) (addr : SockaddrIn) :
    s.msgoutEcrypted (fun msg avail => m.build msg avail) addr =
      .ok (s.getRandomToken.2.queueMsg (bencode m.tree ++
        (storeU32 (ecryptSum (bencode m.tree)) ++ storeU32 s.getRandomToken.1)) addr) := by
  rcases build_msgBuffer h with ⟨rest, hrun, hrest⟩
  have hlen := h.length_le
  have htrailer := @bitdhtEcrypt_eq (bencode m.tree) rest (10240 - 1) s.getRandomToken.1
    (by omega) (by omega)
  -- the trailer is the last eight bytes of what is sent
  have hsend := sendPkt_append s.getRandomToken.2 (bencode m.tree ++
    (storeU32 (ecryptSum (bencode m.tree)) ++ storeU32 s.getRandomToken.1)) (rest.drop 8) addr
  simp only [List.length_append, length_storeU32, List.append_assoc] at hsend
  simp only [msgoutEcrypted, hrun, ok_bind, htrailer]
  exact hsend

/-! ## The `msgout_` functions -/

theorem len_versionToken_le (s : BdNode mFns) : s.versionToken.len ≤ bitdhtTokenMaxLen := by
  simp [versionToken, BdToken.len]

theorem len_genNewTransId_le (s : BdNode mFns) :
    s.genNewTransId.1.len ≤ bitdhtTokenMaxLen := by
  simp [genNewTransId, BdToken.len]

theorem msgoutReplyFindNode_eq (s : BdNode mFns) {transId : BdToken}
    (h : transId.len ≤ bitdhtTokenMaxLen) (id : BdId) {peers : List BdId} (hpeers : peers.length ≤ 8) :
    s.msgoutReplyFindNode id transId peers =
      .ok (s.queueMsg (bencode (Msg.replyNode transId s.mOwnId peers).tree) id.addr) :=
  msgout_eq (Msg.replyNode_short h hpeers) s id.addr

theorem msgoutAskConn_eq (s : BdNode mFns) {transId : BdToken} (h : transId.len ≤ bitdhtTokenMaxLen)
    (id : BdId) (nodeId : BdNodeId) (peerId : BdId) :
    s.msgoutAskConn id transId nodeId peerId =
      .ok (s.queueMsg (bencode (Msg.askConn transId s.mOwnId nodeId peerId).tree) id.addr) :=
  msgout_eq (Msg.askConn_short h) s id.addr

end BdNode

end BitDht
