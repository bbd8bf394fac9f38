import BitDht.Node.Calls
import BitDht.Node.Sending

/-!
# Tick — from the `msgout_` functions to the socket

`UdpBitDht::tick` takes up to a hundred messages out of the queue of the node, each through a buffer of
`BITDHT_MAX_PKTSIZE` bytes, and a message that is longer is cut there without a word.  No message of the
eight `msgout_` functions that a node calls itself is as long as that, so each of them arrives at the
socket whole, in the order of the queue (`SentInOrder`).
-/

namespace BitDht

open Outcome

variable {mFns : BdDhtFunctions}

/-! ## The two functions -/

def bitdhtMaxPktsize : Nat := 1024

def bitdhtTtl : Nat := 64

def maxMsgPerTick : Nat := 100

/-- The arguments of `sendPkt(data, size, to, ttl)`, with the `size` bytes that it sends. -/
structure UdpPkt where
  data : List UInt8
  toAddr : SockaddrIn
  ttl : Nat
  deriving DecidableEq

namespace BdNode

/-- `outgoingMsg` with room for `len` bytes in `msg`: `addr`, `msg` and `len` when it returns 1, and the
node then. -/
def outgoingMsgInto (s : BdNode mFns) (msg : List UInt8) (len : Nat) :
    Exec (Option (SockaddrIn × List UInt8 × Nat × BdNode mFns)) :=
  match s.mOutgoingMsgs with
  | [] => pure none
  | bdmsg :: rest => do
      -- truncate if necessary
      let len := if bdmsg.data.length < len then bdmsg.data.length else len
      let bytes ← readBytes len bdmsg.data
      let msg ← writeAt msg 0 bytes
      pure (some (bdmsg.addr, msg, len, { s with mOutgoingMsgs := rest }))

/-- The loop of `tick`, which may still send `n` messages. -/
def tickLoop (data : List UInt8) : Nat → BdNode mFns → Exec (List UdpPkt × BdNode mFns)
  | 0, s => pure ([], s)
  | n + 1, s => do
      -- the size is reset in every round
      match ← s.outgoingMsgInto data bitdhtMaxPktsize with
      | none => pure ([], s)
      | some (toAddr, data, size, s) => do
          let pkt ← readBytes size data
          let (pkts, s) ← tickLoop data n s
          pure ({ data := pkt, toAddr := toAddr, ttl := bitdhtTtl } :: pkts, s)

/-- `UdpBitDht::tick` on the node of its manager: what it returns, what it has sent, and the node then.
The buffer is written before it is read, so its first contents do not matter. -/
def tick (s : BdNode mFns) : Exec (Nat × List UdpPkt × BdNode mFns) := do
  let (pkts, s) ← tickLoop (List.replicate bitdhtMaxPktsize 0) maxMsgPerTick s
  pure (if pkts.length = maxMsgPerTick then 1 else 0, pkts, s)

end BdNode

/-! ## What a tick sends -/

/-- The packet of a message. -/
def wholePkt (m : BdNodeNetMsg) : UdpPkt where
  data := m.data
  toAddr := m.addr
  ttl := bitdhtTtl

/-- What the buffer leaves of it. -/
def cutPkt (m : BdNodeNetMsg) : UdpPkt where
  data := m.data.take bitdhtMaxPktsize
  toAddr := m.addr
  ttl := bitdhtTtl

theorem cutPkt_eq {m : BdNodeNetMsg} (h : m.data.length ≤ bitdhtMaxPktsize) :
    cutPkt m = wholePkt m := by
  rw [cutPkt, List.take_of_length_le h, wholePkt]

namespace BdNode

theorem outgoingMsgInto_nil {s : BdNode mFns} (h : s.mOutgoingMsgs = []) (msg : List UInt8)
    (len : Nat) : s.outgoingMsgInto msg len = .ok none := by
  rw [outgoingMsgInto, h]
  rfl

/-- The first message leaves the queue, as much of it as there is room for. -/
theorem outgoingMsgInto_cons {s : BdNode mFns} {bdmsg : BdNodeNetMsg} {rest : List BdNodeNetMsg}
    (h : s.mOutgoingMsgs = bdmsg :: rest) {msg : List UInt8} {len : Nat} (hmsg : len ≤ msg.length) :
    s.outgoingMsgInto msg len = .ok (some (bdmsg.addr,
      bdmsg.data.take len ++ msg.drop (bdmsg.data.take len).length,
      (bdmsg.data.take len).length, s.outgoingMsg)) := by
  have hlen : (if bdmsg.data.length < len then bdmsg.data.length else len) =
      (bdmsg.data.take len).length := by
    rw [List.length_take]
    split <;> omega
  have hbytes : readBytes (bdmsg.data.take len).length bdmsg.data = .ok (bdmsg.data.take len) := by
    have hread := readBytes_append (bdmsg.data.take len) (bdmsg.data.drop len)
    rwa [List.take_append_drop] at hread
  have hwrite := @writeAt_append (bdmsg.data.take len) msg
    ((List.length_take_le _ _).trans hmsg) []
  rw [List.nil_append, List.length_nil, List.nil_append] at hwrite
  rw [outgoingMsgInto, h]
  simp only [hlen, hbytes, ok_bind, hwrite]
  rw [outgoingMsg, h]
  rfl

theorem tickLoop_eq {data : List UInt8} (hdata : data.length = bitdhtMaxPktsize) (n : Nat)
    (s : BdNode mFns) : tickLoop data n s =
      .ok ((s.mOutgoingMsgs.take n).map cutPkt,
        { s with mOutgoingMsgs := s.mOutgoingMsgs.drop n }) := by
  induction n generalizing s data with
  | zero =>
      rfl
  | succ n ih =>
      cases hqueue : s.mOutgoingMsgs with
      | nil =>
          have hsame : { s with mOutgoingMsgs := [] } = s := by rw [← hqueue]
          rw [tickLoop, outgoingMsgInto_nil hqueue, ok_bind]
          simp [hsame]
      | cons bdmsg rest =>
          -- the round sends what the buffer now begins with, and has a buffer of the same size left
          have hround := outgoingMsgInto_cons hqueue hdata.ge
          have hpkt := readBytes_append (bdmsg.data.take bitdhtMaxPktsize)
            (data.drop (bdmsg.data.take bitdhtMaxPktsize).length)
          have hsize : (bdmsg.data.take bitdhtMaxPktsize ++
              data.drop (bdmsg.data.take bitdhtMaxPktsize).length).length = bitdhtMaxPktsize := by
            rw [List.length_append, List.length_drop, List.length_take]
            omega
          have hrest := ih hsize s.outgoingMsg
          rw [tickLoop, hround, ok_bind]
          simp only [hpkt, hrest, ok_bind]
          simp [outgoingMsg, hqueue, cutPkt]

/-- A tick sends the first hundred messages, each as far as the buffer goes, and leaves the others. -/
theorem tick_eq (s : BdNode mFns) : s.tick =
    .ok (if maxMsgPerTick ≤ s.mOutgoingMsgs.length then 1 else 0,
      (s.mOutgoingMsgs.take maxMsgPerTick).map cutPkt,
      { s with mOutgoingMsgs := s.mOutgoingMsgs.drop maxMsgPerTick }) := by
  have hfull : ((s.mOutgoingMsgs.take maxMsgPerTick).map cutPkt).length = maxMsgPerTick ↔
      maxMsgPerTick ≤ s.mOutgoingMsgs.length := by
    rw [List.length_map, List.length_take]
    omega
  rw [tick, tickLoop_eq List.length_replicate, ok_bind]
  simp only [hfull]
  rfl

end BdNode

/-! ## What the `msgout_` functions queue -/

/-- The calls of the `msgout_` functions that a node makes itself. -/
inductive MsgoutCall
  | ping (id : BdId) (transId : BdToken)
  | pong (id : BdId) (transId : BdToken)
  | findNode (id : BdId) (transId : BdToken) (query : BdNodeId)
  | replyFindNode (id : BdId) (transId : BdToken) (peers : List BdId)
  | askMyip (dhtId : BdId) (transId : BdToken)
  | replyAskMyip (tunnelId : BdId) (transId : BdToken)
  | broadcastConn (id : BdId) (tid : BdToken) (nodeId peerId : BdNodeId)
  | askConn (id : BdId) (tid : BdToken) (nodeId : BdNodeId) (peerId : BdId)

namespace MsgoutCall

def run (s : BdNode mFns) : MsgoutCall → Exec (BdNode mFns)
  | .ping id transId => s.msgoutPing id transId
  | .pong id transId => s.msgoutPong id transId
  | .findNode id transId query => s.msgoutFindNode id transId query
  | .replyFindNode id transId peers => s.msgoutReplyFindNode id transId peers
  | .askMyip dhtId transId => s.msgoutAskMyip dhtId transId
  | .replyAskMyip tunnelId transId => s.msgoutReplyAskMyip tunnelId transId
  | .broadcastConn id tid nodeId peerId => s.msgoutBroadcastConn id tid nodeId peerId
  | .askConn id tid nodeId peerId => s.msgoutAskConn id tid nodeId peerId

/-- The token fits in a `bdToken`, and there are no more nodes than a node answers with. -/
def ArgsFit : MsgoutCall → Prop
  | .replyFindNode _ transId peers =>
      transId.len ≤ bitdhtTokenMaxLen ∧ (peers.length : Int) ≤ BdNode.bitdhtQueryNeighbourPeers
  | .ping _ transId | .pong _ transId | .findNode _ transId _ | .askMyip _ transId
  | .replyAskMyip _ transId | .broadcastConn _ transId _ _ | .askConn _ transId _ _ =>
      transId.len ≤ bitdhtTokenMaxLen

/-- The message that a call makes. -/
def msg (s : BdNode mFns) : MsgoutCall → Msg
  | .ping _ transId => .ping transId s.mOwnId
  | .pong _ transId => .pong transId s.mOwnId s.versionToken
  | .findNode _ transId query => .findNode transId s.mOwnId query
  | .replyFindNode _ transId peers => .replyNode transId s.mOwnId peers
  | .askMyip _ transId => .newconn transId s.mOwnId
  | .replyAskMyip tunnelId transId => .replyNewconn transId s.mOwnId tunnelId true
  | .broadcastConn _ tid nodeId peerId => .broadcastConn tid s.mOwnId nodeId peerId
  | .askConn _ tid nodeId peerId => .askConn tid s.mOwnId nodeId peerId

/-- The two of them whose messages go through `bitdht_ecrypt`. -/
def ecrypted : MsgoutCall → Bool
  | .askMyip _ _ | .replyAskMyip _ _ => true
  | _ => false

/-- The node that the message goes to. -/
def receiver : MsgoutCall → BdId
  | .ping id _ | .pong id _ | .findNode id _ _ | .replyFindNode id _ _ | .askMyip id _
  | .replyAskMyip id _ | .broadcastConn id _ _ _ | .askConn id _ _ _ => id

/-- The message as it is queued. -/
def packet (s : BdNode mFns) (c : MsgoutCall) : BdNodeNetMsg where
  data :=
    let body := bencode (c.msg s).tree
    if c.ecrypted then body ++ (storeU32 (ecryptSum body) ++ storeU32 s.getRandomToken.1) else body
  addr := c.receiver.addr

variable {c : MsgoutCall}

theorem msg_short (h : c.ArgsFit) (s : BdNode mFns) : (c.msg s).Short := by
  cases c with
  | ping id transId => exact Msg.ping_short h
  | pong id transId => exact Msg.pong_short h s.len_versionToken_le
  | findNode id transId query => exact Msg.findNode_short h
  | replyFindNode id transId peers =>
      have hpeers : (peers.length : Int) ≤ 8 := h.2
      exact Msg.replyNode_short h.1 (by omega)
  | askMyip dhtId transId => exact Msg.newconn_short h
  | replyAskMyip tunnelId transId => exact Msg.replyNewconn_short h
  | broadcastConn id tid nodeId peerId => exact Msg.broadcastConn_short h
  | askConn id tid nodeId peerId => exact Msg.askConn_short h

/-- The trailer takes eight bytes, and there would be room for as many messages again. -/
theorem length_packet_le (h : c.ArgsFit) (s : BdNode mFns) :
    (c.packet s).data.length ≤ bitdhtMaxPktsize := by
  have hlen := (msg_short h s).length_le
  rw [packet]
  dsimp only
  split
  · rw [List.length_append, List.length_append, length_storeU32, length_storeU32, bitdhtMaxPktsize]
    omega
  · rw [bitdhtMaxPktsize]
    omega

/-- A call queues its message and nothing else. -/
theorem run_eq (h : c.ArgsFit) (s : BdNode mFns) :
    ∃ s', c.run s = .ok s' ∧ s'.mOutgoingMsgs = s.mOutgoingMsgs ++ [c.packet s] := by
  have hshort := msg_short h s
  cases c with
  | ping id transId => exact ⟨_, BdNode.msgout_eq hshort s id.addr, rfl⟩
  | pong id transId => exact ⟨_, BdNode.msgout_eq hshort s id.addr, rfl⟩
  | findNode id transId query => exact ⟨_, BdNode.msgout_eq hshort s id.addr, rfl⟩
  | replyFindNode id transId peers => exact ⟨_, BdNode.msgout_eq hshort s id.addr, rfl⟩
  | askMyip dhtId transId => exact ⟨_, BdNode.msgoutEcrypted_eq hshort s dhtId.addr, rfl⟩
  | replyAskMyip tunnelId transId =>
      exact ⟨_, BdNode.msgoutEcrypted_eq hshort s tunnelId.addr, rfl⟩
  | broadcastConn id tid nodeId peerId => exact ⟨_, BdNode.msgout_eq hshort s id.addr, rfl⟩
  | askConn id tid nodeId peerId => exact ⟨_, BdNode.msgout_eq hshort s id.addr, rfl⟩

end MsgoutCall

/-! ## Runs -/

/-- A node, what its `msgout_` functions have queued, and what its ticks have sent. -/
structure SendTrace (mFns : BdDhtFunctions) where
  node : BdNode mFns
  queued : List BdNodeNetMsg
  sent : List UdpPkt

/-- What happens to the queue: a message, a tick, or neither while the rest of the node becomes that of
another one. -/
inductive SendStep (mFns : BdDhtFunctions)
  | msgout (c : MsgoutCall)
  | tick
  | other (s : BdNode mFns)

def sendStep (t : SendTrace mFns) : SendStep mFns → Exec (SendTrace mFns)
  | .msgout c => do
      let node ← c.run t.node
      let queued := t.queued ++ node.mOutgoingMsgs.drop t.node.mOutgoingMsgs.length
      pure { t with node := node, queued := queued }
  | .tick => do
      let (_, pkts, node) ← t.node.tick
      pure { t with node := node, sent := t.sent ++ pkts }
  | .other s => pure { t with node := { s with mOutgoingMsgs := t.node.mOutgoingMsgs } }

/-- All that has been queued on top of the messages `before` is sent whole or waits for it, in order. -/
structure SentInOrder (before : List BdNodeNetMsg) (t : SendTrace mFns) : Prop where
  size : ∀ m ∈ t.queued, m.data.length ≤ bitdhtMaxPktsize
  order : t.sent ++ t.node.mOutgoingMsgs.map cutPkt =
    before.map cutPkt ++ t.queued.map wholePkt

/-- The trace of a node that is watched from now on. -/
def SendTrace.start (s : BdNode mFns) : SendTrace mFns where
  node := s
  queued := []
  sent := []

section delivered

variable {before : List BdNodeNetMsg} {t t' : SendTrace mFns}

theorem SentInOrder.start (s : BdNode mFns) : SentInOrder s.mOutgoingMsgs (SendTrace.start s) :=
  ⟨fun m hm => absurd hm List.not_mem_nil, by simp [SendTrace.start]⟩

/-- A message is put behind the others. -/
theorem SentInOrder.msgout (h : SentInOrder before t) {c : MsgoutCall} (hc : c.ArgsFit) :
    ∃ t', sendStep t (.msgout c) = .ok t' ∧ t'.queued = t.queued ++ [c.packet t.node] ∧
      SentInOrder before t' := by
  rcases MsgoutCall.run_eq hc t.node with ⟨s', hrun, hqueue⟩
  have hnew : s'.mOutgoingMsgs.drop t.node.mOutgoingMsgs.length = [c.packet t.node] := by
    rw [hqueue, List.drop_left]
  have hsize := MsgoutCall.length_packet_le hc t.node
  refine ⟨⟨s', t.queued ++ [c.packet t.node], t.sent⟩, ?_, rfl, ?_, ?_⟩
  · rw [sendStep, hrun, ok_bind, hnew]
    rfl
  · intro m hm
    rcases List.mem_append.1 hm with hm | hm
    · exact h.size m hm
    · rw [List.mem_singleton.1 hm]
      exact hsize
  · calc
      t.sent ++ s'.mOutgoingMsgs.map cutPkt
          = (t.sent ++ t.node.mOutgoingMsgs.map cutPkt) ++ [cutPkt (c.packet t.node)] := by
            rw [hqueue, List.map_append, List.map_singleton, List.append_assoc]
      _ = (before.map cutPkt ++ t.queued.map wholePkt) ++ [wholePkt (c.packet t.node)] := by
            rw [h.order, cutPkt_eq hsize]
      _ = before.map cutPkt ++ (t.queued ++ [c.packet t.node]).map wholePkt := by
            rw [List.map_append, List.map_singleton, List.append_assoc]

/-- A tick moves the front of the queue to what is sent. -/
theorem SentInOrder.tick (h : SentInOrder before t) :
    ∃ t', sendStep t .tick = .ok t' ∧ t'.queued = t.queued ∧
      t'.node.mOutgoingMsgs = t.node.mOutgoingMsgs.drop maxMsgPerTick ∧ SentInOrder before t' := by
  let node := { t.node with mOutgoingMsgs := t.node.mOutgoingMsgs.drop maxMsgPerTick }
  let pkts := (t.node.mOutgoingMsgs.take maxMsgPerTick).map cutPkt
  refine ⟨⟨node, t.queued, t.sent ++ pkts⟩, ?_, rfl, rfl, h.size, ?_⟩
  · rw [sendStep, BdNode.tick_eq, ok_bind]
    rfl
  · rw [List.append_assoc, ← List.map_append, List.take_append_drop]
    exact h.order

theorem SentInOrder.other (h : SentInOrder before t) (s : BdNode mFns) :
    ∃ t', sendStep t (.other s) = .ok t' ∧ SentInOrder before t' :=
  ⟨_, rfl, h.size, h.order⟩

/-- Steps whose messages have arguments that fit. -/
def StepsFit (steps : List (SendStep mFns)) : Prop :=
  ∀ c, .msgout c ∈ steps → c.ArgsFit

theorem SentInOrder.run (h : SentInOrder before t) {steps : List (SendStep mFns)}
    (hsteps : StepsFit steps) : ∃ t', steps.foldlM sendStep t = .ok t' ∧ SentInOrder before t' := by
  induction steps generalizing t with
  | nil =>
      exact ⟨t, rfl, h⟩
  | cons step steps ih =>
      have hrest : StepsFit steps := fun c hc => hsteps c (List.mem_cons_of_mem step hc)
      have hstep : ∃ t', sendStep t step = .ok t' ∧ SentInOrder before t' := by
        cases step with
        | msgout c =>
            rcases h.msgout (hsteps c List.mem_cons_self) with ⟨t', hrun, -, h'⟩
            exact ⟨t', hrun, h'⟩
        | tick =>
            rcases h.tick with ⟨t', hrun, -, -, h'⟩
            exact ⟨t', hrun, h'⟩
        | other s => exact h.other s
      rcases hstep with ⟨t₁, hrun, h₁⟩
      rcases ih h₁ hrest with ⟨t', hrun', h'⟩
      exact ⟨t', by rw [List.foldlM_cons, hrun, ok_bind, hrun'], h'⟩

/-- Enough ticks send all that waits. -/
theorem SentInOrder.flush (h : SentInOrder before t) {n : Nat}
    (hn : t.node.mOutgoingMsgs.length ≤ maxMsgPerTick * n) :
    ∃ t', (List.replicate n .tick).foldlM sendStep t = .ok t' ∧
      t'.sent = before.map cutPkt ++ t.queued.map wholePkt := by
  induction n generalizing t with
  | zero =>
      have hempty : t.node.mOutgoingMsgs = [] := List.eq_nil_of_length_eq_zero (by omega)
      have horder := h.order
      rw [hempty, List.map_nil, List.append_nil] at horder
      exact ⟨t, rfl, horder⟩
  | succ n ih =>
      rcases h.tick with ⟨t₁, hrun, hqueued, hqueue, h₁⟩
      have hlen : t₁.node.mOutgoingMsgs.length ≤ maxMsgPerTick * n := by
        rw [hqueue, List.length_drop]
        rw [Nat.mul_succ] at hn
        omega
      rcases ih h₁ hlen with ⟨t', hrun', hsent⟩
      refine ⟨t', ?_, by rw [hsent, hqueued]⟩
      rw [List.replicate_succ, List.foldlM_cons, hrun, ok_bind, hrun']

end delivered

/-- Every `msgout_` function queues one message that fits in a packet, and whatever else happens to the
node, ticks send these messages whole, in order and in the end all of them. -/
theorem msgout_delivered (s : BdNode mFns) :
    (∀ c : MsgoutCall, c.ArgsFit → ∃ s', c.run s = .ok s' ∧
      s'.mOutgoingMsgs = s.mOutgoingMsgs ++ [c.packet s] ∧
      (c.packet s).data.length ≤ bitdhtMaxPktsize) ∧
    ∀ steps, StepsFit steps → ∃ t, steps.foldlM sendStep (SendTrace.start s) = .ok t ∧
      SentInOrder s.mOutgoingMsgs t ∧
      ∀ n, t.node.mOutgoingMsgs.length ≤ maxMsgPerTick * n →
        ∃ t', (List.replicate n .tick).foldlM sendStep t = .ok t' ∧
          t'.sent = s.mOutgoingMsgs.map cutPkt ++ t.queued.map wholePkt := by
  constructor
  · intro c hc
    rcases MsgoutCall.run_eq hc s with ⟨s', hrun, hqueue⟩
    exact ⟨s', hrun, hqueue, MsgoutCall.length_packet_le hc s⟩
  · intro steps hsteps
    rcases (SentInOrder.start s).run hsteps with ⟨t, hrun, h⟩
    exact ⟨t, hrun, h, fun n hn => h.flush hn⟩

/-- A node that answers with as many nodes and as long a token as it can, asks and pings. -/
def longCalls : List MsgoutCall :=
  [.replyFindNode (bytePeer 1) ⟨List.replicate 20 48⟩ ((List.range 8).map (fun k => bytePeer (k + 1))),
    .askMyip (bytePeer 2) ⟨[48, 48]⟩, .ping (bytePeer 3) ⟨[97]⟩]

theorem msgout_delivered_long :
    let s : BdNode bdStdDht := BdNode.new bdZeroNodeId [] [] (fun _ => 7)
    (∀ c ∈ longCalls, ∃ s', c.run s = .ok s' ∧
      s'.mOutgoingMsgs = s.mOutgoingMsgs ++ [c.packet s] ∧
      (c.packet s).data.length ≤ bitdhtMaxPktsize) ∧
    ∃ t t', (longCalls.map (@SendStep.msgout bdStdDht)).foldlM sendStep (SendTrace.start s) = .ok t ∧
      t.queued.length = 3 ∧ [.tick].foldlM sendStep t = .ok t' ∧ t'.sent = t.queued.map wholePkt := by
  intro s
  have hfit : ∀ c ∈ longCalls, c.ArgsFit := by
    intro c hc
    simp only [longCalls, List.mem_cons, List.not_mem_nil, or_false] at hc
    rcases hc with rfl | rfl | rfl
    · exact ⟨by decide, by decide⟩
    · exact show 2 ≤ 20 by decide
    · exact show 1 ≤ 20 by decide
  have hsteps : StepsFit (longCalls.map (@SendStep.msgout bdStdDht)) := by
    intro c hc
    rcases List.mem_map.1 hc with ⟨c', hc', heq⟩
    cases heq
    exact hfit c hc'
  have hlen : Outcome.holds ((longCalls.map (@SendStep.msgout bdStdDht)).foldlM sendStep
      (SendTrace.start s)) (fun t => t.queued.length = 3 && t.node.mOutgoingMsgs.length = 3) =
        true := by
    decide +kernel
  rcases (msgout_delivered s).2 _ hsteps with ⟨t, hrun, -, hflush⟩
  rw [hrun, holds, Bool.and_eq_true, decide_eq_true_eq, decide_eq_true_eq] at hlen
  rcases hflush 1 (by rw [hlen.2]; decide) with ⟨t', htick, hsent⟩
  exact ⟨fun c hc => (msgout_delivered s).1 c (hfit c hc), t, t', hrun, hlen.1, htick, hsent⟩

end BitDht
