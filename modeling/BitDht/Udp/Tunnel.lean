import BitDht.Manager.Packet
import BitDht.Node.Tick
import BitDht.Tunnel.Manager

/-!
# Tunnel — `UdpTunnel`

The receiver of a UDP stack that has a tunnel manager.  Its two functions are those of `UdpBitDht` with
another manager, and both managers take the same packets for theirs.
-/

namespace BitDht

open Outcome

namespace BdTunnelNode

/-- `outgoingMsg` with room for `len` bytes in `msg`: `addr`, `msg` and `len` when it returns 1, and the
node then. -/
def outgoingMsgInto (s : BdTunnelNode) (msg : List UInt8) (len : Nat) :
    Exec (Option (SockaddrIn × List UInt8 × Nat × BdTunnelNode)) :=
  match s.mOutgoingMsgs with
  | [] => pure none
  | bdmsg :: rest => do
      -- truncate if necessary
      let len := if bdmsg.data.length < len then bdmsg.data.length else len
      let bytes ← readBytes len bdmsg.data
      let msg ← writeAt msg 0 bytes
      pure (some (bdmsg.addr, msg, len, { s with mOutgoingMsgs := rest }))

/-- The loop of `tick`, which may still send `n` messages. -/
def tickLoop (data : List UInt8) : Nat → BdTunnelNode → Exec (List UdpPkt × BdTunnelNode)
  | 0, s => pure ([], s)
  | n + 1, s => do
      -- the size is reset in every round
      match ← s.outgoingMsgInto data bitdhtMaxPktsize with
      | none => pure ([], s)
      | some (toAddr, data, size, s) => do
          let pkt ← readBytes size data
          let (pkts, s) ← tickLoop data n s
          pure ({ data := pkt, toAddr := toAddr, ttl := bitdhtTtl } :: pkts, s)

/-- A queue goes out as that of a `bdNode` does. -/
theorem tickLoop_bdNode {mFns : BdDhtFunctions} (data : List UInt8) (n : Nat) (s : BdTunnelNode)
    (r : BdNode mFns) (h : s.mOutgoingMsgs = r.mOutgoingMsgs) :
    s.tickLoop data n = r.tickLoop data n >>= fun x =>
      pure (x.1, { s with mOutgoingMsgs := x.2.mOutgoingMsgs }) := by
  induction n generalizing data s r with
  | zero =>
      rw [BdNode.tickLoop, pure_eq_ok, ok_bind, ← h]
      rfl
  | succ n ih =>
      rw [tickLoop, BdNode.tickLoop, outgoingMsgInto, BdNode.outgoingMsgInto, h]
      cases hqueue : r.mOutgoingMsgs with
      | nil =>
          rw [← h] at hqueue
          simp only [pure_eq_ok, ok_bind]
          rw [← h]
      | cons bdmsg rest =>
          simp only [bind_assoc, pure_eq_ok, ok_bind]
          refine bind_congr (fun bytes => bind_congr (fun msg => bind_congr (fun pkt => ?_)))
          rw [ih msg { s with mOutgoingMsgs := rest } { r with mOutgoingMsgs := rest } rfl, bind_assoc]
          rfl

end BdTunnelNode

namespace UdpTunnel

/-- `UdpTunnel::recvPkt`: what it returns, and the manager then.  The two `isBitDhtPacket` are the same. -/
def recvPkt (c : BdTunnelManager) (data : List UInt8) (addr : SockaddrIn) :
    Exec (Nat × BdTunnelManager) := do
  -- check packet suitability
  if (← isBitDhtPacket data data.length) ≠ 0 then
    pure (1, { c with toBdTunnelNode := c.toBdTunnelNode.incomingMsg addr data })
  else
    pure (0, c)

/-- `UdpTunnel::tick`: what it returns, what it has sent, and the manager then. -/
def tick (c : BdTunnelManager) : Exec (Nat × List UdpPkt × BdTunnelManager) := do
  let (pkts, node) ← c.toBdTunnelNode.tickLoop (List.replicate bitdhtMaxPktsize 0) maxMsgPerTick
  pure (if pkts.length = maxMsgPerTick then 1 else 0, pkts, { c with toBdTunnelNode := node })

/-- The hundred first messages of the queue go out, each as much of it as fits in the buffer. -/
theorem tick_eq (c : BdTunnelManager) : ∃ more, tick c = .ok (more,
    (c.mOutgoingMsgs.take maxMsgPerTick).map cutPkt,
    { c with mOutgoingMsgs := c.mOutgoingMsgs.drop maxMsgPerTick }) := by
  let r : BdNode bdStdDht :=
    { BdNode.new bdZeroNodeId [] [] (fun _ => 0) with mOutgoingMsgs := c.mOutgoingMsgs }
  have hrun := BdTunnelNode.tickLoop_bdNode (List.replicate bitdhtMaxPktsize 0) maxMsgPerTick
    c.toBdTunnelNode r rfl
  rw [BdNode.tickLoop_eq List.length_replicate, ok_bind] at hrun
  exact ⟨_, (congrArg (· >>= _) hrun).trans rfl⟩

end UdpTunnel

end BitDht
