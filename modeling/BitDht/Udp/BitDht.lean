import BitDht.Manager.Packet
import BitDht.Manager.Steps
import BitDht.Node.Traffic

/-!
# BitDht — `UdpBitDht`

The receiver of a UDP stack that has a manager.  All its calls go to the manager, one at a time, so
`UdpBitDht` is the manager here; a packet is passed on if it is recognised, and a tick sends for the node.
-/

namespace BitDht

variable {mFns : BdDhtFunctions}

namespace UdpBitDht

/-- `UdpBitDht::recvPkt`: what it returns, and the manager then. -/
def recvPkt (c : BdNodeManager mFns) (data : List UInt8) (addr : SockaddrIn) :
    Exec (Nat × BdNodeManager mFns) := do
  -- check packet suitability
  if (← isBitDhtPacket data data.length) ≠ 0 then
    pure (1, { c with toBdNodeIter := c.toBdNodeIter.incomingMsg addr data })
  else
    pure (0, c)

/-- `UdpBitDht::tick`: what it returns, what it has sent, and the manager then. -/
def tick (c : BdNodeManager mFns) : Exec (Nat × List UdpPkt × BdNodeManager mFns) := do
  let (more, pkts, node) ← c.toBdNode.tick
  pure (more, pkts, { c with toBdNode := node })

end UdpBitDht

/-- A message of a node is recognised, whatever is put behind it. -/
theorem Msg.isBitDhtPacket_built {m : Msg} (h : m.Short) (z : List UInt8) :
    isBitDhtPacket (bencode m.tree ++ z) (bencode m.tree ++ z).length = .ok 1 := by
  rw [isBitDhtPacket, h.beDecoden_tree z, Outcome.ok_bind]
  dsimp only
  rw [Msg.beMsgType_tree, Outcome.ok_bind, if_pos (Msg.type_ne_unknown _)]
  rfl

theorem MsgoutCall.MadeBy.isBitDhtPacket {own : BdNodeId} {c : MsgoutCall} {m : BdNodeNetMsg}
    (h : c.MadeBy mFns own m) : BitDht.isBitDhtPacket m.data m.data.length = .ok 1 := by
  rcases h with ⟨s, _, hfit, rfl⟩
  rcases c.exists_packet_data s with ⟨z, hz⟩
  rw [hz, Msg.isBitDhtPacket_built (c.msg_short hfit s)]

end BitDht
