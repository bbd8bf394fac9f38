import BitDht.Exec.Network
import BitDht.Node.Known
import BitDht.Tunnel.Traffic

/-!
# Net — nodes that send each other their packets

A network of BitDHT nodes: each has an address that the others reach it at, makes calls on its own in any
order and at any times, ticks, and receives what was sent to its address.  A packet may be lost, come late
or more than once; the wait in `mIncomingMsgs` is one of the ways to come late.  Beside the ticks of the nodes
there are the tunnels that share their addresses, which may send any of their messages at any time.
-/

namespace BitDht

open Network Outcome

variable {mFns : BdDhtFunctions} {ι : Type}

/-- A call that a node makes on its own. -/
structure LocalCall where
  call : NodeCall
  notPacket : ∀ junk word msg addr, call ≠ .recvPkt junk word msg addr

/-- A message that a tunnel can send. -/
structure TunnelSend where
  call : TunnelCall
  argsOk : ∀ own, (call.msg own).ArgsOk

inductive NodeAct
  | call (now : Int) (c : LocalCall)
  | tick
  | tunnel (t : TunnelSend)

theorem TunnelSend.len_le (t : TunnelSend) : t.call.transId.len ≤ bitdhtTokenMaxLen := by
  refine (t.argsOk bdZeroNodeId).tokens _ ?_
  cases t.call <;> exact List.mem_singleton.2 rfl

/-- What a packet finds at its receiver: the time, and the memory that `recvPkt` does not write. -/
structure Arrival where
  now : Int
  junk : Junk
  word : UInt32

/-- The nodes of a network and what they start from.  No two are reached at the same address. -/
structure DhtNet (ι : Type) where
  addr : ι → SockaddrIn
  id : ι → BdNodeId
  dhtVersion : ι → List UInt8
  store : ι → List BdPeer
  rand : ι → Nat → UInt32
  inet : ∀ i, (addr i).sinFamily = afInet
  addr_injective : Function.Injective addr

namespace DhtNet

variable (net : DhtNet ι)

/-- The nodes as parties that send what they tick. -/
def system (mFns : BdDhtFunctions) : System ι (BdNode mFns) NodeAct UdpPkt Arrival Fault where
  act i s
    | .call now c => do
        let s ← callStep s (now, c.call)
        pure (s, [])
    | .tick => do
        let (_, pkts, s) ← s.tick
        pure (s, pkts)
    | .tunnel t => pure (s, [wholePkt (t.call.packet (net.id i))])
  recv _ s r sender pkt := do
    let s ← s.recvPktOn r.word r.now r.junk pkt.data pkt.data.length (net.addr sender)
    pure (s, [])
  addressed pkt i := decide (pkt.toAddr = net.addr i)

def start (mFns : BdDhtFunctions) : World ι (BdNode mFns) NodeAct UdpPkt where
  state i := BdNode.new (net.id i) (net.dhtVersion i) (net.store i) (net.rand i)
  log := []

/-- The peer is a node of the network, under its own id and at its own address. -/
def Real (id : BdId) : Prop :=
  ∃ i, id = ⟨net.addr i, net.id i⟩

variable {net}

theorem Real.inet {id : BdId} (h : net.Real id) : id.addr.sinFamily = afInet := by
  rcases h with ⟨i, rfl⟩
  exact net.inet i

/-- A node is known by its address. -/
theorem Real.id_eq {id : BdId} (h : net.Real id) {i : ι} (hi : net.addr i = id.addr) :
    id.id = net.id i := by
  rcases h with ⟨j, rfl⟩
  rw [net.addr_injective hi]

end DhtNet

end BitDht
