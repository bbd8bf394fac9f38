import BitDht.Container.Compare
import BitDht.Peer.IdOrder
import BitDht.Tunnel.Node

/-!
# Manager — `bdTunnelManager`

The manager keeps the peers to be connected in a map and hands them to its node, which keeps a list of
its own.  `tunnelStep` has one case for each function that is called from outside.
-/

namespace BitDht

open Container Outcome

/-! ## The manager -/

/-- `BITDHT_TUN_MGR_STATE_OFF` to `BITDHT_TUN_MGR_STATE_FAILED` -/
inductive TunMgrState
  | off
  | startup
  | newconn
  | failed
  deriving DecidableEq, Repr

/-- `bdTunnelPeer::STATUS` -/
inductive TunnelStatus
  | connecting
  | connected
  | disconnected
  deriving DecidableEq, Repr

/-- `bdTunnelPeer` -/
structure BdTunnelPeer where
  mId : BdId
  mStatus : TunnelStatus
  mTunnelAddr : SockaddrIn

/-- The library's part of `std::map<bdId, bdTunnelPeer>`. -/
abbrev PeerLib := TreeLib BdId BdTunnelPeer bdIdLt

/-- `bdTunnelManager` -/
structure BdTunnelManager extends BdTunnelNode where
  mTunnelPeers : CmpMap BdId BdTunnelPeer bdIdLt
  mMode : TunMgrState
  mModeTS : Int

namespace BdTunnelManager

def maxStartupTime : Int := 10

def maxRefreshTime : Int := 10

/-- The constructor of `bdTunnelManager`. -/
def new (ownId : BdNodeId) (lib : PeerLib) : BdTunnelManager where
  toBdTunnelNode := BdTunnelNode.new ownId
  mTunnelPeers := CmpMap.empty lib
  mMode := .off
  mModeTS := 0

/-- `stopTunnel` -/
def stopTunnel (c : BdTunnelManager) (now : Int) : BdTunnelManager :=
  -- flag queries as inactive
  { c with
      toBdTunnelNode := c.toBdTunnelNode.shutdownNode,
      mTunnelPeers := c.mTunnelPeers.mapVals (fun peer => { peer with mStatus := .disconnected }),
      mMode := .off,
      mModeTS := now }

/-- `startTunnel`.  The `restartNode` of this node does nothing. -/
def startTunnel (c : BdTunnelManager) (now : Int) : BdTunnelManager :=
  { c with mMode := .startup, mModeTS := now }

/-- `connectNode`.  The address family of the new entry is not assigned to. -/
def connectNode (c : BdTunnelManager) (id : BdId) (sinFamily : Nat) : BdTunnelManager :=
  if c.mTunnelPeers.contains id then c
  else
    let peer : BdTunnelPeer :=
      { mId := id, mStatus := .connecting,
        mTunnelAddr := { sinFamily := sinFamily, sAddr := 0, sinPort := 0 } }
    { c with mTunnelPeers := c.mTunnelPeers.assign id peer }

/-- `disconnectNode` -/
def disconnectNode (c : BdTunnelManager) (id : BdId) : BdTunnelManager :=
  match c.mTunnelPeers.find id with
  | none => c
  | some it => { c with mTunnelPeers := c.mTunnelPeers.erase it }

/-- The loop over the peers in the mode NEWCONN. -/
def addTunnels (c : BdTunnelManager) : BdTunnelManager :=
  { c with toBdTunnelNode :=
      c.mTunnelPeers.entries.foldl (fun s it => s.addTunnel it.1) c.toBdTunnelNode }

/-- The switch of `iteration`. -/
def changeMode (c : BdTunnelManager) (now : Int) : BdTunnelManager :=
  let modeAge := now - c.mModeTS
  match c.mMode with
  | .off => c
  | .startup =>
      -- 10 seconds startup .... then switch to ACTIVE
      if modeAge > maxStartupTime then
        if c.mTunnelPeers.entries.isEmpty then { c with mModeTS := now }
        else { c with mMode := .newconn, mModeTS := now }
      else
        c
  | .newconn =>
      if modeAge > maxRefreshTime then { c with mMode := .startup, mModeTS := now }.addTunnels
      else c
  | .failed => (c.stopTunnel now).startTunnel now

/-- `iteration` -/
def iteration (c : BdTunnelManager) (now : Int) (env : TunnelEnv) : Exec BdTunnelManager := do
  let c := c.changeMode now
  if c.mMode = .off then
    pure { c with toBdTunnelNode := c.toBdTunnelNode.iterationOff }
  else do
    let node ← c.toBdTunnelNode.iteration env
    pure { c with toBdTunnelNode := node }

end BdTunnelManager

/-! ## Runs -/

/-- The calls from outside, with what they read there. -/
inductive TunnelOp
  | startTunnel
  | stopTunnel
  | connectNode (id : BdId) (sinFamily : Nat)
  | disconnectNode (id : BdId)
  | incomingMsg (addr : SockaddrIn) (msg : List UInt8)
  | outgoingMsg
  | iteration (env : TunnelEnv)

/-- One call at the time that `time(NULL)` returns in it. -/
def tunnelStep (c : BdTunnelManager) : Int × TunnelOp → Exec BdTunnelManager
  | (now, .startTunnel) => pure (c.startTunnel now)
  | (now, .stopTunnel) => pure (c.stopTunnel now)
  | (_, .connectNode id sinFamily) => pure (c.connectNode id sinFamily)
  | (_, .disconnectNode id) => pure (c.disconnectNode id)
  | (_, .incomingMsg addr msg) =>
      pure { c with toBdTunnelNode := c.toBdTunnelNode.incomingMsg addr msg }
  | (_, .outgoingMsg) => pure { c with toBdTunnelNode := c.toBdTunnelNode.outgoingMsg }
  | (now, .iteration env) => c.iteration now env

end BitDht
