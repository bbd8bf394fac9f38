import BitDht.Node.OutOfDate
import Mathlib.Data.List.Rotate

/-!
# Fairness — whose turn it is

An iteration asks the queries in the order of `mLocalQueries` and puts each one behind the others when it
has had its turn.  `askQueriesLog` is the loop with a record of those turns.  However many peers are
pinged first, at least five queries have their turn (`askQueriesLog_spec`), so over consecutive
iterations the turns go round the queue (`iterationRun_fair`).
-/

namespace BitDht

open Container Outcome

variable {mFns : BdDhtFunctions}

/-! ## What becomes of a query -/

/-- Some calls make the one query the other. -/
def BdQuery.Becomes (mFns : BdDhtFunctions) (q q' : BdQuery) : Prop :=
  ∃ ops : List (Int × QueryOp), ops.foldl (queryStep mFns) q = q'

namespace BdQuery.Becomes

variable {q q' q'' : BdQuery}

theorem refl (q : BdQuery) : q.Becomes mFns q := ⟨[], rfl⟩

theorem single (q : BdQuery) (op : Int × QueryOp) : q.Becomes mFns (queryStep mFns q op) :=
  ⟨[op], rfl⟩

theorem trans (h : q.Becomes mFns q') (h' : q'.Becomes mFns q'') : q.Becomes mFns q'' := by
  rcases h with ⟨ops, rfl⟩
  rcases h' with ⟨ops', rfl⟩
  exact ⟨ops ++ ops', List.foldl_append⟩

end BdQuery.Becomes

/-- The queries of the later list are those of the earlier one, in the same order. -/
def QueriesBecome (mFns : BdDhtFunctions) (l l' : List BdQuery) : Prop :=
  List.Forall₂ (BdQuery.Becomes mFns) l l'

theorem queriesBecome_queryRel : QueryRel mFns (QueriesBecome mFns) where
  refl := fun _ => List.forall₂_same.2 (fun q _ => .refl q)
  trans := by
    intro l l' l'' h h'
    induction h generalizing l'' with
    | nil =>
        exact h'
    | cons hq _ ih =>
        cases h' with
        | cons hq' hl' =>
            exact .cons (hq.trans hq') (ih hl')
  map := by
    intro l op
    exact List.forall₂_map_right_iff.2 (List.forall₂_same.2 (fun q _ => .single q op))

/-- The queries may also change places in the queue. -/
theorem QueriesBecome.rotate {l l' : List BdQuery} (h : QueriesBecome mFns l l') (n : Nat) :
    QueriesBecome mFns (l.rotate n) (l'.rotate n) := by
  rw [List.rotate_eq_drop_append_take_mod, List.rotate_eq_drop_append_take_mod,
    ← List.Forall₂.length_eq h]
  exact List.rel_append (List.forall₂_drop _ h) (List.forall₂_take _ h)

theorem QueriesBecome.getElem? {l l' : List BdQuery} (h : QueriesBecome mFns l l') {i : Nat}
    {q' : BdQuery} (hi : l'[i]? = some q') : ∃ q, l[i]? = some q ∧ q.Becomes mFns q' := by
  rcases List.getElem?_eq_some_iff.1 hi with ⟨hlt, rfl⟩
  have hl : i < l.length := h.length_eq ▸ hlt
  exact ⟨l[i], List.getElem?_eq_getElem hl, (List.forall₂_iff_get.1 h).2 i hl hlt⟩

/-! ## The turns of an iteration -/

namespace BdNode

/-- The loop of `askQueries`, with the queries that it has called `nextQuery` on, as they were then. -/
def askQueriesLog (now : Int) (env : IterEnv) :
    Nat → Nat → Nat → BdNode mFns → Exec (List BdQuery × BdNode mFns)
  | 0, _, _, s => pure ([], s)
  | n + 1, i, sentMsgs, s =>
      match s.mLocalQueries with
      | [] => pure ([], s)
      | query :: queries =>
          if sentMsgs < maxMsgs then
            let r := query.nextQuery mFns (env.bdRandomMidId i) now (env.endId i)
            let s := { s with mLocalQueries := queries ++ [r.1] }
            match r.2 with
            | some (id, targetNodeId) => do
                let (transId, s) := s.genNewTransId
                let s ← s.msgoutFindNode id transId targetNodeId
                let (asked, s) ← askQueriesLog now env n (i + 1) (sentMsgs + 1) s
                pure (query :: asked, s)
            | none => do
                let (asked, s) ← askQueriesLog now env n (i + 1) sentMsgs s
                pure (query :: asked, s)
          else
            pure ([], s)

/-- The record leaves the loop as it is. -/
theorem askQueriesLog_snd (now : Int) (env : IterEnv) (n i sentMsgs : Nat) (s : BdNode mFns) :
    (askQueriesLog now env n i sentMsgs s).map Prod.snd = askQueries now env n i sentMsgs s := by
  have hcons : ∀ (query : BdQuery) (x : Exec (List BdQuery × BdNode mFns)),
      (x >>= fun r => pure (query :: r.1, r.2)).map Prod.snd = x.map Prod.snd := by
    intro query x
    cases x with
    | error e =>
        rfl
    | ok r =>
        rfl
  induction n generalizing i sentMsgs s with
  | zero =>
      rfl
  | succ n ih =>
      rw [askQueriesLog, askQueries]
      cases s.mLocalQueries with
      | nil =>
          rfl
      | cons query queries =>
          dsimp only
          split_ifs
          · rcases query.nextQuery mFns (env.bdRandomMidId i) now (env.endId i) with
              ⟨q, _ | ⟨id, targetNodeId⟩⟩
            · exact (hcons query _).trans (ih _ _ _)
            · dsimp only
              rcases msgoutFindNode _ id _ targetNodeId with e | s₁
              · rfl
              · exact (hcons query _).trans (ih _ _ s₁)
          · rfl

theorem length_queueMsg (s : BdNode mFns) (data : List UInt8) (addr : SockaddrIn) :
    (s.queueMsg data addr).mOutgoingMsgs.length = s.mOutgoingMsgs.length + 1 :=
  List.length_append

theorem msgoutFindNode_eq (s : BdNode mFns) (id : BdId) {transId : BdToken}
    (h : transId.len ≤ bitdhtTokenMaxLen) (target : BdNodeId) :
    s.msgoutFindNode id transId target =
      .ok (s.queueMsg (bencode (Msg.findNode transId s.mOwnId target).tree) id.addr) :=
  msgout_eq (Msg.findNode_short h) s id.addr

/-- What the loop has done to the node when it has given `asked` their turns. -/
structure AskedTurns (n sentMsgs : Nat) (s : BdNode mFns) (asked : List BdQuery)
    (s' : BdNode mFns) : Prop where
  front : asked = s.mLocalQueries.take asked.length
  atMost : asked.length ≤ n
  atLeast : min n (maxMsgs - sentMsgs) ≤ asked.length
  sent : s'.mOutgoingMsgs.length ≤ s.mOutgoingMsgs.length + (maxMsgs - sentMsgs)
  queue : QueriesBecome mFns (s.mLocalQueries.drop asked.length ++ asked) s'.mLocalQueries

/-- One more turn, in which at most one message is sent. -/
theorem AskedTurns.round {n sentMsgs sentMsgs₁ : Nat} {s s₁ s' : BdNode mFns} {query q : BdQuery}
    {queries asked : List BdQuery} (hqueries : s.mLocalQueries = query :: queries)
    (hq : query.Becomes mFns q) (h₁ : s₁.mLocalQueries = queries ++ [q])
    (hn : n ≤ queries.length) (hsent : sentMsgs < maxMsgs)
    (hone : sentMsgs ≤ sentMsgs₁ ∧ sentMsgs₁ ≤ sentMsgs + 1)
    (hout : s₁.mOutgoingMsgs.length + sentMsgs = s.mOutgoingMsgs.length + sentMsgs₁)
    (h : AskedTurns n sentMsgs₁ s₁ asked s') :
    AskedTurns (n + 1) sentMsgs s (query :: asked) s' := by
  have hle : asked.length ≤ queries.length := h.atMost.trans hn
  have hfront := h.front
  have hqueue := h.queue
  have hleast := h.atLeast
  have hmsgs := h.sent
  rw [h₁, List.take_append_of_le_length hle] at hfront
  rw [h₁, List.drop_append_of_le_length hle, List.append_assoc] at hqueue
  refine ⟨?_, Nat.succ_le_succ h.atMost, ?_, ?_, ?_⟩
  · rw [hqueries, List.length_cons, List.take_succ_cons, ← hfront]
  · rw [List.length_cons]
    omega
  · omega
  · rw [hqueries, List.length_cons, List.drop_succ_cons]
    refine queriesBecome_queryRel.trans ?_ hqueue
    exact List.rel_append (queriesBecome_queryRel.refl _)
      (.cons hq (queriesBecome_queryRel.refl asked))

theorem askQueriesLog_spec {now : Int} {env : IterEnv} {n i sentMsgs : Nat} {s s' : BdNode mFns}
    {asked : List BdQuery} (hn : n ≤ s.mLocalQueries.length)
    (h : askQueriesLog now env n i sentMsgs s = .ok (asked, s')) :
    AskedTurns n sentMsgs s asked s' := by
  induction n generalizing i sentMsgs s asked with
  | zero =>
      cases h
      refine ⟨rfl, le_rfl, Nat.min_le_left _ _, Nat.le_add_right _ _, ?_⟩
      rw [List.length_nil, List.drop_zero, List.append_nil]
      exact queriesBecome_queryRel.refl _
  | succ n ih =>
      rw [askQueriesLog] at h
      split at h
      · rename_i hqueries
        rw [hqueries] at hn
        exact absurd hn (Nat.not_succ_le_zero n)
      · rename_i query queries hqueries
        rw [hqueries, List.length_cons, Nat.succ_le_succ_iff] at hn
        have hlen : n ≤ (queries ++ [(query.nextQuery mFns (env.bdRandomMidId i) now
            (env.endId i)).1]).length := by
          rw [List.length_append]
          omega
        have hnext := @BdQuery.Becomes.single mFns query
          (now, .nextQuery (env.bdRandomMidId i) (env.endId i))
        split_ifs at h with hsent
        · dsimp only at h
          split at h
          · rename_i id targetNodeId _
            rcases bind_eq_ok.1 h with ⟨s₁, hs₁, hrest⟩
            rcases bind_eq_ok.1 hrest with ⟨⟨asked', s₂⟩, hs₂, hend⟩
            cases hend
            rw [msgoutFindNode_eq _ _ (len_genNewTransId_le _)] at hs₁
            cases hs₁
            have hturns := ih (by exact hlen) hs₂
            refine AskedTurns.round hqueries hnext rfl hn hsent ⟨Nat.le_succ _, le_rfl⟩ ?_ hturns
            rw [length_queueMsg]
            exact Nat.add_right_comm _ 1 sentMsgs
          · rcases bind_eq_ok.1 h with ⟨⟨asked', s₂⟩, hs₂, hend⟩
            cases hend
            have hturns := ih (by exact hlen) hs₂
            refine AskedTurns.round hqueries hnext rfl hn hsent ⟨le_rfl, Nat.le_succ _⟩ ?_ hturns
            rfl
        · cases h
          refine ⟨rfl, Nat.zero_le _, ?_, Nat.le_add_right _ _, ?_⟩
          · rw [Nat.sub_eq_zero_of_le (not_lt.1 hsent), Nat.min_zero]
            exact le_rfl
          · rw [List.length_nil, List.drop_zero, List.append_nil]
            exact queriesBecome_queryRel.refl _

/-- What is left of the allowance has not been sent. -/
theorem pingPotential_sent {n left : Nat} {s s' : BdNode mFns}
    (h : pingPotential n s = .ok (left, s')) :
    left ≤ n ∧ s'.mOutgoingMsgs.length + left = s.mOutgoingMsgs.length + n ∧
      s'.mLocalQueries = s.mLocalQueries := by
  induction n generalizing s with
  | zero =>
      cases h
      exact ⟨le_rfl, rfl, rfl⟩
  | succ n ih =>
      rw [pingPotential] at h
      split at h
      · cases h
        exact ⟨le_rfl, rfl, rfl⟩
      · rename_i pid peers _
        rw [ping_eq, ok_bind] at h
        rcases ih h with ⟨hleft, hlen, hqueries⟩
        refine ⟨hleft.trans (Nat.le_succ n), ?_, hqueries⟩
        rw [hlen]
        simp only [List.length_append, List.length_singleton]
        omega

end BdNode

/-- What is recorded of an iteration: the queries on which it has called `nextQuery`, as they were
then, and what its two sending loops have put into the queue. -/
structure IterationLog where
  asked : List BdQuery
  sent : List BdNodeNetMsg

namespace BdNodeIter

/-- `iterationOn` up to the broadcasts, with its record. -/
def iterateLog (word : Nat → UInt32) (s : BdNode mFns) (now : Int) (env : IterEnv)
    (msgs : List BdNodeNetMsg) : Exec (IterationLog × BdNode mFns) := do
  let s₁ ← recvPktsOn word now env 0 msgs s
  let (left, s₂) ← BdNode.pingPotential BdNode.allowedPings s₁
  let (asked, s₃) ←
    BdNode.askQueriesLog now env s₂.mLocalQueries.length 0 (BdNode.allowedPings - left) s₂
  let s₄ ← s₃.processRemoteQuery now
  let s₅ ← BdNode.pingOutOfDate now s₄.mNodeSpace.calcSpaceSize s₄
  pure ({ asked := asked, sent := s₃.mOutgoingMsgs.drop s₁.mOutgoingMsgs.length }, s₅)

/-- The record leaves the iteration as it is. -/
theorem iterateLog_snd (word : Nat → UInt32) (s : BdNode mFns) (now : Int) (env : IterEnv)
    (msgs : List BdNodeNetMsg) : (iterateLog word s now env msgs).map Prod.snd =
      (recvPktsOn word now env 0 msgs s >>= fun s₁ => iterate s₁ now env []) := by
  rw [iterateLog]
  rcases recvPktsOn word now env 0 msgs s with e | s₁
  · rfl
  rw [ok_bind, ok_bind, iterate, show recvPkts now env 0 [] s₁ = .ok s₁ from rfl, ok_bind]
  rcases BdNode.pingPotential BdNode.allowedPings s₁ with e | ⟨left, s₂⟩
  · rfl
  rw [ok_bind, ok_bind]
  dsimp only
  rw [← BdNode.askQueriesLog_snd]
  rcases BdNode.askQueriesLog now env s₂.mLocalQueries.length 0 (BdNode.allowedPings - left) s₂ with
    e | ⟨asked, s₃⟩
  · rfl
  rcases h₄ : s₃.processRemoteQuery now with e | s₄
  · simp [Except.map, h₄, error_bind]
  · rcases h₅ : BdNode.pingOutOfDate now s₄.mNodeSpace.calcSpaceSize s₄ with e | s₅
    · simp [Except.map, h₄, h₅, ok_bind, error_bind]
    · simp [Except.map, h₄, h₅, ok_bind]

/-- The turns that an iteration gives to the queries `l`, which it leaves as `l'`. -/
structure Turns (mFns : BdDhtFunctions) (log : IterationLog) (l l' : List BdQuery) : Prop where
  sent : log.sent.length ≤ BdNode.maxMsgs
  atMost : log.asked.length ≤ l.length
  atLeast : min l.length 5 ≤ log.asked.length
  front : QueriesBecome mFns (l.take log.asked.length) log.asked
  queue : QueriesBecome mFns (l.rotate log.asked.length) l'

theorem iterateLog_turns {word : Nat → UInt32} {s s' : BdNode mFns} {now : Int} {env : IterEnv}
    {msgs : List BdNodeNetMsg} {log : IterationLog}
    (h : iterateLog word s now env msgs = .ok (log, s')) :
    Turns mFns log s.mLocalQueries s'.mLocalQueries := by
  have hR := @queriesBecome_queryRel mFns
  rcases bind_eq_ok.1 h with ⟨s₁, hs₁, h⟩
  rcases bind_eq_ok.1 h with ⟨⟨left, s₂⟩, hs₂, h⟩
  rcases bind_eq_ok.1 h with ⟨⟨asked, s₃⟩, hs₃, h⟩
  rcases bind_eq_ok.1 h with ⟨s₄, hs₄, h⟩
  rcases bind_eq_ok.1 h with ⟨s₅, hs₅, h⟩
  cases h
  have hrecv := recvPktsOn_keeps hR hs₁
  have hafter := (BdNode.processQueue_keeps hR hs₄).trans hR (BdNode.pingOutOfDate_keeps hR hs₅)
  rcases BdNode.pingPotential_sent hs₂ with ⟨hleft, hpings, hqueries⟩
  have hturns := BdNode.askQueriesLog_spec le_rfl hs₃
  have hsent := hturns.sent
  have hatMost := hturns.atMost
  have hatLeast := hturns.atLeast
  have hfront := hturns.front
  have hqueue := hturns.queue
  have hlen : s.mLocalQueries.length = s₁.mLocalQueries.length := hrecv.queries.length_eq
  rw [hqueries] at hatMost hatLeast hfront hqueue
  have hallowed : BdNode.allowedPings = 45 := rfl
  have hmax : BdNode.maxMsgs = 50 := rfl
  have hasked : asked.length ≤ s.mLocalQueries.length := by omega
  have hfive : min s.mLocalQueries.length 5 ≤ asked.length := by omega
  refine ⟨?_, hasked, hfive, ?_, ?_⟩
  · rw [List.length_drop]
    omega
  · nth_rewrite 2 [hfront]
    exact List.forall₂_take _ hrecv.queries
  · have hrotate := hrecv.queries.rotate asked.length
    rw [List.rotate_eq_drop_append_take hatMost, ← hfront] at hrotate
    exact hR.trans (hR.trans hrotate hqueue) hafter.queries

/-- What a whole iteration leaves has had the turns that `iterate` gave. -/
theorem iterationOn_turns {word : Nat → UInt32} {s s' : BdNodeIter mFns} {node : BdNode mFns}
    {now : Int} {env : IterEnv} {log : IterationLog}
    (hlog : iterateLog word s.toBdNode now env s.mIncomingMsgs = .ok (log, node))
    (h : s.iterationOn word now env = .ok s') :
    Turns mFns log s.mLocalQueries s'.mLocalQueries := by
  have hR := @queriesBecome_queryRel mFns
  rcases bind_eq_ok.1 h with ⟨s₁, hs₁, hiter⟩
  rcases iteration_rel (.refl hR) (.trans hR) (BdNode.broadcastTo_keeps hR) (BdNode.punch_keeps hR)
    hiter with ⟨node', hnode', hrest⟩
  have hsnd := iterateLog_snd word s.toBdNode now env s.mIncomingMsgs
  rw [hlog, hs₁, ok_bind, hnode'] at hsnd
  cases hsnd
  have hturns := iterateLog_turns hlog
  exact { hturns with queue := hR.trans hturns.queue hrest.queries }

end BdNodeIter

/-! ## Consecutive iterations -/

/-- Iterations with their records and, between them, anything that adds no query and takes none away. -/
inductive IterationRun : BdNodeIter mFns → List IterationLog → BdNodeIter mFns → Prop
  | done (s : BdNodeIter mFns) : IterationRun s [] s
  | between {s s₁ s' : BdNodeIter mFns} {logs : List IterationLog}
      (h : QueriesBecome mFns s.mLocalQueries s₁.mLocalQueries) (hrest : IterationRun s₁ logs s') :
      IterationRun s logs s'
  | iteration {word : Nat → UInt32} {s s₁ s' : BdNodeIter mFns} {node : BdNode mFns} {now : Int}
      {env : IterEnv} {log : IterationLog} {logs : List IterationLog}
      (hlog : BdNodeIter.iterateLog word s.toBdNode now env s.mIncomingMsgs = .ok (log, node))
      (h : s.iterationOn word now env = .ok s₁) (hrest : IterationRun s₁ logs s') :
      IterationRun s (log :: logs) s'

/-- The queries that have been asked, in the order of their turns. -/
def askedQueries (logs : List IterationLog) : List BdQuery :=
  logs.flatMap IterationLog.asked

/-- Where the queue stands after a run, and who has had the turns. -/
structure RunTurns (mFns : BdDhtFunctions) (logs : List IterationLog) (l l' : List BdQuery) :
    Prop where
  sent : ∀ log ∈ logs, log.sent.length ≤ BdNode.maxMsgs
  atLeast : logs.length * min l.length 5 ≤ (askedQueries logs).length
  queue : QueriesBecome mFns (l.rotate (askedQueries logs).length) l'
  turn : ∀ i q', (askedQueries logs)[i]? = some q' →
    ∃ q, l[i % l.length]? = some q ∧ q.Becomes mFns q'

namespace RunTurns

variable {logs : List IterationLog} {l l₁ l' : List BdQuery}

theorem nil (l : List BdQuery) : RunTurns mFns [] l l where
  sent := fun _ hlog => absurd hlog List.not_mem_nil
  atLeast := Nat.zero_mul _ ▸ Nat.zero_le _
  queue := by
    rw [askedQueries, List.flatMap_nil, List.length_nil, List.rotate_zero]
    exact queriesBecome_queryRel.refl l
  turn := fun _ _ hi => absurd hi (by simp [askedQueries])

theorem between (hl : QueriesBecome mFns l l₁) (h : RunTurns mFns logs l₁ l') :
    RunTurns mFns logs l l' where
  sent := h.sent
  atLeast := by
    rw [hl.length_eq]
    exact h.atLeast
  queue := queriesBecome_queryRel.trans (hl.rotate _) h.queue
  turn := by
    intro i q' hi
    rcases h.turn i q' hi with ⟨q₁, hq₁, hq'⟩
    rw [← hl.length_eq] at hq₁
    rcases hl.getElem? hq₁ with ⟨q, hq, hbecomes⟩
    exact ⟨q, hq, hbecomes.trans hq'⟩

/-- The turns of the next run follow those of an iteration. -/
theorem cons {log : IterationLog} (hl : BdNodeIter.Turns mFns log l l₁)
    (h : RunTurns mFns logs l₁ l') : RunTurns mFns (log :: logs) l l' := by
  have hasked : askedQueries (log :: logs) = log.asked ++ askedQueries logs := List.flatMap_cons
  have hlen : l.length = l₁.length := by
    rw [← hl.queue.length_eq, List.length_rotate]
  refine ⟨?_, ?_, ?_, ?_⟩
  · rw [List.forall_mem_cons]
    exact ⟨hl.sent, h.sent⟩
  · have hfirst := hl.atLeast
    have hrest := h.atLeast
    rw [hasked, List.length_append, List.length_cons, Nat.succ_mul, hlen]
    rw [hlen] at hfirst
    omega
  · rw [hasked, List.length_append, ← List.rotate_rotate]
    exact queriesBecome_queryRel.trans (hl.queue.rotate _) h.queue
  · intro i q' hi
    rw [hasked] at hi
    by_cases hturn : i < log.asked.length
    -- one of the turns of this iteration
    · rw [List.getElem?_append_left hturn] at hi
      rcases hl.front.getElem? hi with ⟨q, hq, hbecomes⟩
      rw [List.getElem?_take_of_lt hturn] at hq
      rw [Nat.mod_eq_of_lt (hturn.trans_le hl.atMost)]
      exact ⟨q, hq, hbecomes⟩
    · rw [List.getElem?_append_right (not_lt.1 hturn)] at hi
      rcases h.turn _ q' hi with ⟨q₁, hq₁, hq'⟩
      rcases hl.queue.getElem? hq₁ with ⟨q, hq, hbecomes⟩
      have hpos : 0 < l.length := by
        by_contra hzero
        have hnil : l₁ = [] := List.eq_nil_of_length_eq_zero (by omega)
        rw [hnil] at hq₁
        cases hq₁
      rw [List.getElem?_rotate (hlen ▸ Nat.mod_lt _ hpos), ← hlen, Nat.mod_add_mod,
        Nat.sub_add_cancel (not_lt.1 hturn)] at hq
      exact ⟨q, hq, hbecomes.trans hq'⟩

end RunTurns

theorem IterationRun.turns {s s' : BdNodeIter mFns} {logs : List IterationLog}
    (h : IterationRun s logs s') : RunTurns mFns logs s.mLocalQueries s'.mLocalQueries := by
  induction h with
  | done s =>
      exact .nil _
  | between h _ ih =>
      exact ih.between h
  | iteration hlog h _ ih =>
      exact ih.cons (BdNodeIter.iterationOn_turns hlog h)

/-- The queue keeps its queries, an iteration sends at most `maxMsgs` messages in its two loops, and each
query has had its turn after a fifth as many iterations as there are queries. -/
theorem iterationRun_fair {s s' : BdNodeIter mFns} {logs : List IterationLog}
    (h : IterationRun s logs s') :
    (∀ log ∈ logs, log.sent.length ≤ 50) ∧
    (∃ r, QueriesBecome mFns (s.mLocalQueries.rotate r) s'.mLocalQueries) ∧
    ((s.mLocalQueries.length + 4) / 5 ≤ logs.length →
      ∀ (p : Nat) (q : BdQuery), s.mLocalQueries[p]? = some q →
        ∃ q', (askedQueries logs)[p]? = some q' ∧ q.Becomes mFns q') := by
  have hturns := h.turns
  refine ⟨hturns.sent, ⟨_, hturns.queue⟩, ?_⟩
  intro hlogs p q hq
  rcases List.getElem?_eq_some_iff.1 hq with ⟨hp, -⟩
  have hall : s.mLocalQueries.length ≤ (askedQueries logs).length := by
    refine le_trans ?_ hturns.atLeast
    rcases le_total s.mLocalQueries.length 5 with hle | hle
    · rw [Nat.min_eq_left hle]
      exact Nat.le_mul_of_pos_left _ (by omega)
    · rw [Nat.min_eq_right hle]
      omega
  have hturn := List.getElem?_eq_getElem (hp.trans_le hall)
  rcases hturns.turn p _ hturn with ⟨q₀, hq₀, hbecomes⟩
  rw [Nat.mod_eq_of_lt hp, hq] at hq₀
  cases hq₀
  exact ⟨_, hturn, hbecomes⟩

/-- A node with seven queries that each have somebody to ask, and with more potential peers than it may
ping in one iteration. -/
def sevenQueriesNode : BdNodeIter bdStdDht :=
  let s : BdNodeIter bdStdDht := .new bdZeroNodeId [] [] [] (fun _ => 0)
  { s with
      mLocalQueries := (List.range 7).map (fun n =>
        BdQuery.new bdStdDht 0 (byteId n) [bytePeer (n + 8)] 0)
      mPotentialPeers := List.replicate 60 ⟨⟨afInet, 1, 2⟩, bdZeroNodeId⟩ }

/-- Five queries have their turn in the first iteration, which sends their FIND_NODEs behind its pings, and
all seven in the second, which sends the two that are left. -/
theorem iterationRun_sevenQueries :
    ∃ logs s', IterationRun sevenQueriesNode logs s' ∧
      logs.map (fun log => (log.asked.length, log.sent.length)) = [(5, 50), (7, 17)] ∧
      (∀ log ∈ logs, log.sent.length ≤ 50) ∧
      (∃ r, QueriesBecome bdStdDht (sevenQueriesNode.mLocalQueries.rotate r) s'.mLocalQueries) ∧
      ∀ (p : Nat) (q : BdQuery), sevenQueriesNode.mLocalQueries[p]? = some q →
        ∃ q', (askedQueries logs)[p]? = some q' ∧ q.Becomes bdStdDht q' := by
  let env : IterEnv := ⟨fun _ => ⟨bdZeroNodeId, bdZeroNodeId, 0⟩, fun _ id _ => id,
    fun _ => bdZeroNodeId⟩
  let word : Nat → UInt32 := fun _ => 0
  have hrun : Outcome.holds (do
      let r ← BdNodeIter.iterateLog word sevenQueriesNode.toBdNode 1 env
        sevenQueriesNode.mIncomingMsgs
      let s ← sevenQueriesNode.iterationOn word 1 env
      let r' ← BdNodeIter.iterateLog word s.toBdNode 2 env s.mIncomingMsgs
      let _ ← s.iterationOn word 2 env
      pure [r.1, r'.1]) (fun logs =>
        logs.map (fun log => (log.asked.length, log.sent.length)) = [(5, 50), (7, 17)]) = true := by
    decide +kernel
  rcases Outcome.holds_iff.1 hrun with ⟨logs, hlogs, hlen⟩
  rcases bind_eq_ok.1 hlogs with ⟨⟨log, node⟩, hlog, hlogs⟩
  rcases bind_eq_ok.1 hlogs with ⟨s, hs, hlogs⟩
  rcases bind_eq_ok.1 hlogs with ⟨⟨log', node'⟩, hlog', hlogs⟩
  rcases bind_eq_ok.1 hlogs with ⟨s', hs', hlogs⟩
  cases hlogs
  have hiterations : IterationRun sevenQueriesNode [log, log'] s' :=
    .iteration hlog hs (.iteration hlog' hs' (.done s'))
  rcases iterationRun_fair hiterations with ⟨hsent, hqueue, hfair⟩
  have htwo : (sevenQueriesNode.mLocalQueries.length + 4) / 5 ≤ [log, log'].length :=
    Nat.le_refl 2
  exact ⟨_, _, hiterations, of_decide_eq_true hlen, hsent, hqueue, hfair htwo⟩

end BitDht
