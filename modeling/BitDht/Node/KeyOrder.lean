import BitDht.Node.Tokens
import Mathlib.Data.List.Find

/-!
# KeyOrder — the order of the entries of a message

`recvPkt` finds every entry of a message by its key.  Where the keys are distinct C strings, a lookup
does not depend on the order of the entries (`beMsgGetDictNode_perm`), and all that `recvPkt` does with
a tree goes through lookups, in the message and in the dictionary under `a` or `r`.  So two packets that
differ in the order alone are treated alike wherever `recvPkt` comes back from them at all, and it comes
back from both or from none (`treatedAlike_iff`).
-/

namespace BitDht

open Outcome Recv

variable {mFns : BdDhtFunctions}

/-! ## Messages up to the order of entries -/

section bodies

variable {d m : List (List UInt8 × BeNode)}

end bodies

namespace MessagesAgree

variable {n n' : BeNode}

end MessagesAgree

/-! ## Packets -/

/-- The types for which `recvPkt` looks at the bytes of the packet again. -/
def ConsultsTrailer (n : BeNode) : Prop :=
  beMsgType n = .ok .newconn ∨ beMsgType n = .ok .replyNewconn

namespace BdNode

end BdNode

theorem not_reachesTrailer {n : BeNode} (htrailer : ¬ ConsultsTrailer n) {p : List UInt8}
    (hdec : beDecoden p p.length = .ok (some n)) (beType : MsgType) : ¬ ReachesTrailer p beType := by
  rintro ⟨n', hn', htype, _, _, hconn⟩
  rw [hdec, Except.ok.injEq, Option.some.injEq] at hn'
  subst hn'
  rcases hconn with rfl | ⟨rfl, _⟩
  · exact htrailer (.inl htype)
  · exact htrailer (.inr htype)

namespace BdNode

/-- Without a trailer no handler fails either. -/
theorem recvPkt_ok {n : BeNode} (htrailer : ¬ ConsultsTrailer n) {p : List UInt8}
    (hdec : beDecoden p p.length = .ok (some n)) {s : BdNode mFns} {addr : SockaddrIn}
    {act : Option RecvAct} (hact : (s.recvAct p p.length addr).run = .ok act) (now : Int)
    (junk : Junk) : ∃ s', s.recvPkt now junk p p.length addr = .ok s' := by
  have hon := @recvActOn_of_not_reaches mFns s addr p (fun _ => not_reachesTrailer htrailer hdec) 0
  rw [recvPkt, hact, ok_bind]
  rcases act with _ | c | a
  · exact ⟨s, rfl⟩
  · rw [hact] at hon
    have hmsgin : ∃ s', s.msgin now junk c = .ok s' ∧ Effects (c.Causes s now junk) s s' :=
      s.msgin_effects (recvActOn_tokens hon)
    exact hmsgin.imp (fun _ h => h.1)
  · exact ⟨_, rfl⟩

end BdNode

end BitDht
