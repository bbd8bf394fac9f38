import BitDht.Peer.Space

/-!
# IdOrder — `operator<` on `bdId`

The order that `std::map<bdId, ...>` sorts its keys by.  Of two ids with one node id the smaller
address or the smaller port makes the smaller one, whichever of the two it is, so the order fails on
the pairs where addresses and ports disagree (`Discordant`), and only there
(`strictOrderAt_iff`).
-/

namespace BitDht

/-- `operator<` on `bdId` -/
def bdIdLt (a b : BdId) : Bool :=
  if bdNodeIdLt a.id b.id then
    true
  else if bdNodeIdLt b.id a.id then
    false
  -- else NodeIds the same - check id addresses
  else if a.addr.sAddr < b.addr.sAddr then
    true
  -- the same comparison once more
  else if b.addr.sAddr > a.addr.sAddr then
    false
  else if a.addr.sinPort < b.addr.sinPort then
    true
  else
    false

theorem bdIdLt_iff {a b : BdId} : bdIdLt a b = true ↔
    a.id < b.id ∨
      a.id = b.id ∧ (a.addr.sAddr < b.addr.sAddr ∨ a.addr.sinPort < b.addr.sinPort) := by
  simp only [bdIdLt, bdNodeIdLt_iff]
  rcases lt_trichotomy a.id b.id with hlt | heq | hgt
  · simp [hlt]
  · by_cases haddr : a.addr.sAddr < b.addr.sAddr
    · simp [heq, haddr]
    · simp [heq, haddr]
  · simp [hgt, hgt.not_gt, hgt.ne']

/-- The two ids differ in the address and the port only, and the one with the smaller address has the
greater port. -/
def Discordant (a b : BdId) : Prop :=
  a.id = b.id ∧
    (a.addr.sAddr < b.addr.sAddr ∧ b.addr.sinPort < a.addr.sinPort ∨
      b.addr.sAddr < a.addr.sAddr ∧ a.addr.sinPort < b.addr.sinPort)

/-- The comparisons of the three ids are those of a strict total order that `operator==` belongs
to. -/
structure StrictOrderAt (a b c : BdId) : Prop where
  irrefl : bdIdLt a a = false
  asymm : ¬ (bdIdLt a b = true ∧ bdIdLt b a = true)
  trans : bdIdLt a b = true → bdIdLt b c = true → bdIdLt a c = true
  total : bdIdLt a b = false ∧ bdIdLt b a = false ↔ bdIdEq a b = true

theorem bdIdLt_irrefl (a : BdId) : bdIdLt a a = false := by
  rw [← Bool.not_eq_true, bdIdLt_iff]
  rintro (hid | ⟨_, haddr | hport⟩)
  · exact lt_irrefl _ hid
  · exact UInt32.lt_irrefl _ haddr
  · exact UInt16.lt_irrefl _ hport

/-- Both ways the comparison succeeds exactly on the discordant pairs. -/
theorem bdIdLt_both_iff {a b : BdId} :
    bdIdLt a b = true ∧ bdIdLt b a = true ↔ Discordant a b := by
  rw [bdIdLt_iff, bdIdLt_iff, Discordant]
  constructor
  · rintro ⟨hab | ⟨hid, hab⟩, hba | ⟨hid', hba⟩⟩
    · exact absurd hab hba.not_gt
    · exact absurd hab hid'.symm.not_lt
    · exact absurd hba hid.symm.not_lt
    · refine ⟨hid, ?_⟩
      rcases hab with haddr | hport
      · rcases hba with haddr' | hport'
        · exact absurd haddr' (UInt32.lt_asymm haddr)
        · exact .inl ⟨haddr, hport'⟩
      · rcases hba with haddr' | hport'
        · exact .inr ⟨haddr', hport⟩
        · exact absurd hport' (UInt16.lt_asymm hport)
  · rintro ⟨hid, ⟨haddr, hport⟩ | ⟨haddr, hport⟩⟩
    · exact ⟨.inr ⟨hid, .inl haddr⟩, .inr ⟨hid.symm, .inr hport⟩⟩
    · exact ⟨.inr ⟨hid, .inr hport⟩, .inr ⟨hid.symm, .inl haddr⟩⟩

/-- Neither way it succeeds exactly on equal ids. -/
theorem bdIdLt_neither_iff {a b : BdId} :
    bdIdLt a b = false ∧ bdIdLt b a = false ↔ bdIdEq a b = true := by
  rw [← Bool.not_eq_true, ← Bool.not_eq_true, bdIdLt_iff, bdIdLt_iff, bdIdEq_iff]
  constructor
  · rintro ⟨hab, hba⟩
    push Not at hab hba
    have hid : a.id = b.id := le_antisymm hba.1 hab.1
    have hright := hab.2 hid
    have hleft := hba.2 hid.symm
    exact ⟨hid, UInt32.le_antisymm (UInt32.not_lt.1 hleft.1) (UInt32.not_lt.1 hright.1),
      UInt16.le_antisymm (UInt16.not_lt.1 hleft.2) (UInt16.not_lt.1 hright.2)⟩
  · rintro ⟨hid, haddr, hport⟩
    simp [hid, haddr, hport]

/-- Two comparisons that are not concatenated contain a discordant pair. -/
theorem bdIdLt_trans_or {a b c : BdId} (hab : bdIdLt a b = true) (hbc : bdIdLt b c = true) :
    bdIdLt a c = true ∨ Discordant a b := by
  by_contra! hneither
  rw [bdIdLt_iff] at hab hbc
  rcases hneither with ⟨hac, hab'⟩
  rw [ne_eq, bdIdLt_iff] at hac
  push Not at hac
  -- the node ids are one, since a smaller one among them would decide
  have hids : a.id = b.id ∧ b.id = c.id := by
    rcases hab with hlt | ⟨heq, _⟩
    · rcases hbc with hlt' | ⟨heq', _⟩
      · exact absurd (hlt.trans hlt') hac.1.not_gt
      · exact absurd (heq' ▸ hlt) hac.1.not_gt
    · rcases hbc with hlt' | ⟨heq', _⟩
      · exact absurd (heq ▸ hlt') hac.1.not_gt
      · exact ⟨heq, heq'⟩
  rcases hids with ⟨hid, hid'⟩
  simp only [hid, hid', lt_irrefl, true_and, false_or] at hab hbc
  have hca := hac.2 (hid.trans hid')
  rw [UInt32.not_lt, UInt16.not_lt] at hca
  rcases hca with ⟨haddr, hport⟩
  -- `c` is not above `a` in either part, so one part rises to `b` and the other one to `c`
  rcases hab with hup | hup
  · rcases hbc with hdown | hdown
    · exact UInt32.lt_irrefl _ (UInt32.lt_of_lt_of_le (UInt32.lt_trans hup hdown) haddr)
    · exact hab' ⟨hid, .inl ⟨hup, UInt16.lt_of_lt_of_le hdown hport⟩⟩
  · rcases hbc with hdown | hdown
    · exact hab' ⟨hid, .inr ⟨UInt32.lt_of_lt_of_le hdown haddr, hup⟩⟩
    · exact UInt16.lt_irrefl _ (UInt16.lt_of_lt_of_le (UInt16.lt_trans hup hdown) hport)

/-- The comparisons of three ids are those of a strict total order exactly when the first two are
not discordant. -/
theorem strictOrderAt_iff (a b c : BdId) : StrictOrderAt a b c ↔ ¬ Discordant a b := by
  constructor
  · intro h hdisc
    exact h.asymm (bdIdLt_both_iff.2 hdisc)
  · intro h
    refine ⟨bdIdLt_irrefl a, ?_, ?_, bdIdLt_neither_iff⟩
    · intro hboth
      exact h (bdIdLt_both_iff.1 hboth)
    · intro hab hbc
      exact (bdIdLt_trans_or hab hbc).resolve_right h

/-- One node id at two addresses, each below the other. -/
theorem not_strictOrderAt_addr_port :
    ¬ StrictOrderAt ⟨⟨afInet, 1, 2⟩, ⟨List.replicate 20 0, rfl⟩⟩
      ⟨⟨afInet, 2, 1⟩, ⟨List.replicate 20 0, rfl⟩⟩ ⟨⟨afInet, 1, 2⟩, ⟨List.replicate 20 0, rfl⟩⟩ :=
  fun h => h.asymm ⟨by decide, by decide⟩

end BitDht
