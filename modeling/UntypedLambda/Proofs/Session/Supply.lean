import UntypedLambda.Proofs.Resolution.Identities
import UntypedLambda.Proofs.Session.History

set_option autoImplicit false

/-! The supply of a session. Requests only take identities from it, so it stays above all identities
of the definitions. -/

namespace UntypedLambda.Session

variable {session after : Session} {new : List Term}

theorem Request.definitions_below (request : Request session new after)
    (below : session.context.Below session.supply) : after.context.Below after.supply := by
  cases request with
  | definition resolved =>
      obtain ⟨grown, minted⟩ := resolveDefinition_minted below resolved
      have belowTerm := minted.below fun id old => Nat.lt_of_lt_of_le old grown
      exact (below.mono grown).define belowTerm _
  | lookup found =>
      obtain ⟨definition, _, copied⟩ := Option.map_eq_some_iff.mp found
      have grown := Term.le_renameFrom [] definition session.supply
      change session.supply ≤ (definition.freshCopy session.supply).2 at grown
      rw [copied] at grown
      exact below.mono grown
  | evaluation resolved reached =>
      have grown := (resolveTerm_minted below resolved).1
      exact below.mono (Nat.le_trans grown (Term.supply_le_of_advances reached))
  | settings => exact below

theorem History.definitions_below (history : History session new after)
    (below : session.context.Below session.supply) : after.context.Below after.supply := by
  induction history with
  | nothing => exact below
  | next _ request ih => exact request.definitions_below ih

end UntypedLambda.Session
