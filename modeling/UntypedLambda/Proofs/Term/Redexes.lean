import UntypedLambda.Proofs.Term.Outermost
import UntypedLambda.Proofs.Term.Run

set_option autoImplicit false

/-! Looking for redexes without contracting any. The tests say yes exactly where the searches find
something to contract, and in normal order, and for eta, that is where there is a redex at all. -/

namespace UntypedLambda

/-- A first redex in pre-order is found exactly when there is a redex at some position. -/
theorem Nameless.isSome_contractFirst?_iff {α : Type} {root? : Nameless α → Option (Nameless α)}
    (t : Nameless α) :
    (t.contractFirst? root?).isSome = true ↔
      ∃ position, (t.contractAt? root? position).isSome = true := by
  rw [← not_iff_not, Bool.not_eq_true, Option.isSome_eq_false_iff, Option.isNone_iff_eq_none,
    contractFirst?_eq_none_iff]
  simp

namespace Term

theorem hasBetaRedex_iff (t : Term) :
    t.hasBetaRedex .leftmostOutermost = true ↔
      ∃ position, (t.nameless.contractAt? Nameless.betaRoot? position).isSome = true := by
  obtain ⟨supply, below⟩ := t.exists_below
  rw [hasBetaRedex_eq .leftmostOutermost t supply, ← Nameless.isSome_contractFirst?_iff, nameless,
    ← betaOutermost?_readUnder below, Option.isSome_map]
  rfl

theorem hasEtaRedex_iff (t : Term) :
    t.hasEtaRedex = true ↔
      ∃ position, (t.nameless.contractAt? Nameless.etaRoot? position).isSome = true := by
  rw [hasEtaRedex_eq, ← Nameless.isSome_contractFirst?_iff, nameless, ← etaStep?_readUnder,
    Option.isSome_map]

/-- A term is normal exactly when there is no step, in every mode, under every strategy and whatever
supply the step would take its identities from. The test for beta redexes and the one for eta
redexes say yes exactly where the searches succeed. In normal order, and for eta, these miss
nothing: the tests say yes exactly when there is a redex at some position. -/
theorem redex_tests_agree_with_searches (t : Term) :
    (∀ mode strategy supply,
      t.isNormal mode strategy = true ↔ step? mode strategy t supply = none) ∧
    (∀ strategy supply, t.hasBetaRedex strategy = true ↔
      ∃ next, betaStep? strategy t supply = some next) ∧
    (t.hasEtaRedex = true ↔ ∃ next, etaStep? t = some next) ∧
    (t.hasBetaRedex .leftmostOutermost = true ↔
      ∃ position, (t.nameless.contractAt? Nameless.betaRoot? position).isSome = true) ∧
    (t.hasEtaRedex = true ↔
      ∃ position, (t.nameless.contractAt? Nameless.etaRoot? position).isSome = true) := by
  refine ⟨fun mode strategy supply => ?_, fun strategy supply => ?_, ?_, hasBetaRedex_iff t,
    hasEtaRedex_iff t⟩
  · rw [isNormal_eq mode strategy t supply, Option.isNone_iff_eq_none]
  · rw [hasBetaRedex_eq strategy t supply, Option.isSome_iff_exists]
  · rw [hasEtaRedex_eq, Option.isSome_iff_exists]

end Term

end UntypedLambda
