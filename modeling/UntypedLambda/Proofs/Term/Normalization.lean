import UntypedLambda.Proofs.Nameless.NormalOrder
import UntypedLambda.Proofs.Term.Equality
import UntypedLambda.Proofs.Term.Outermost
import UntypedLambda.Proofs.Term.Run

set_option autoImplicit false

/-! Normal order finds normal forms. The steps of a run in normal order follow the steps in normal
order of the nameless reading, and these lead to every normal form that beta contractions reach. -/

namespace UntypedLambda.Term

open Relation

theorem nameless_of_contractsTo {t next : Term}
    (steps : ReflTransGen (ContractsTo .beta) t next) :
    Nameless.Reduces Nameless.betaRoot? t.nameless next.nameless := by
  induction steps with
  | refl => exact .refl
  | tail _ step ih =>
      obtain ⟨supply, left, below, contracts⟩ := step
      rcases contracts.readUnder below [] with ⟨_, beta⟩ | ⟨excluded, _⟩
      · exact ih.tail beta
      · exact absurd rfl excluded

/-- Without a beta contraction of a term there is none of its reading. -/
theorem normal_nameless {t : Term} (normal : ∀ next, ¬ ContractsTo .beta t next) :
    Nameless.Normal t.nameless := by
  obtain ⟨supply, below⟩ := t.exists_below
  cases found : betaOutermost? t supply with
  | none =>
      rw [Nameless.Normal, nameless, ← betaOutermost?_readUnder below, found]
      rfl
  | some next =>
      have found' : step? .beta .leftmostOutermost t supply = some next := found
      have step : Contracts .beta supply t next := .of_step? found'
      exact absurd ⟨supply, next.2, below, step⟩ (normal next.1)

theorem normal_namelessByName {t : Term} (normal : ∀ next, ¬ ContractsTo .beta t next) :
    Nameless.Normal t.namelessByName := by
  rw [Nameless.Normal, namelessByName, Nameless.contractFirst?_map (Nameless.betaRoot?_map Var.name),
    normal_nameless normal, Option.map_none]

theorem advances_of_normalOrder {t : Term} {supply : Nat} (below : t.Below supply)
    {next : Nameless Var} (step : Nameless.NormalOrder t.nameless next) :
    ∃ state, Advances .beta .leftmostOutermost (t, supply) state ∧ state.1.nameless = next := by
  rw [Nameless.NormalOrder, nameless, ← betaOutermost?_readUnder below,
    Option.map_eq_some_iff] at step
  exact step

theorem exists_advances_of_normalOrder {t final : Nameless Var}
    (steps : ReflTransGen Nameless.NormalOrder t final) (start : Term × Nat)
    (below : start.1.Below start.2) (reads : start.1.nameless = t) :
    ∃ state, ReflTransGen (Advances .beta .leftmostOutermost) start state ∧
      state.1.nameless = final := by
  induction steps using ReflTransGen.head_induction_on generalizing start with
  | refl => exact ⟨start, .refl, reads⟩
  | head step _ ih =>
      rw [← reads] at step
      obtain ⟨next, advance, nextReads⟩ := advances_of_normalOrder below step
      obtain ⟨state, reached, stateReads⟩ :=
        ih next (below_of_advances (.single advance) below) nextReads
      exact ⟨state, .head advance reached, stateReads⟩

/-- Reduction in normal order ends, from some limit on, in every normal form that beta contractions
at any positions and in any order lead to, up to bound variables. -/
theorem normal_order_normalizes {t final : Term} {supply : Nat} (below : t.Below supply)
    (steps : ReflTransGen (ContractsTo .beta) t final)
    (normal : ∀ next, ¬ ContractsTo .beta final next) :
    ∃ bound, ∀ limit, bound ≤ limit →
      let reduction := reduce .beta .leftmostOutermost limit t supply
      reduction.exhausted = false ∧ reduction.term.alphaEqual final = true := by
  have toNormal := Nameless.normalOrder_of_reduces (nameless_of_contractsTo steps)
    (normal_nameless normal)
  obtain ⟨state, reached, reads⟩ := exists_advances_of_normalOrder toNormal (t, supply) below rfl
  have stuck : step? .beta .leftmostOutermost state.1 state.2 = none := by
    have noRedex := normal_nameless normal
    rw [← reads, Nameless.Normal, nameless,
      ← betaOutermost?_readUnder (below_of_advances reached below), Option.map_eq_none_iff]
      at noRedex
    exact noRedex
  obtain ⟨bound, ends⟩ := exists_limit_of_advances (fun _ _ _ => ()) reached stuck
  refine ⟨bound, fun limit enough => ?_⟩
  obtain ⟨same, finished⟩ := ends limit enough 0 ()
  refine ⟨finished, ?_⟩
  rw [alphaEqual_iff, namelessByName, namelessByName, ← reads, ← same]
  rfl

/-- The discarded argument has no normal form. -/
theorem normal_order_discards_divergence :
    let constant : Term := .app (.abs ⟨"x", 0⟩ (.abs ⟨"z", 1⟩ (.var ⟨"x", 0⟩))) (.var ⟨"y", 2⟩)
    let self : Term := .abs ⟨"w", 3⟩ (.app (.var ⟨"w", 3⟩) (.var ⟨"w", 3⟩))
    ∃ bound, ∀ limit, bound ≤ limit →
      let reduction := reduce .beta .leftmostOutermost limit (.app constant (.app self self)) 4
      reduction.exhausted = false ∧ reduction.term.alphaEqual (.var ⟨"y", 2⟩) = true := by
  intro constant self
  have inFunction : Contracts .beta 4 constant (.abs ⟨"z", 4⟩ (.var ⟨"y", 2⟩), 5) :=
    .beta (by decide) rfl
  have first : ContractsTo .beta (.app constant (.app self self))
      (.app (.abs ⟨"z", 4⟩ (.var ⟨"y", 2⟩)) (.app self self)) :=
    ⟨4, 5, by decide, .function (.app self self) inFunction⟩
  have second : ContractsTo .beta (.app (.abs ⟨"z", 4⟩ (.var ⟨"y", 2⟩)) (.app self self))
      (.var ⟨"y", 2⟩) :=
    ⟨5, 5, by decide, .beta (by decide) rfl⟩
  refine normal_order_normalizes (by decide) (.head first (.single second)) ?_
  rintro next ⟨_, _, _, step⟩
  cases step

end UntypedLambda.Term
