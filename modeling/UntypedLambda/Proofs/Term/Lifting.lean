import UntypedLambda.Proofs.Term.Contraction
import UntypedLambda.Proofs.Term.Equality

set_option autoImplicit false

/-! Beta contraction of readings. A term makes every contraction that its reading makes, so that a
reduction found among nameless terms is one of terms, up to the choice of bound variables. -/

namespace UntypedLambda.Term

open Relation

private theorem exists_contract?_of_betaRoot? {function argument : Term} {supply : Nat}
    (below : (Term.app function argument).Below supply) {scope : List Var}
    {next : Nameless String}
    (found : Nameless.betaRoot? ((Term.app function argument).readByName scope) = some next) :
    ∃ result, contract? function argument supply = some result ∧
      result.1.readByName scope = next := by
  rw [readByName, Nameless.betaRoot?_map, betaRoot?_readUnder below, Option.map_map] at found
  exact Option.map_eq_some_iff.mp found

theorem exists_contracts_of_beta {t : Term} {supply : Nat} (below : t.Below supply)
    {scope : List Var} {next : Nameless String}
    (step : Nameless.Beta (t.readByName scope) next) :
    ∃ result, Contracts .beta supply t result ∧ result.1.readByName scope = next := by
  induction t generalizing scope next with
  | var v =>
      rcases readOccurrence_cases (scope.map Var.id) v with ⟨_, index, reads⟩ | ⟨_, reads⟩
      · rw [readByName, readUnder, reads] at step
        cases step with
        | root found => cases found
      · rw [readByName, readUnder, reads] at step
        cases step with
        | root found => cases found
  | abs binder body ih =>
      change Nameless.Beta (.lam (body.readByName (binder :: scope))) next at step
      cases step with
      | root found => cases found
      | lam inBody =>
          obtain ⟨result, step, reads⟩ := ih ((below_abs _ _ _).mp below).2 inBody
          exact ⟨_, .body binder step, congrArg Nameless.lam reads⟩
  | app function argument ihFunction ihArgument =>
      obtain ⟨belowFunction, belowArgument⟩ := (below_app _ _ _).mp below
      change Nameless.Beta (.app (function.readByName scope) (argument.readByName scope)) next
        at step
      cases step with
      | root found =>
          obtain ⟨result, contracted, reads⟩ := exists_contract?_of_betaRoot? below found
          exact ⟨result, .beta (by decide) contracted, reads⟩
      | function _ inFunction =>
          obtain ⟨result, step, reads⟩ := ihFunction belowFunction inFunction
          exact ⟨_, .function argument step, congrArg (Nameless.app · _) reads⟩
      | argument _ inArgument =>
          obtain ⟨result, step, reads⟩ := ihArgument belowArgument inArgument
          exact ⟨_, .argument function step, congrArg (Nameless.app _) reads⟩

/-- A reduction of the reading is the reading of a reduction. -/
theorem exists_contractsTo_of_reduces {t : Term} {final : Nameless String}
    (steps : Nameless.Reduces Nameless.betaRoot? t.namelessByName final) :
    ∃ reduct, ReflTransGen (ContractsTo .beta) t reduct ∧ reduct.namelessByName = final := by
  induction steps with
  | refl => exact ⟨t, .refl, rfl⟩
  | @tail _ last _ step ih =>
      obtain ⟨reduct, steps, rfl⟩ := ih
      obtain ⟨supply, below⟩ := exists_below reduct
      have atReading : Nameless.Beta (reduct.readByName []) last := step
      obtain ⟨result, contracted, reads⟩ := exists_contracts_of_beta below atReading
      exact ⟨result.1, steps.tail ⟨supply, result.2, below, contracted⟩, reads⟩

/-- Terms whose readings have a common reduct have one themselves, up to bound variables. -/
theorem exists_common_reduct {left right : Term}
    (meet : Join (Nameless.Reduces Nameless.betaRoot?) left.namelessByName right.namelessByName) :
    ∃ first second, ReflTransGen (ContractsTo .beta) left first ∧
      ReflTransGen (ContractsTo .beta) right second ∧ first.alphaEqual second = true := by
  obtain ⟨final, fromLeft, fromRight⟩ := meet
  obtain ⟨first, toFirst, firstReads⟩ := exists_contractsTo_of_reduces fromLeft
  obtain ⟨second, toSecond, secondReads⟩ := exists_contractsTo_of_reduces fromRight
  refine ⟨first, second, toFirst, toSecond, ?_⟩
  rw [alphaEqual_iff, firstReads, secondReads]

end UntypedLambda.Term
