import UntypedLambda.Proofs.Nameless.Contraction
import UntypedLambda.Proofs.Term.Reading

set_option autoImplicit false

/-! Contraction of a redex at any position of a term. Every step of the program is one, whatever
the mode and the strategy, and the nameless reading takes each to a nameless contraction. -/

namespace UntypedLambda.Term

/-- A redex of a kind that the mode selects, anywhere in the term, is contracted with new
identities from `supply`. The result comes with the supply that is left. -/
inductive Contracts (mode : Mode) (supply : Nat) : Term → Term × Nat → Prop where
  | beta {function argument : Term} {next : Term × Nat} :
      mode ≠ .eta → contract? function argument supply = some next →
        Contracts mode supply (.app function argument) next
  | eta {binder : Var} {body next : Term} :
      mode ≠ .beta → etaContract? binder body = some next →
        Contracts mode supply (.abs binder body) (next, supply)
  | body (binder : Var) {body : Term} {next : Term × Nat} :
      Contracts mode supply body next →
        Contracts mode supply (.abs binder body) (.abs binder next.1, next.2)
  | function {function : Term} (argument : Term) {next : Term × Nat} :
      Contracts mode supply function next →
        Contracts mode supply (.app function argument) (.app next.1 argument, next.2)
  | argument (function : Term) {argument : Term} {next : Term × Nat} :
      Contracts mode supply argument next →
        Contracts mode supply (.app function argument) (.app function next.1, next.2)

theorem contract?_eq_some {function argument : Term} {supply : Nat} {next : Term × Nat}
    (found : contract? function argument supply = some next) :
    ∃ binder body, function = .abs binder body ∧
      next = body.substitute binder.id argument supply := by
  unfold contract? at found
  split at found
  · rename_i binder body
    exact ⟨binder, body, rfl, (Option.some.inj found).symm⟩
  · cases found

theorem etaContract?_eq_some {binder : Var} {body next : Term}
    (found : etaContract? binder body = some next) :
    ∃ v : Var, v.id = binder.id ∧ body = .app next (.var v) ∧
      next.occursFree binder.id = false := by
  unfold etaContract? at found
  split at found
  · rename_i function argument
    split at found
    · rename_i redex
      obtain ⟨isBinder, absent⟩ := Bool.and_eq_true_iff.mp redex
      cases argument with
      | var v =>
          rw [← Option.some.inj found]
          exact ⟨v, beq_iff_eq.mp isBinder, rfl, by simpa using absent⟩
      | abs _ _ => cases isBinder
      | app _ _ => cases isBinder
    · cases found
  · cases found

namespace Contracts

/-! ### The supply -/

theorem supply_le {mode : Mode} {supply : Nat} {t : Term} {next : Term × Nat}
    (step : Contracts mode supply t next) : supply ≤ next.2 := by
  induction step with
  | beta _ found =>
      obtain ⟨binder, body, _, rfl⟩ := contract?_eq_some found
      exact le_substitute body binder.id _ supply
  | eta _ _ => exact Nat.le_refl supply
  | body _ _ ih => exact ih
  | function _ _ ih => exact ih
  | argument _ _ ih => exact ih

theorem result_below {mode : Mode} {supply : Nat} {t : Term} {next : Term × Nat}
    (step : Contracts mode supply t next) (start : t.Below supply) : next.1.Below next.2 := by
  induction step with
  | beta _ found =>
      obtain ⟨binder, body, rfl, rfl⟩ := contract?_eq_some found
      obtain ⟨inFunction, inArgument⟩ := (below_app _ _ _).mp start
      exact substitute_below _ ((below_abs _ _ _).mp inFunction).2 inArgument
  | eta _ found =>
      obtain ⟨v, _, rfl, _⟩ := etaContract?_eq_some found
      exact ((below_app _ _ _).mp ((below_abs _ _ _).mp start).2).1
  | body binder inBody ih =>
      obtain ⟨atBinder, below⟩ := (below_abs _ _ _).mp start
      exact (below_abs _ _ _).mpr ⟨Nat.lt_of_lt_of_le atBinder inBody.supply_le, ih below⟩
  | function argument inFunction ih =>
      obtain ⟨below, atArgument⟩ := (below_app _ _ _).mp start
      exact (below_app _ _ _).mpr ⟨ih below, atArgument.mono inFunction.supply_le⟩
  | argument function inArgument ih =>
      obtain ⟨atFunction, below⟩ := (below_app _ _ _).mp start
      exact (below_app _ _ _).mpr ⟨atFunction.mono inArgument.supply_le, ih below⟩

end Contracts

/-! ### The reading of a redex -/

/-- An application reads as a beta redex exactly when it is one, and with the same contraction. -/
theorem betaRoot?_readUnder {function argument : Term} {supply : Nat}
    (below : (Term.app function argument).Below supply) (scope : List Nat) :
    Nameless.betaRoot? ((Term.app function argument).readUnder scope) =
      (contract? function argument supply).map fun next => next.1.readUnder scope := by
  obtain ⟨inFunction, inArgument⟩ := (below_app _ _ _).mp below
  cases function with
  | var v =>
      simp only [readUnder, readOccurrence]
      split <;> rfl
  | abs binder body =>
      have inBody := ((below_abs _ _ _).mp inFunction).2
      simp only [readUnder, Nameless.betaRoot?, contract?, Option.map_some,
        readUnder_substitute binder.id inBody inArgument scope]
  | app first second => rfl

/-- An abstraction reads as an eta redex exactly when it is one, and with the same contraction. -/
theorem etaRoot?_readUnder (binder : Var) (body : Term) (scope : List Nat) :
    Nameless.etaRoot? ((Term.abs binder body).readUnder scope) =
      (etaContract? binder body).map fun next => next.readUnder scope := by
  cases body with
  | var v =>
      simp only [readUnder, readOccurrence]
      split <;> rfl
  | abs inner body => rfl
  | app function argument =>
      have mentioned := mentions_readUnder_cons binder.id scope function
      cases argument with
      | var v =>
          by_cases same : v.id = binder.id
          · rw [readUnder, readUnder, readUnder, ← same, readOccurrence_cons_self, same]
            simp only [Nameless.etaRoot?, etaContract?, isVar, same, beq_self_eq_true,
              Bool.true_and, mentioned]
            cases occurs : function.occursFree binder.id with
            | true => rfl
            | false =>
                simp only [Bool.false_eq_true, if_false, Bool.not_false, if_true,
                  Option.map_some, readUnder_cons_of_not_free occurs]
                exact congrArg some (Nameless.lower_shift 0 _)
          · have skip : (v.id == binder.id) = false := beq_eq_false_iff_ne.mpr same
            rw [readUnder, readUnder, readUnder, readOccurrence_cons_of_ne same]
            simp only [etaContract?, isVar, skip, Bool.false_and, Bool.false_eq_true, if_false,
              Option.map_none]
            unfold readOccurrence
            split <;> rfl
      | abs inner body => simp [readUnder, Nameless.etaRoot?, etaContract?, isVar]
      | app first second => simp [readUnder, Nameless.etaRoot?, etaContract?, isVar]

def Mode.Contraction {α : Type} (mode : Mode) (t next : Nameless α) : Prop :=
  mode ≠ .eta ∧ Nameless.Beta t next ∨ mode ≠ .beta ∧ Nameless.Eta t next

namespace Contracts

/-- A contraction reads as a nameless contraction. -/
theorem readUnder {mode : Mode} {supply : Nat} {t : Term} {next : Term × Nat}
    (step : Contracts mode supply t next) (start : t.Below supply) (scope : List Nat) :
    mode.Contraction (t.readUnder scope) (next.1.readUnder scope) := by
  induction step generalizing scope with
  | beta selected found =>
      refine Or.inl ⟨selected, .root ?_⟩
      rw [betaRoot?_readUnder start, found]
      rfl
  | eta selected found =>
      refine Or.inr ⟨selected, .root ?_⟩
      rw [etaRoot?_readUnder, found]
      rfl
  | body binder _ ih =>
      rcases ih ((below_abs _ _ _).mp start).2 (binder.id :: scope) with
        ⟨selected, inBody⟩ | ⟨selected, inBody⟩
      · exact Or.inl ⟨selected, .lam inBody⟩
      · exact Or.inr ⟨selected, .lam inBody⟩
  | function argument _ ih =>
      rcases ih ((below_app _ _ _).mp start).1 scope with
        ⟨selected, inFunction⟩ | ⟨selected, inFunction⟩
      · exact Or.inl ⟨selected, .function _ inFunction⟩
      · exact Or.inr ⟨selected, .function _ inFunction⟩
  | argument function _ ih =>
      rcases ih ((below_app _ _ _).mp start).2 scope with
        ⟨selected, inArgument⟩ | ⟨selected, inArgument⟩
      · exact Or.inl ⟨selected, .argument _ inArgument⟩
      · exact Or.inr ⟨selected, .argument _ inArgument⟩

/-! ### The steps of the program -/

private theorem of_betaOutermost? {mode : Mode} (selected : mode ≠ .eta) {t : Term}
    {supply : Nat} {next : Term × Nat} (found : betaOutermost? t supply = some next) :
    Contracts mode supply t next := by
  induction t generalizing next with
  | var v => cases found
  | abs binder body ih =>
      obtain ⟨inner, inBody, rfl⟩ := Option.map_eq_some_iff.mp found
      exact .body binder (ih inBody)
  | app function argument ihFunction ihArgument =>
      rw [betaOutermost?] at found
      split at found
      · rename_i atRoot
        exact .beta selected (atRoot.trans found)
      · split at found
        · rename_i inFunction
          rw [← Option.some.inj found]
          exact .function argument (ihFunction inFunction)
        · obtain ⟨inner, inArgument, rfl⟩ := Option.map_eq_some_iff.mp found
          exact .argument function (ihArgument inArgument)

private theorem of_betaHead? {mode : Mode} (selected : mode ≠ .eta) {t : Term} {supply : Nat}
    {next : Term × Nat} (found : betaHead? t supply = some next) :
    Contracts mode supply t next := by
  induction t generalizing next with
  | var v => cases found
  | abs binder body ih =>
      obtain ⟨inner, inBody, rfl⟩ := Option.map_eq_some_iff.mp found
      exact .body binder (ih inBody)
  | app function argument ihFunction ihArgument =>
      unfold betaHead? at found
      split at found
      · exact .beta selected found
      · obtain ⟨inner, inFunction, rfl⟩ := Option.map_eq_some_iff.mp found
        exact .function argument (ihFunction inFunction)
      · split at found
        · obtain ⟨inner, inArgument, rfl⟩ := Option.map_eq_some_iff.mp found
          exact .argument _ (ihArgument inArgument)
        · cases found

private theorem of_betaStep? {mode : Mode} (selected : mode ≠ .eta) {strategy : Strategy}
    {t : Term} {supply : Nat} {next : Term × Nat}
    (found : betaStep? strategy t supply = some next) : Contracts mode supply t next := by
  cases strategy with
  | leftmostOutermost => exact of_betaOutermost? selected found
  | leftmost => exact of_betaHead? selected found

private theorem of_etaStep? {mode : Mode} (selected : mode ≠ .beta) (supply : Nat) {t next : Term}
    (found : etaStep? t = some next) : Contracts mode supply t (next, supply) := by
  induction t generalizing next with
  | var v => cases found
  | abs binder body ih =>
      rw [etaStep?] at found
      split at found
      · rename_i atRoot
        exact .eta selected (atRoot.trans found)
      · obtain ⟨inner, inBody, rfl⟩ := Option.map_eq_some_iff.mp found
        exact .body binder (ih inBody)
  | app function argument ihFunction ihArgument =>
      rw [etaStep?] at found
      split at found
      · rename_i inner inFunction
        rw [← Option.some.inj found]
        exact .function argument (ihFunction inFunction)
      · obtain ⟨inner, inArgument, rfl⟩ := Option.map_eq_some_iff.mp found
        exact .argument function (ihArgument inArgument)

/-- Every step contracts a redex of a kind that its mode selects. -/
theorem of_step? {mode : Mode} {strategy : Strategy} {t : Term} {supply : Nat}
    {next : Term × Nat} (found : step? mode strategy t supply = some next) :
    Contracts mode supply t next := by
  cases mode with
  | beta => exact of_betaStep? (by decide) found
  | eta =>
      obtain ⟨inner, inEta, rfl⟩ := Option.map_eq_some_iff.mp found
      exact of_etaStep? (by decide) supply inEta
  | both =>
      simp only [step?, Option.orElse_eq_orElse, Option.orElse_eq_or,
        Option.or_eq_some_iff] at found
      rcases found with inBeta | ⟨_, inEta⟩
      · exact of_betaStep? (by decide) inBeta
      · obtain ⟨inner, atInner, rfl⟩ := Option.map_eq_some_iff.mp inEta
        exact of_etaStep? (by decide) supply atInner

end Contracts

/-- A redex of a kind that the mode selects is contracted somewhere, with new identities from some
supply above all identities of the term. -/
def ContractsTo (mode : Mode) (t next : Term) : Prop :=
  ∃ supply left, t.Below supply ∧ Contracts mode supply t (next, left)

end UntypedLambda.Term
