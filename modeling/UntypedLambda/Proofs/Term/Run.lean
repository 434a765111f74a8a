import UntypedLambda.Proofs.Iteration
import UntypedLambda.Proofs.Term.Contraction
import UntypedLambda.Term.Reduction.Run

set_option autoImplicit false

/-! Runs as sequences of steps. A run ends in a term that steps lead to, it is exhausted exactly
when that term still has a redex for a further step, and a limit that suffices for the end of the
steps makes it end there. -/

namespace UntypedLambda.Term

open Iteration Relation

/-! ### The test for redexes -/

theorem hasBetaRedex_eq (strategy : Strategy) (t : Term) (supply : Nat) :
    t.hasBetaRedex strategy = (betaStep? strategy t supply).isSome := by
  cases strategy with
  | leftmostOutermost =>
      change t.hasBetaRedex .leftmostOutermost = (betaOutermost? t supply).isSome
      induction t with
      | var v => rfl
      | abs binder body ih => rw [hasBetaRedex, ih, betaOutermost?, Option.isSome_map]
      | app function argument ihFunction ihArgument =>
          cases function with
          | abs binder body => rfl
          | var v =>
              change argument.hasBetaRedex .leftmostOutermost = _
              rw [ihArgument]
              exact (Option.isSome_map ..).symm
          | app first second =>
              change (hasBetaRedex _ (.app first second) || hasBetaRedex _ argument) = _
              rw [ihFunction, ihArgument]
              conv => rhs; rw [betaOutermost?]
              simp only [contract?]
              cases betaOutermost? (.app first second) supply <;> simp
  | leftmost =>
      change t.hasBetaRedex .leftmost = (betaHead? t supply).isSome
      induction t with
      | var v => rfl
      | abs binder body ih => rw [hasBetaRedex, ih, betaHead?, Option.isSome_map]
      | app function argument ihFunction ihArgument =>
          cases function with
          | abs binder body => rfl
          | var v =>
              change (argument.kind == .application && argument.hasBetaRedex .leftmost) = _
              rw [ihArgument]
              cases argument with
              | var w => rfl
              | abs binder body => rfl
              | app first second => exact (Option.isSome_map ..).symm
          | app first second =>
              change (app first second).hasBetaRedex .leftmost = _
              rw [ihFunction]
              exact (Option.isSome_map ..).symm

theorem hasEtaRedex_eq (t : Term) : t.hasEtaRedex = (etaStep? t).isSome := by
  induction t with
  | var v => rfl
  | abs binder body ih =>
      rw [hasEtaRedex, ih, etaStep?]
      cases etaContract? binder body <;> simp
  | app function argument ihFunction ihArgument =>
      rw [hasEtaRedex, ihFunction, ihArgument, etaStep?]
      cases etaStep? function <;> simp

/-- A term is normal exactly when there is no step. -/
theorem isNormal_eq (mode : Mode) (strategy : Strategy) (t : Term) (supply : Nat) :
    t.isNormal mode strategy = (step? mode strategy t supply).isNone := by
  cases mode with
  | beta =>
      rw [isNormal, hasBetaRedex_eq strategy t supply, step?]
      cases betaStep? strategy t supply <;> rfl
  | eta =>
      rw [isNormal, hasEtaRedex_eq, step?]
      cases etaStep? t <;> rfl
  | both =>
      rw [isNormal, hasBetaRedex_eq strategy t supply, hasEtaRedex_eq, step?]
      cases betaStep? strategy t supply <;> cases etaStep? t <;> rfl

/-! ### Runs -/

def advance? (mode : Mode) (strategy : Strategy) (state : Term × Nat) : Option (Term × Nat) :=
  step? mode strategy state.1 state.2

def Advances (mode : Mode) (strategy : Strategy) (state next : Term × Nat) : Prop :=
  step? mode strategy state.1 state.2 = some next

variable {σ : Type} {mode : Mode} {strategy : Strategy}

theorem isNormal_of_stuck {state : Term × Nat} (stuck : advance? mode strategy state = none) :
    state.1.isNormal mode strategy = true := by
  rw [isNormal_eq mode strategy state.1 state.2, Option.isNone_iff_eq_none]
  exact stuck

/-- A run that makes `count` steps, because of its limit or because there is no further one. -/
theorem runFrom_of_after? (observe : σ → Nat → Term → σ) {limit count : Nat}
    {start final : Term × Nat} (le : count ≤ limit)
    (reached : after? (advance? mode strategy) count start = some final)
    (stop : count = limit ∨ advance? mode strategy final = none) (steps : Nat) (seen : σ) :
    (runFrom mode strategy observe limit steps start.1 start.2 seen).1 =
      ⟨final.1, steps + count, !final.1.isNormal mode strategy, final.2⟩ := by
  induction limit generalizing count start steps seen with
  | zero =>
      obtain rfl : count = 0 := Nat.le_zero.mp le
      obtain rfl : start = final := Option.some.inj reached
      rfl
  | succ limit ih =>
      cases count with
      | zero =>
          obtain rfl : start = final := Option.some.inj reached
          have stuck : step? mode strategy start.1 start.2 = none :=
            stop.resolve_left (Nat.succ_ne_zero limit).symm
          rw [runFrom, isNormal_eq mode strategy start.1 start.2, stuck]
          rfl
      | succ count =>
          obtain ⟨next, step, rest⟩ := Option.bind_eq_some_iff.mp reached
          have advance : step? mode strategy start.1 start.2 = some next := step
          rw [runFrom, advance]
          rw [ih (Nat.le_of_succ_le_succ le) rest (stop.imp_left Nat.succ.inj)]
          rw [Nat.add_assoc, Nat.add_comm 1 count]

/-- What a run comes to: a term that steps lead to, and whether there is one more step. -/
theorem runFrom_reaches (observe : σ → Nat → Term → σ) (limit steps : Nat) (t : Term)
    (supply : Nat) (seen : σ) :
    let reduction := (runFrom mode strategy observe limit steps t supply seen).1
    ReflTransGen (Advances mode strategy) (t, supply) (reduction.term, reduction.supply) ∧
      reduction.exhausted = !reduction.term.isNormal mode strategy := by
  intro reduction
  obtain ⟨count, final, le, reached, stop⟩ :=
    exists_stop (advance? mode strategy) limit (t, supply)
  have ending : reduction = _ := runFrom_of_after? observe le reached stop steps seen
  rw [ending]
  exact ⟨reflTransGen_iff_after?.mpr ⟨count, reached⟩, rfl⟩

/-- Where steps come to an end, every run with a sufficient limit ends. -/
theorem exists_limit_of_advances (observe : σ → Nat → Term → σ) {start final : Term × Nat}
    (reached : ReflTransGen (Advances mode strategy) start final)
    (stuck : step? mode strategy final.1 final.2 = none) :
    ∃ bound, ∀ limit, bound ≤ limit → ∀ steps seen,
      let reduction := (runFrom mode strategy observe limit steps start.1 start.2 seen).1
      reduction.term = final.1 ∧ reduction.exhausted = false := by
  obtain ⟨count, reached⟩ := reflTransGen_iff_after?.mp reached
  refine ⟨count, fun limit le steps seen => ?_⟩
  intro reduction
  have ending : reduction = _ := runFrom_of_after? observe le reached (Or.inr stuck) steps seen
  rw [ending, isNormal_of_stuck stuck]
  exact ⟨rfl, rfl⟩

theorem supply_le_of_advances {start final : Term × Nat}
    (reached : ReflTransGen (Advances mode strategy) start final) : start.2 ≤ final.2 := by
  induction reached with
  | refl => exact Nat.le_refl _
  | tail _ step ih => exact Nat.le_trans ih (Contracts.of_step? step).supply_le

theorem below_of_advances {start final : Term × Nat}
    (reached : ReflTransGen (Advances mode strategy) start final)
    (below : start.1.Below start.2) : final.1.Below final.2 := by
  induction reached with
  | refl => exact below
  | tail _ step ih => exact (Contracts.of_step? step).result_below ih

theorem contractsTo_of_advances {mode : Mode} {strategy : Strategy} {start final : Term × Nat}
    (reached : ReflTransGen (Advances mode strategy) start final)
    (below : start.1.Below start.2) : ReflTransGen (ContractsTo mode) start.1 final.1 := by
  induction reached with
  | refl => exact .refl
  | @tail state next earlier step ih =>
      exact ih.tail ⟨state.2, next.2, below_of_advances earlier below, Contracts.of_step? step⟩

end UntypedLambda.Term
