import UntypedLambda.Proofs.Term.Contraction
import UntypedLambda.Proofs.Term.Equality

set_option autoImplicit false

/-! The search for a redex in normal order, and the search for an eta redex, find the first redex
of the nameless reading in pre-order. -/

namespace UntypedLambda.Term

theorem betaOutermost?_readUnder {t : Term} {supply : Nat} (below : t.Below supply)
    (scope : List Nat) :
    (betaOutermost? t supply).map (fun next => next.1.readUnder scope) =
      (t.readUnder scope).contractFirst? Nameless.betaRoot? := by
  induction t generalizing scope with
  | var v =>
      rw [readUnder, readOccurrence]
      split
      · rw [Nameless.contractFirst?_bound]
        rfl
      · rw [Nameless.contractFirst?_free]
        rfl
  | abs binder body ih =>
      rw [readUnder, Nameless.contractFirst?_lam,
        ← ih ((below_abs _ _ _).mp below).2 (binder.id :: scope)]
      simp only [betaOutermost?, Option.map_map]
      rfl
  | app function argument ihFunction ihArgument =>
      obtain ⟨inFunction, inArgument⟩ := (below_app _ _ _).mp below
      have atRoot := betaRoot?_readUnder below scope
      rw [readUnder] at atRoot ⊢
      rw [Nameless.contractFirst?_app, atRoot, ← ihFunction inFunction scope,
        ← ihArgument inArgument scope, betaOutermost?]
      cases contract? function argument supply with
      | some next => rfl
      | none =>
          cases betaOutermost? function supply with
          | some next => rfl
          | none =>
              simp only [Option.map_none, Option.map_map, Option.none_or]
              rfl

theorem etaStep?_readUnder (t : Term) (scope : List Nat) :
    (etaStep? t).map (fun next => next.readUnder scope) =
      (t.readUnder scope).contractFirst? Nameless.etaRoot? := by
  induction t generalizing scope with
  | var v =>
      rw [readUnder, readOccurrence]
      split
      · rw [Nameless.contractFirst?_bound]
        rfl
      · rw [Nameless.contractFirst?_free]
        rfl
  | abs binder body ih =>
      have atRoot := etaRoot?_readUnder binder body scope
      rw [readUnder] at atRoot ⊢
      rw [Nameless.contractFirst?_lam, atRoot, ← ih (binder.id :: scope), etaStep?]
      cases etaContract? binder body with
      | some next => rfl
      | none =>
          simp only [Option.map_none, Option.map_map, Option.none_or]
          rfl
  | app function argument ihFunction ihArgument =>
      rw [readUnder, Nameless.contractFirst?_app, ← ihFunction scope, ← ihArgument scope, etaStep?]
      cases etaStep? function with
      | some next => rfl
      | none =>
          simp only [Option.map_none, Option.map_map, Option.none_or]
          rfl

theorem betaOutermost?_namelessByName {t : Term} {supply : Nat} (below : t.Below supply) :
    (betaOutermost? t supply).map (fun next => next.1.namelessByName) =
      t.namelessByName.contractFirst? Nameless.betaRoot? := by
  rw [namelessByName, Nameless.contractFirst?_map (Nameless.betaRoot?_map Var.name), nameless,
    ← betaOutermost?_readUnder below, Option.map_map]
  rfl

theorem etaStep?_namelessByName (t : Term) :
    (etaStep? t).map namelessByName = t.namelessByName.contractFirst? Nameless.etaRoot? := by
  rw [namelessByName, Nameless.contractFirst?_map (Nameless.etaRoot?_map Var.name), nameless,
    ← etaStep?_readUnder, Option.map_map]
  rfl

/-- There is a step in normal order exactly when the nameless reading has a beta redex at some
position, and it reads as the contraction of the first one in pre-order. The same holds of the eta
step and eta redexes. -/
theorem step_refines_first_contraction {t : Term} {supply : Nat} (below : t.Below supply) :
    (betaStep? .leftmostOutermost t supply = none ↔
      ∀ position, t.nameless.contractAt? Nameless.betaRoot? position = none) ∧
    (∀ next, betaStep? .leftmostOutermost t supply = some next →
      t.nameless.contractFirst? Nameless.betaRoot? = some next.1.nameless) ∧
    (etaStep? t = none ↔
      ∀ position, t.nameless.contractAt? Nameless.etaRoot? position = none) ∧
    (∀ next, etaStep? t = some next →
      t.nameless.contractFirst? Nameless.etaRoot? = some next.nameless) := by
  have beta := betaOutermost?_readUnder below []
  have eta := etaStep?_readUnder t []
  refine ⟨?_, ?_, ?_, ?_⟩
  · rw [← Nameless.contractFirst?_eq_none_iff, nameless, ← beta, Option.map_eq_none_iff]
    rfl
  · intro next found
    have outermost : betaOutermost? t supply = some next := found
    rw [nameless, ← beta, outermost]
    rfl
  · rw [← Nameless.contractFirst?_eq_none_iff, nameless, ← eta, Option.map_eq_none_iff]
  · intro next found
    rw [nameless, ← eta, found]
    rfl

/-- The argument `y` has the identity of the binder that it passes. -/
theorem step_of_crossed_identity :
    let t : Term := .app (.abs ⟨"x", 0⟩ (.abs ⟨"y", 1⟩ (.app (.var ⟨"x", 0⟩) (.var ⟨"y", 1⟩))))
      (.var ⟨"y", 1⟩)
    t.Below 2 ∧
      t.nameless.contractFirst? Nameless.betaRoot? =
        some (.lam (.app (.free ⟨"y", 1⟩) (.bound 0))) ∧
      t.nameless.contractFirst? Nameless.etaRoot? =
        some (.app (.lam (.bound 0)) (.free ⟨"y", 1⟩)) := by
  intro t
  have below : t.Below 2 := by decide
  obtain ⟨-, beta, -, eta⟩ := step_refines_first_contraction below
  exact ⟨below, beta _ rfl, eta _ rfl⟩

end UntypedLambda.Term
