import UntypedLambda.Proofs.Term.Iterates

set_option autoImplicit false

/-! The strategy that follows the head. It contracts the redex that normal order contracts, or none
at all, so that its runs are runs in normal order that stop early. It does not stop before the term
is a head normal form. -/

namespace UntypedLambda.Term

open Iteration

theorem betaOutermost?_function {function argument : Term} {supply : Nat} {next : Term × Nat}
    (noRedex : contract? function argument supply = none)
    (inFunction : betaOutermost? function supply = some next) :
    betaOutermost? (.app function argument) supply = some (.app next.1 argument, next.2) := by
  rw [betaOutermost?, noRedex, inFunction]

theorem betaOutermost?_argument {function argument : Term} {supply : Nat} {next : Term × Nat}
    (noRedex : contract? function argument supply = none)
    (notInFunction : betaOutermost? function supply = none)
    (inArgument : betaOutermost? argument supply = some next) :
    betaOutermost? (.app function argument) supply = some (.app function next.1, next.2) := by
  rw [betaOutermost?, noRedex, notInFunction, inArgument, Option.map_some]

/-- A redex that is found along the head is the first one in normal order. -/
theorem betaOutermost?_of_betaHead? {t : Term} {supply : Nat} {next : Term × Nat}
    (found : betaHead? t supply = some next) : betaOutermost? t supply = some next := by
  induction t generalizing next with
  | var v => cases found
  | abs binder body ih =>
      obtain ⟨inner, inBody, rfl⟩ := Option.map_eq_some_iff.mp found
      rw [betaOutermost?, ih inBody, Option.map_some]
  | app function argument ihFunction ihArgument =>
      cases function with
      | abs binder body =>
          have atRoot : contract? (.abs binder body) argument supply = some next := found
          rw [betaOutermost?, atRoot]
      | app first second =>
          obtain ⟨inner, inFunction, rfl⟩ := Option.map_eq_some_iff.mp found
          exact betaOutermost?_function rfl (ihFunction inFunction)
      | var v =>
          cases argument with
          | var w => cases found
          | abs binder body => cases found
          | app first second =>
              obtain ⟨inner, inArgument, rfl⟩ := Option.map_eq_some_iff.mp found
              exact betaOutermost?_argument rfl rfl (ihArgument inArgument)

theorem advance?_of_head {state next : Term × Nat}
    (step : advance? .beta .leftmost state = some next) :
    advance? .beta .leftmostOutermost state = some next :=
  betaOutermost?_of_betaHead? step

/-- The head of an application that is no redex is a variable. -/
theorem exists_applications_of_betaHead? {function argument : Term} {supply : Nat}
    (stuck : betaHead? (.app function argument) supply = none) :
    ∃ head arguments, Term.app function argument = applications (.var head) arguments := by
  induction function generalizing argument with
  | var v => exact ⟨v, [argument], rfl⟩
  | abs binder body => cases stuck
  | app first second ih =>
      have inFunction : betaHead? (.app first second) supply = none :=
        Option.map_eq_none_iff.mp stuck
      obtain ⟨head, arguments, spine⟩ := ih inFunction
      exact ⟨head, arguments ++ [argument], by rw [spine, applications_concat]⟩

/-- Where no redex is found along the head, there is a variable at the head. -/
theorem exists_head_of_betaHead? {t : Term} {supply : Nat} (stuck : betaHead? t supply = none) :
    ∃ binders head arguments, t = abstractions binders (applications (.var head) arguments) := by
  induction t with
  | var v => exact ⟨[], v, [], rfl⟩
  | abs binder body ih =>
      obtain ⟨binders, head, arguments, shape⟩ := ih (Option.map_eq_none_iff.mp stuck)
      exact ⟨binder :: binders, head, arguments, by rw [shape]; rfl⟩
  | app function argument =>
      obtain ⟨head, arguments, spine⟩ := exists_applications_of_betaHead? stuck
      exact ⟨[], head, arguments, spine⟩

/-- The strategy that follows the head is normal order stopped early, whatever supplies of
identities the two take. Where it makes a step, normal order makes the same up to bound variables.
A run of it, with a limit or without, is matched by as many steps in normal order. Where it makes
no step, the term is an abstraction of variables over a variable at the head with its arguments. -/
theorem head_order_is_normal_order_stopped_early {t : Term} {supply other : Nat}
    (below : t.Below supply) (otherBelow : t.Below other) :
    (∀ next, betaStep? .leftmost t supply = some next →
      ∃ next', betaStep? .leftmostOutermost t other = some next' ∧
        next'.1.alphaEqual next.1 = true) ∧
    (∀ early, (∃ limit, reduce .beta .leftmost limit t supply = early) ∨
        Ends .beta .leftmost t supply early →
      let run := reduce .beta .leftmostOutermost early.steps t other
      run.steps = early.steps ∧ run.term.alphaEqual early.term = true) ∧
    (betaStep? .leftmost t supply = none →
      ∃ binders head arguments, t = abstractions binders (applications (.var head) arguments)) := by
  -- A run of either strategy, one step or many, is one in normal order with the other supply.
  have follows {count : Nat} {final : Term × Nat}
      (reached : after? (advance? .beta .leftmost) count (t, supply) = some final) :
      ∃ final', after? (advance? .beta .leftmostOutermost) count (t, other) = some final' ∧
        final'.1.alphaEqual final.1 = true := by
    obtain ⟨final', reached', reads⟩ := exists_after?_of_reading below otherBelow rfl
      (after?_of_imp advance?_of_head reached)
    exact ⟨final', reached', (alphaEqual_iff _ _).mpr reads⟩
  refine ⟨fun next step => ?_, fun early source => ?_, exists_head_of_betaHead?⟩
  · have reached : after? (advance? .beta .leftmost) 1 (t, supply) = some next :=
      after?_succ step 0
    obtain ⟨next', reached', same⟩ := follows reached
    obtain ⟨_, step', last⟩ := Option.bind_eq_some_iff.mp reached'
    cases last
    exact ⟨next', step', same⟩
  · obtain ⟨limit, rfl⟩ : ∃ limit, reduce .beta .leftmost limit t supply = early :=
      source.elim id Ends.exists_limit
    obtain ⟨count, final, le, reached, stop⟩ :=
      exists_stop (advance? .beta .leftmost) limit (t, supply)
    obtain ⟨final', reached', same⟩ := follows reached
    rw [reduce_of_after? le reached stop]
    intro run
    have ends : run = _ := reduce_of_after? (Nat.le_refl count) reached' (Or.inl rfl)
    rw [ends]
    exact ⟨rfl, same⟩

/-- The redex in the first argument of `f` is contracted. The one below the abstraction is left,
which normal order would contract next. -/
theorem head_order_leaves_redex_in_argument :
    let f : Var := ⟨"f", 0⟩
    let redex (v : Var) : Term := .app (.abs ⟨"y", 1⟩ (.var ⟨"y", 1⟩)) (.var v)
    let t : Term :=
      .abs f (.app (.app (.var f) (redex f)) (.abs ⟨"z", 1⟩ (redex ⟨"z", 1⟩)))
    let early := reduce .beta .leftmost 5 t 2
    t.Below 2 ∧ t.Below 7 ∧ early.steps = 1 ∧ early.exhausted = false ∧
      (∃ next, betaStep? .leftmost t 2 = some next ∧
        ∃ next', betaStep? .leftmostOutermost t 7 = some next' ∧
          next'.1.alphaEqual next.1 = true) ∧
      (reduce .beta .leftmostOutermost early.steps t 7).term.alphaEqual early.term = true ∧
      (∃ binders head arguments,
        early.term = abstractions binders (applications (.var head) arguments)) ∧
      (betaStep? .leftmostOutermost early.term early.supply).isSome = true := by
  intro f redex t early
  have below : t.Below 2 := by decide
  have above : t.Below 7 := by decide
  obtain ⟨step, run, _⟩ := head_order_is_normal_order_stopped_early below above
  have earlyBelow : early.term.Below early.supply := by decide
  obtain ⟨_, _, head⟩ := head_order_is_normal_order_stopped_early earlyBelow earlyBelow
  exact ⟨below, above, by decide, by decide, ⟨_, rfl, step _ rfl⟩,
    (run early (Or.inl ⟨5, rfl⟩)).2, head (by decide), by decide⟩

end UntypedLambda.Term
