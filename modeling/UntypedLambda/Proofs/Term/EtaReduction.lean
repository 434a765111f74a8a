import UntypedLambda.Proofs.Term.Iterates

set_option autoImplicit false

/-! Eta reduction. Every eta contraction takes away one node of each kind and no free occurrence, so
that a run of eta steps ends after a number of steps that the sizes tell. It ends where no eta redex
is left. -/

namespace UntypedLambda

namespace Nameless

variable {α β : Type}

def size : Nameless α → Nat
  | .bound _ => 1
  | .free _ => 1
  | .lam body => body.size + 1
  | .app function argument => function.size + argument.size + 1

theorem size_map (f : α → β) (t : Nameless α) : (t.map f).size = t.size := by
  induction t with
  | bound index => rfl
  | free name => rfl
  | lam body ih => rw [map, size, ih, size]
  | app function argument ihFunction ihArgument =>
      rw [map, size, ihFunction, ihArgument, size]

theorem size_shift (cutoff amount : Nat) (t : Nameless α) :
    (t.shift cutoff amount).size = t.size := by
  induction t generalizing cutoff with
  | bound index =>
      rw [shift]
      split <;> rfl
  | free name => rfl
  | lam body ih => rw [shift, size, ih, size]
  | app function argument ihFunction ihArgument =>
      rw [shift, size, ihFunction, ihArgument, size]

end Nameless

namespace Term

open Iteration

theorem size_readUnder (t : Term) (scope : List Nat) : (t.readUnder scope).size = t.size := by
  induction t generalizing scope with
  | var v =>
      rcases readOccurrence_cases scope v with ⟨_, index, reads⟩ | ⟨_, reads⟩
      · rw [readUnder, reads]
        rfl
      · rw [readUnder, reads]
        rfl
  | abs binder body ih => rw [readUnder, Nameless.size, ih, size]
  | app function argument ihFunction ihArgument =>
      rw [readUnder, Nameless.size, ihFunction, ihArgument, size]

theorem size_namelessByName (t : Term) : t.namelessByName.size = t.size := by
  rw [namelessByName, Nameless.size_map, nameless, size_readUnder]

def nodes (kind : Kind) : Term → Nat
  | .var _ => if kind = .variable then 1 else 0
  | .abs _ body => body.nodes kind + if kind = .abstraction then 1 else 0
  | .app function argument =>
      function.nodes kind + argument.nodes kind + if kind = .application then 1 else 0

theorem size_eq_nodes (t : Term) :
    t.size = t.nodes .variable + t.nodes .abstraction + t.nodes .application := by
  induction t with
  | var v => rfl
  | abs binder body ih => simp [size, nodes, ih]; omega
  | app function argument ihFunction ihArgument =>
      simp [size, nodes, ihFunction, ihArgument]; omega

theorem size_pos (t : Term) : 0 < t.size := by
  cases t <;> exact Nat.succ_pos _

/-! ### Steps -/

theorem nodes_etaContract? {binder : Var} {body next : Term}
    (found : etaContract? binder body = some next) (kind : Kind) :
    next.nodes kind + 1 = (Term.abs binder body).nodes kind := by
  obtain ⟨v, _, rfl, _⟩ := etaContract?_eq_some found
  cases kind <;> simp [nodes]

/-- An eta step takes away one abstraction, one application and one variable. -/
theorem nodes_etaStep? {t next : Term} (found : etaStep? t = some next) (kind : Kind) :
    next.nodes kind + 1 = t.nodes kind := by
  induction t generalizing next with
  | var v => cases found
  | abs binder body ih =>
      rw [etaStep?] at found
      split at found
      · rename_i function atRoot
        rw [← Option.some.inj found]
        exact nodes_etaContract? atRoot kind
      · obtain ⟨inner, inBody, rfl⟩ := Option.map_eq_some_iff.mp found
        rw [nodes, nodes, ← ih inBody]
        omega
  | app function argument ihFunction ihArgument =>
      rw [etaStep?] at found
      split at found
      · rename_i inner inFunction
        rw [← Option.some.inj found, nodes, nodes, ← ihFunction inFunction]
        omega
      · obtain ⟨inner, inArgument, rfl⟩ := Option.map_eq_some_iff.mp found
        rw [nodes, nodes, ← ihArgument inArgument]
        omega

theorem size_etaStep? {t next : Term} (found : etaStep? t = some next) :
    next.size + 3 = t.size := by
  have dropped := nodes_etaStep? found
  rw [size_eq_nodes, size_eq_nodes, ← dropped .variable, ← dropped .abstraction,
    ← dropped .application]
  omega

/-- An eta step keeps the free occurrences. -/
theorem labels_etaStep? {t next : Term} (found : etaStep? t = some next) :
    next.nameless.labels = t.nameless.labels := by
  have first := etaStep?_readUnder t []
  rw [found, Option.map_some] at first
  exact Nameless.Eta.labels_eq (Nameless.contracts_of_contractFirst? first.symm)

theorem freeNames_eq_of_labels {t next : Term} (same : next.nameless.labels = t.nameless.labels) :
    next.freeNames = t.freeNames := by
  rw [freeNames_eq, freeNames_eq, namelessByName, namelessByName, Nameless.labels_map,
    Nameless.labels_map, same]

/-- Without an eta step there is no eta redex. -/
theorem no_eta_redex {t : Term} (stuck : etaStep? t = none) (position : Nameless.Position) :
    t.nameless.contractAt? Nameless.etaRoot? position = none := by
  have first := etaStep?_readUnder t []
  rw [stuck, Option.map_none] at first
  exact (Nameless.contractFirst?_eq_none_iff t.nameless).mp first.symm position

/-! ### Runs -/

variable {strategy : Strategy}

theorem advance?_eta_eq_some_iff {state next : Term × Nat} :
    advance? .eta strategy state = some next ↔
      etaStep? state.1 = some next.1 ∧ next.2 = state.2 := by
  rw [advance?, step?, Option.map_eq_some_iff]
  constructor
  · rintro ⟨inner, found, rfl⟩
    exact ⟨found, rfl⟩
  · rintro ⟨found, same⟩
    exact ⟨next.1, found, by rw [← same]⟩

theorem advance?_eta_eq_none_iff {state : Term × Nat} :
    advance? .eta strategy state = none ↔ etaStep? state.1 = none := by
  rw [advance?, step?, Option.map_eq_none_iff]

theorem exists_eta_halts (strategy : Strategy) (start : Term × Nat) :
    ∃ count final, Halts (advance? .eta strategy) start count final ∧
      final.1.size + 3 * count = start.1.size :=
  exists_halts (fun state => state.1.size) (by decide)
    (fun step => size_etaStep? (advance?_eta_eq_some_iff.mp step).1) start

/-- Eta reduction without a bound ends, and not because it was stopped. Its length is less than a
third of the size of the term, and the result is smaller by three for every step and has no eta
redex at any position. Each step takes away one node of each kind, and keeps the free occurrences
and thereby the free names. -/
theorem eta_reduction_ends (t : Term) (supply : Nat) (strategy : Strategy) :
    (∃ result, Ends .eta strategy t supply result ∧ result.exhausted = false ∧
      3 * result.steps < t.size ∧ result.term.size = t.size - 3 * result.steps ∧
      ∀ position, result.term.nameless.contractAt? Nameless.etaRoot? position = none) ∧
    (∀ u fresh next, step? .eta strategy u fresh = some next →
      (∀ kind, next.1.nodes kind + 1 = u.nodes kind) ∧
        next.1.nameless.labels = u.nameless.labels ∧ next.1.freeNames = u.freeNames) := by
  constructor
  · obtain ⟨count, final, halts, total⟩ := exists_eta_halts strategy (t, supply)
    change final.1.size + 3 * count = t.size at total
    have positive := size_pos final.1
    have stuck := advance?_eta_eq_none_iff.mp halts.stuck
    refine ⟨⟨final.1, count, false, final.2⟩, ends_of_halts halts, rfl, ?_, ?_, no_eta_redex stuck⟩
    · change 3 * count < t.size
      omega
    · change final.1.size = t.size - 3 * count
      omega
  · intro u fresh next found
    have step : advance? .eta strategy (u, fresh) = some next := found
    have etaStep := (advance?_eta_eq_some_iff.mp step).1
    have labels := labels_etaStep? etaStep
    exact ⟨nodes_etaStep? etaStep, labels, freeNames_eq_of_labels labels⟩

/-- The function of the redex is a redex itself, and both abstractions have the same identity. -/
theorem eta_reduction_of_nested_redexes :
    let inner : Term := .abs ⟨"b", 0⟩ (.app (.var ⟨"g", 1⟩) (.var ⟨"b", 0⟩))
    let t : Term := .abs ⟨"a", 0⟩ (.app inner (.var ⟨"a", 0⟩))
    step? .eta .leftmost t 2 = some (inner, 2) ∧
      (∀ kind, inner.nodes kind + 1 = t.nodes kind) ∧ inner.freeNames = t.freeNames ∧
      ∃ result, Ends .eta .leftmost t 2 result ∧ 3 * result.steps < 7 := by
  intro inner t
  obtain ⟨⟨result, ends, _, bounded, _⟩, steps⟩ := eta_reduction_ends t 2 .leftmost
  have step : step? .eta .leftmost t 2 = some (inner, 2) := by decide
  obtain ⟨dropped, _, names⟩ := steps t 2 (inner, 2) step
  exact ⟨step, dropped, names, result, ends, bounded⟩

end Term

end UntypedLambda
