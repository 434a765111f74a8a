import UntypedLambda.Proofs.Term.Clean
import UntypedLambda.Proofs.Term.Outermost
import UntypedLambda.Proofs.Term.Run

set_option autoImplicit false

/-! Runs as iterated steps. A run with a limit stops in one of the iterates, and the observer sees
the iterates before it. A run without a bound is what all sufficient limits agree on. In normal
order the iterates read as those of the first contraction of nameless terms, so that they do not
depend on the choice of bound variables. -/

namespace UntypedLambda.Term

open Iteration

variable {σ : Type} {mode : Mode} {strategy : Strategy}

/-! ### Runs with a limit -/

theorem reduce_of_after? {limit count : Nat} {t : Term} {supply : Nat} {final : Term × Nat}
    (le : count ≤ limit) (reached : after? (advance? mode strategy) count (t, supply) = some final)
    (stop : count = limit ∨ advance? mode strategy final = none) :
    reduce mode strategy limit t supply =
      ⟨final.1, count, !final.1.isNormal mode strategy, final.2⟩ := by
  rw [reduce, reduceWith, runFrom_of_after? _ le reached stop, Nat.zero_add]

/-- The observer sees every iterate with its number. -/
theorem runFrom_observed (mode : Mode) (strategy : Strategy) (observe : σ → Nat → Term → σ)
    (limit steps : Nat) (start : Term × Nat) (seen : σ) :
    (runFrom mode strategy observe limit steps start.1 start.2 seen).2 =
      ((trail (advance? mode strategy) limit start).zipIdx (steps + 1)).foldl
        (fun seen entry => observe seen entry.2 entry.1.1) seen := by
  induction limit generalizing start steps seen with
  | zero => rfl
  | succ limit ih =>
      rw [runFrom, trail]
      cases step : step? mode strategy start.1 start.2 with
      | none =>
          have stuck : advance? mode strategy start = none := step
          rw [stuck]
          rfl
      | some next =>
          have advance : advance? mode strategy start = some next := step
          rw [advance]
          exact ih (steps + 1) next (observe seen (steps + 1) next.1)

private theorem foldl_zipIdx_cons (states : List (Term × Nat)) (number : Nat) (seen : List Term) :
    (states.zipIdx number).foldl (fun seen entry => entry.1.1 :: seen) seen =
      (states.map Prod.fst).reverse ++ seen := by
  induction states generalizing number seen with
  | nil => rfl
  | cons state states ih => simp [List.zipIdx_cons, ih]

theorem watched_eq (mode : Mode) (strategy : Strategy) (limit : Nat) (t : Term) (supply : Nat) :
    (watched mode strategy limit t supply).2.reverse =
      ((t, supply) :: trail (advance? mode strategy) limit (t, supply)).map Prod.fst := by
  have seen := runFrom_observed mode strategy (fun seen _ u => u :: seen) limit 0 (t, supply) [t]
  rw [watched, reduceWith, seen, foldl_zipIdx_cons, List.reverse_append, List.reverse_reverse]
  rfl

/-- The terms that a run passes are the iterates up to its limit. -/
theorem getElem?_watched_eq_some_iff {limit index : Nat} {t u : Term} {supply : Nat} :
    (watched mode strategy limit t supply).2.reverse[index]? = some u ↔
      index ≤ limit ∧
        ∃ state, after? (advance? mode strategy) index (t, supply) = some state ∧ state.1 = u := by
  rw [watched_eq, List.getElem?_map, getElem?_trail, Option.map_eq_some_iff]
  simp only [Option.ite_none_right_eq_some, and_assoc, exists_and_left]

/-! ### Runs without a bound -/

/-- A reduction without a bound comes to an end with `result`: from some limit on, every limit leads
to it. -/
def Ends (mode : Mode) (strategy : Strategy) (t : Term) (supply : Nat) (result : Reduction) :
    Prop :=
  ∃ bound, ∀ limit, bound ≤ limit → reduce mode strategy limit t supply = result

theorem Ends.exists_limit {t : Term} {supply : Nat} {result : Reduction}
    (ends : Ends mode strategy t supply result) :
    ∃ limit, reduce mode strategy limit t supply = result := by
  obtain ⟨bound, same⟩ := ends
  exact ⟨bound, same bound (Nat.le_refl bound)⟩

theorem Ends.unique {t : Term} {supply : Nat} {first second : Reduction}
    (ends : Ends mode strategy t supply first) (ends' : Ends mode strategy t supply second) :
    first = second := by
  obtain ⟨bound, same⟩ := ends
  obtain ⟨bound', same'⟩ := ends'
  exact (same _ (Nat.le_max_left bound bound')).symm.trans (same' _ (Nat.le_max_right bound bound'))

/-- A reduction without a bound ends exactly where its steps come to an end. -/
theorem ends_iff {t : Term} {supply : Nat} {result : Reduction} :
    Ends mode strategy t supply result ↔
      result.exhausted = false ∧ Halts (advance? mode strategy) (t, supply) result.steps
        (result.term, result.supply) := by
  constructor
  · rintro ⟨bound, same⟩
    obtain ⟨short, _, le, reached, stop⟩ := exists_stop (advance? mode strategy) bound (t, supply)
    have atBound := same bound (Nat.le_refl bound)
    rw [reduce_of_after? le reached stop] at atBound
    obtain ⟨count, final, le', reached', stop'⟩ :=
      exists_stop (advance? mode strategy) (bound + 1) (t, supply)
    have beyond := same (bound + 1) (Nat.le_succ bound)
    rw [reduce_of_after? le' reached' stop'] at beyond
    -- The larger limit makes no more steps, so it was not the limit that stopped the run.
    have agree : count = short := congrArg Reduction.steps (beyond.trans atBound.symm)
    have stuck := stop'.resolve_left (by omega)
    rw [← beyond]
    exact ⟨by rw [isNormal_of_stuck stuck, Bool.not_true], reached', stuck⟩
  · rintro ⟨notExhausted, halts⟩
    refine ⟨result.steps, fun limit le => ?_⟩
    rw [reduce_of_after? le halts.reached (Or.inr halts.stuck), isNormal_of_stuck halts.stuck,
      Bool.not_true, ← notExhausted]

theorem Ends.halts {t : Term} {supply : Nat} {result : Reduction}
    (ends : Ends mode strategy t supply result) :
    Halts (advance? mode strategy) (t, supply) result.steps (result.term, result.supply) :=
  (ends_iff.mp ends).2

theorem ends_of_halts {t : Term} {supply count : Nat} {final : Term × Nat}
    (halts : Halts (advance? mode strategy) (t, supply) count final) :
    Ends mode strategy t supply ⟨final.1, count, false, final.2⟩ :=
  ends_iff.mpr ⟨rfl, halts⟩

/-! ### Runs in normal order -/

def Mode.contractFirst? {α : Type} : Mode → Nameless α → Option (Nameless α)
  | .beta => Nameless.contractFirst? Nameless.betaRoot?
  | .eta => Nameless.contractFirst? Nameless.etaRoot?
  | .both => prefer (Nameless.contractFirst? Nameless.betaRoot?)
      (Nameless.contractFirst? Nameless.etaRoot?)

theorem step?_eta_namelessByName (strategy : Strategy) (t : Term) (supply : Nat) :
    (step? .eta strategy t supply).map (fun next => next.1.namelessByName) =
      Mode.eta.contractFirst? t.namelessByName := by
  rw [step?, Option.map_map]
  exact etaStep?_namelessByName t

/-- In normal order a step reads as the first contraction. -/
theorem step?_namelessByName {t : Term} {supply : Nat} (below : t.Below supply) :
    (step? mode .leftmostOutermost t supply).map (fun next => next.1.namelessByName) =
      mode.contractFirst? t.namelessByName := by
  cases mode with
  | beta => exact betaOutermost?_namelessByName below
  | eta => exact step?_eta_namelessByName .leftmostOutermost t supply
  | both =>
      simp only [step?, Option.orElse_eq_orElse, Option.orElse_eq_or, Option.map_or]
      exact congrArg₂ Option.or (betaOutermost?_namelessByName below)
        (step?_eta_namelessByName .leftmostOutermost t supply)

theorem advance?_below {state next : Term × Nat} (below : state.1.Below state.2)
    (step : advance? mode strategy state = some next) : next.1.Below next.2 :=
  (Contracts.of_step? step).result_below below

/-- Runs in normal order read as iterated first contractions. -/
theorem views_namelessByName (mode : Mode) :
    Views (fun state => state.1.Below state.2) (fun state => state.1.namelessByName)
      (advance? mode .leftmostOutermost) mode.contractFirst? where
  kept := advance?_below
  same := step?_namelessByName

/-- Eta steps need no identities, so that runs of them read so under any supply. -/
theorem views_eta (strategy : Strategy) :
    Views (fun _ => True) (fun state => state.1.namelessByName) (advance? .eta strategy)
      Mode.eta.contractFirst? where
  kept := fun _ _ => trivial
  same := fun _ => step?_eta_namelessByName strategy _ _

/-- Runs in normal order of terms with the same reading make the same number of steps to terms with
the same reading, whatever their supplies. -/
theorem exists_after?_of_reading {t u : Term} {supply other count : Nat} {final : Term × Nat}
    (below : t.Below supply) (otherBelow : u.Below other)
    (same : t.namelessByName = u.namelessByName)
    (reached : after? (advance? mode .leftmostOutermost) count (t, supply) = some final) :
    ∃ final', after? (advance? mode .leftmostOutermost) count (u, other) = some final' ∧
      final'.1.namelessByName = final.1.namelessByName := by
  have reads := (views_namelessByName mode).after? count (t, supply) below
  have reads' := (views_namelessByName mode).after? count (u, other) otherBelow
  rw [reached, Option.map_some, same, ← reads', eq_comm] at reads
  exact Option.map_eq_some_iff.mp reads

end UntypedLambda.Term
