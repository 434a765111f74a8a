import Mathlib.Order.Bounds.Basic
import UntypedLambda.Proofs.Term.Iterates
import UntypedLambda.Proofs.Term.Stepwise

set_option autoImplicit false

/-! Runs with a limit as parts of longer runs. A run with a limit stops in the iterate that its
limit, or the lack of a further step, calls for, and the observer sees the iterates up to there.
Where it stops it can be taken up again, with any supply of identities, and goes on as if it had not
been stopped. -/

namespace UntypedLambda

namespace Iteration

variable {σ : Type} {next? : σ → Option σ}

/-- How far a run with a limit gets: to the limit or to the first index without a further step,
whichever is smaller. -/
def IsStop (next? : σ → Option σ) (limit : Nat) (start : σ) (count : Nat) : Prop :=
  IsLeast {index | index = limit ∨ after? next? (index + 1) start = none} count

theorem after?_add_one {count : Nat} {start final : σ}
    (reached : after? next? count start = some final) :
    after? next? (count + 1) start = next? final := by
  rw [after?_add, reached, Option.bind_some]
  cases step : next? final <;> simp [after?, step]

/-- There is a state before every state that is reached. -/
theorem after?_ne_none_of_le {count earlier : Nat} {start final : σ}
    (reached : after? next? count start = some final) (le : earlier ≤ count) :
    after? next? earlier start ≠ none := by
  obtain ⟨later, rfl⟩ := Nat.exists_eq_add_of_le le
  intro missing
  rw [after?_add, missing, Option.bind_none] at reached
  cases reached

theorem isStop_of_after? {limit count : Nat} {start final : σ} (le : count ≤ limit)
    (reached : after? next? count start = some final)
    (stop : count = limit ∨ next? final = none) : IsStop next? limit start count := by
  constructor
  · exact stop.imp_right (after?_add_one reached).trans
  · rintro index (rfl | missing)
    · exact le
    · by_contra less
      exact after?_ne_none_of_le reached (Nat.lt_of_not_le less) missing

structure Passes (next? : σ → Option σ) (start : σ) (count : Nat) (states : List σ) :
    Prop where
  length : states.length = count + 1
  iterates : ∀ index ≤ count, states[index]? = after? next? index start

theorem passes_trail {limit count : Nat} {start final : σ} (le : count ≤ limit)
    (reached : after? next? count start = some final)
    (stop : count = limit ∨ next? final = none) :
    Passes next? start count (start :: trail next? limit start) where
  length := by
    have atCount : (start :: trail next? limit start)[count]? = some final := by
      rw [getElem?_trail, if_pos le, reached]
    have beyond : (start :: trail next? limit start)[count + 1]? = none := by
      rw [getElem?_trail, ite_eq_right_iff]
      intro inside
      rw [after?_add_one reached]
      exact stop.resolve_left (by omega)
    have least := (List.getElem?_eq_some_iff.mp atCount).1
    have most := List.getElem?_eq_none_iff.mp beyond
    omega
  iterates := fun index inside => by
    rw [getElem?_trail, if_pos (Nat.le_trans inside le)]

end Iteration

namespace Term

open Iteration

variable {mode : Mode} {strategy : Strategy}

/-! ### Where a run stops -/

theorem reduceWith_of_after? {σ : Type} (observe : σ → Nat → Term → σ) (seen : σ)
    {limit count : Nat} {t : Term} {supply : Nat} {final : Term × Nat} (le : count ≤ limit)
    (reached : after? (advance? mode strategy) count (t, supply) = some final)
    (stop : count = limit ∨ advance? mode strategy final = none) :
    reduceWith mode strategy limit t supply observe seen =
      (⟨final.1, count, !final.1.isNormal mode strategy, final.2⟩,
        ((t, supply) :: trail (advance? mode strategy) limit (t, supply)).zipIdx.foldl
          (fun seen entry => observe seen entry.2 entry.1.1) seen) := by
  refine Prod.ext ?_ ?_
  · rw [reduceWith, runFrom_of_after? observe le reached stop, Nat.zero_add]
  · rw [reduceWith, runFrom_observed mode strategy observe limit 0 (t, supply), List.zipIdx_cons,
      List.foldl_cons]

theorem exhausted_iff (final : Term × Nat) :
    (!final.1.isNormal mode strategy) = true ↔
      ∃ next, step? mode strategy final.1 final.2 = some next := by
  rw [isNormal_eq mode strategy final.1 final.2, Option.not_isNone, Option.isSome_iff_exists]

/-! ### Other supplies -/

/-- Runs that end after the same number of steps in the same term, up to bound variables, and both
because of their limit or neither. -/
structure Reduction.Agrees (reduction reduction' : Reduction) : Prop where
  term : reduction.term.alphaEqual reduction'.term = true
  steps : reduction.steps = reduction'.steps
  exhausted : reduction.exhausted = reduction'.exhausted

namespace Reduction.Agrees

variable {first second third : Reduction}

theorem symm (agrees : first.Agrees second) : second.Agrees first where
  term := by
    have same := agrees.term
    rw [alphaEqual_iff] at same ⊢
    exact same.symm
  steps := agrees.steps.symm
  exhausted := agrees.exhausted.symm

theorem trans (agrees : first.Agrees second) (agrees' : second.Agrees third) :
    first.Agrees third where
  term := by
    have same := agrees.term
    have same' := agrees'.term
    rw [alphaEqual_iff] at same same' ⊢
    exact same.trans same'
  steps := agrees.steps.trans agrees'.steps
  exhausted := agrees.exhausted.trans agrees'.exhausted

end Reduction.Agrees

/-- Identities that a larger supply skips make no difference to a run. -/
private theorem reduce_agrees_of_le (mode : Mode) (strategy : Strategy) (limit : Nat) {t : Term}
    {supply other : Nat} (below : t.Below supply) (le : supply ≤ other) :
    (reduce mode strategy limit t supply).Agrees (reduce mode strategy limit t other) := by
  have reissues := Reissues.skip le
  have run := (reissues.matches_of_below below).reduce reissues.biUnique mode strategy limit
    reissues.next
  exact ⟨(alphaEqual_iff _ _).mpr (run.term.namelessByName reissues.biUnique), run.steps,
    run.exhausted⟩

theorem reduce_agrees (mode : Mode) (strategy : Strategy) (limit : Nat) {t : Term}
    {supply other : Nat} (below : t.Below supply) (otherBelow : t.Below other) :
    (reduce mode strategy limit t supply).Agrees (reduce mode strategy limit t other) := by
  rcases Nat.le_total supply other with le | le
  · exact reduce_agrees_of_le mode strategy limit below le
  · exact (reduce_agrees_of_le mode strategy limit otherBelow le).symm

/-! ### Resumption -/

/-- A run that is taken up where it stopped, with the supply that it left, is one run. -/
theorem reduce_add (mode : Mode) (strategy : Strategy) (first second : Nat) (t : Term)
    (supply : Nat) :
    let before := reduce mode strategy first t supply
    let after := reduce mode strategy second before.term before.supply
    reduce mode strategy (first + second) t supply =
      { after with steps := before.steps + after.steps } := by
  obtain ⟨count, middle, le, reached, stop⟩ :=
    exists_stop (advance? mode strategy) first (t, supply)
  obtain ⟨count', final, le', reached', stop'⟩ :=
    exists_stop (advance? mode strategy) second middle
  have whole : after? (advance? mode strategy) (count + count') (t, supply) = some final := by
    rw [after?_add, reached, Option.bind_some, reached']
  have wholeStop : count + count' = first + second ∨ advance? mode strategy final = none := by
    rcases stop with rfl | stuck
    · exact stop'.imp_left (congrArg (count + ·))
    · cases count' with
      | zero =>
          cases reached'
          exact Or.inr stuck
      | succ count' =>
          rw [after?_succ_of_none stuck] at reached'
          cases reached'
  rw [reduce_of_after? le reached stop]
  dsimp only
  rw [reduce_of_after? le' reached' stop',
    reduce_of_after? (Nat.add_le_add le le') whole wholeStop]

theorem reduce_below (limit : Nat) {t : Term} {supply : Nat} (below : t.Below supply) :
    (reduce mode strategy limit t supply).term.Below
      (reduce mode strategy limit t supply).supply := by
  obtain ⟨count, final, le, reached, stop⟩ :=
    exists_stop (advance? mode strategy) limit (t, supply)
  rw [reduce_of_after? le reached stop]
  exact after?_keeps advance?_below below reached

/-- A run that its limit did not stop is the same under every larger limit. -/
theorem reduce_of_not_exhausted {limit : Nat} {t : Term} {supply : Nat}
    (finished : (reduce mode strategy limit t supply).exhausted = false) {larger : Nat}
    (le : limit ≤ larger) :
    reduce mode strategy larger t supply = reduce mode strategy limit t supply := by
  obtain ⟨count, final, within, reached, stop⟩ :=
    exists_stop (advance? mode strategy) limit (t, supply)
  rw [reduce_of_after? within reached stop] at finished ⊢
  have stuck : advance? mode strategy final = none := by
    rw [← Option.isNone_iff_eq_none, advance?, ← isNormal_eq]
    exact (Bool.not_eq_false' ..).mp finished
  exact reduce_of_after? (Nat.le_trans within le) reached (Or.inr stuck)

/-- A run with a limit is a part of the run without one. It makes as many steps as the limit, or the
first index without a further step, allows. It ends in the iterate of that number, and is exhausted
exactly when there is one more step. The observer is shown the iterates up to there, each once, in
order and with its number. A run that is taken up where another stopped is one run with the sum of
the limits, and with other supplies of identities it differs from that in bound variables only. A
run that is not exhausted is the same under every larger limit and without any. -/
theorem bounded_run_is_resumable_part (mode : Mode) (strategy : Strategy) (t : Term)
    (supply : Nat) :
    (∀ limit, ∃ count states final exhausted,
      IsStop (advance? mode strategy) limit (t, supply) count ∧
      Passes (advance? mode strategy) (t, supply) count states ∧
      states.getLast? = some final ∧
      (exhausted = true ↔ ∃ next, step? mode strategy final.1 final.2 = some next) ∧
      ∀ (σ : Type) (observe : σ → Nat → Term → σ) (seen : σ),
        reduceWith mode strategy limit t supply observe seen =
          (⟨final.1, count, exhausted, final.2⟩,
            states.zipIdx.foldl (fun seen entry => observe seen entry.2 entry.1.1) seen)) ∧
    (∀ first second,
      let before := reduce mode strategy first t supply
      let resumed (again : Nat) : Reduction :=
        let after := reduce mode strategy second before.term again
        { after with steps := before.steps + after.steps }
      resumed before.supply = reduce mode strategy (first + second) t supply ∧
        ∀ again other, t.Below supply → before.term.Below again → t.Below other →
          (resumed again).Agrees (reduce mode strategy (first + second) t other)) ∧
    (∀ limit, (reduce mode strategy limit t supply).exhausted = false →
      (∀ larger, limit ≤ larger →
        reduce mode strategy larger t supply = reduce mode strategy limit t supply) ∧
      Ends mode strategy t supply (reduce mode strategy limit t supply)) := by
  refine ⟨?_, ?_, ?_⟩
  · intro limit
    obtain ⟨count, final, le, reached, stop⟩ :=
      exists_stop (advance? mode strategy) limit (t, supply)
    have passes := passes_trail le reached stop
    refine ⟨count, _, final, _, isStop_of_after? le reached stop, passes, ?_, exhausted_iff final,
      fun σ observe seen => reduceWith_of_after? observe seen le reached stop⟩
    rw [List.getLast?_eq_getElem?, passes.length, Nat.add_sub_cancel,
      passes.iterates count (Nat.le_refl count), reached]
  · intro first second before resumed
    have joined : resumed before.supply = _ := (reduce_add mode strategy first second t supply).symm
    refine ⟨joined, fun again other below beforeBelow otherBelow => ?_⟩
    have after := reduce_agrees mode strategy second beforeBelow (reduce_below first below)
    have whole := reduce_agrees mode strategy (first + second) below otherBelow
    have resumedAgrees : (resumed again).Agrees (resumed before.supply) :=
      ⟨after.term, congrArg (before.steps + ·) after.steps, after.exhausted⟩
    rw [← joined] at whole
    exact resumedAgrees.trans whole
  · intro limit finished
    exact ⟨fun larger le => reduce_of_not_exhausted finished le,
      limit, fun larger le => reduce_of_not_exhausted finished le⟩

/-- The run of `(λx.x x) ((λy.y) z)` is stopped after one step and taken up with other identities.
It ends in `z z` after two more. -/
theorem resumed_run_with_other_identities :
    let inner : Term := .app (.abs ⟨"y", 1⟩ (.var ⟨"y", 1⟩)) (.var ⟨"z", 2⟩)
    let twice : Term := .abs ⟨"x", 0⟩ (.app (.var ⟨"x", 0⟩) (.var ⟨"x", 0⟩))
    let t : Term := .app twice inner
    let before := reduce .beta .leftmostOutermost 1 t 3
    let after := reduce .beta .leftmostOutermost 2 before.term 9
    t.Below 3 ∧ before.term.Below 9 ∧ t.Below 7 ∧ before.exhausted = true ∧
      Reduction.Agrees { after with steps := before.steps + after.steps }
        (reduce .beta .leftmostOutermost 3 t 7) ∧
      (reduce .beta .leftmostOutermost 3 t 3).exhausted = false ∧
      Ends .beta .leftmostOutermost t 3 (reduce .beta .leftmostOutermost 3 t 3) := by
  intro inner twice t before after
  have below : t.Below 3 := by decide
  have otherBelow : t.Below 7 := by decide
  have beforeBelow : before.term.Below 9 := by decide
  have finished : (reduce .beta .leftmostOutermost 3 t 3).exhausted = false := by decide
  obtain ⟨_, resumption, ending⟩ := bounded_run_is_resumable_part .beta .leftmostOutermost t 3
  exact ⟨below, beforeBelow, otherBelow, by decide,
    (resumption 1 2).2 9 7 below beforeBelow otherBelow, finished, (ending 3 finished).2⟩

end Term

end UntypedLambda
