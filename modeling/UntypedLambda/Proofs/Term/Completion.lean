import UntypedLambda.Proofs.Nameless.NormalOrder
import UntypedLambda.Proofs.Term.Conversion
import UntypedLambda.Proofs.Term.Phases

set_option autoImplicit false

/-! Where runs in normal order end. When the reading of a term has a normal form, a run that
contracts beta redexes ends, and it ends in that normal form up to eta contractions. Where there is
no beta redex from the start, the run makes none or only eta steps under either strategy. -/

namespace UntypedLambda.Term

open Iteration Relation

theorem exists_beta_end_of_reduces {t : Term} {supply : Nat} (below : t.Below supply)
    {target : Nameless String}
    (steps : Nameless.Reduces Nameless.betaRoot? t.namelessByName target)
    (normal : Nameless.Normal target) :
    ∃ result, Ends .beta .leftmostOutermost t supply result ∧
      result.term.namelessByName = target := by
  obtain ⟨count, reached⟩ :=
    reflTransGen_iff_after?.mp (Nameless.normalOrder_of_reduces steps normal)
  have halts : Halts Mode.beta.contractFirst? t.namelessByName count target := ⟨reached, normal⟩
  obtain ⟨final, reads, halts⟩ := (views_namelessByName .beta).exists_halts (t, supply) below halts
  exact ⟨_, ends_of_halts halts, reads⟩

/-- What eta steps lead to reads as an eta reduct. -/
theorem reduces_of_eta_end {strategy : Strategy} {t : Term} {supply : Nat} {result : Reduction}
    (ends : Ends .eta strategy t supply result) :
    Nameless.Reduces Nameless.etaRoot? t.namelessByName result.term.namelessByName := by
  have reached := ((views_eta strategy).halts trivial ends.halts).reached
  have steps := reflTransGen_iff_after?.mpr ⟨_, reached⟩
  exact ReflTransGen.mono (fun _ _ step => Nameless.contracts_of_contractFirst? step) _ _ steps

theorem Ends.clean {mode : Mode} {strategy : Strategy} {t : Term} {supply : Nat}
    {result : Reduction} (ends : Ends mode strategy t supply result) (clean : t.Clean supply) :
    result.term.Clean result.supply := by
  have kept {state next : Term × Nat} (clean : state.1.Clean state.2)
      (step : advance? mode strategy state = some next) : next.1.Clean next.2 :=
    (Contracts.of_step? step).clean clean
  exact after?_keeps kept clean ends.halts.reached

/-- A run that contracts beta redexes ends in the normal form of the reading, but for eta
contractions when it makes these as well. -/
theorem exists_end_of_reduces {mode : Mode} (contractsBeta : mode ≠ .eta) {t : Term} {supply : Nat}
    (below : t.Below supply) {target : Nameless String}
    (steps : Nameless.Reduces Nameless.betaRoot? t.namelessByName target)
    (normal : Nameless.Normal target) :
    ∃ result, Ends mode .leftmostOutermost t supply result ∧
      Nameless.Reduces Nameless.etaRoot? target result.term.namelessByName := by
  obtain ⟨beta, betaEnds, reads⟩ := exists_beta_end_of_reduces below steps normal
  cases mode with
  | beta => exact ⟨beta, betaEnds, by rw [reads]⟩
  | eta => exact absurd rfl contractsBeta
  | both =>
      obtain ⟨count, final, etaHalts, _⟩ := exists_eta_halts .leftmostOutermost (beta.term, supply)
      have etaEnds := ends_of_halts etaHalts
      obtain ⟨both, bothEnds, _, same⟩ := exists_both_end below below betaEnds etaEnds
      have reduces := reduces_of_eta_end etaEnds
      rw [reads, ← (alphaEqual_iff _ _).mp same] at reduces
      exact ⟨both, bothEnds, reduces⟩

/-! ### Runs of eta steps -/

theorem not_eta_of_ends {strategy : Strategy} {t : Term} {supply : Nat} {result : Reduction}
    (ends : Ends .eta strategy t supply result) (next : Nameless String) :
    ¬ Nameless.Eta result.term.namelessByName next := by
  refine Nameless.not_contracts_of_contractFirst? ?_
  rw [← etaStep?_namelessByName, advance?_eta_eq_none_iff.mp ends.halts.stuck, Option.map_none]

/-- A run of eta steps ends in the only eta normal form of the reading. -/
theorem namelessByName_of_eta_end {strategy : Strategy} {t : Term} {supply : Nat}
    {result : Reduction} (ends : Ends .eta strategy t supply result) {target : Nameless String}
    (steps : Nameless.Reduces Nameless.etaRoot? t.namelessByName target)
    (inert : ∀ next, ¬ Nameless.Eta target next) : result.term.namelessByName = target := by
  obtain ⟨common, fromResult, fromTarget⟩ :=
    Nameless.eta_confluent (reduces_of_eta_end ends) steps
  have atResult := (reflTransGen_iff_eq (not_eta_of_ends ends)).mp fromResult
  have atTarget := (reflTransGen_iff_eq inert).mp fromTarget
  exact atResult.symm.trans atTarget

/-- A run of eta steps ends in the eta normal form of the reading, whatever its supply, and the
sizes tell the number of its steps. -/
theorem exists_eta_end_of_reduces (strategy : Strategy) {t : Term} {target : Nameless String}
    (steps : Nameless.Reduces Nameless.etaRoot? t.namelessByName target)
    (inert : ∀ next, ¬ Nameless.Eta target next) :
    ∃ u count, (∀ supply, Ends .eta strategy t supply ⟨u, count, false, supply⟩) ∧
      u.namelessByName = target ∧ target.size + 3 * count = t.namelessByName.size := by
  obtain ⟨count, final, halts, total⟩ := exists_eta_halts strategy (t, 0)
  have reads : final.1.namelessByName = target :=
    namelessByName_of_eta_end (ends_of_halts halts) steps inert
  refine ⟨final.1, count, fun supply => ?_, reads, ?_⟩
  · have views : Views (fun _ => True) (fun state => (state.1, supply)) (advance? .eta strategy)
        (advance? .eta strategy) :=
      ⟨fun _ _ => trivial, fun _ => by simp only [advance?, step?, Option.map_map]; rfl⟩
    exact ends_of_halts (views.halts trivial halts)
  · rw [← reads, size_namelessByName, size_namelessByName]
    exact total

/-- Runs of eta steps from a term and from one of its eta reducts both end, and in the same term up
to bound variables. -/
theorem exists_eta_ends_of_reduces {t u : Term}
    (steps : Nameless.Reduces Nameless.etaRoot? t.namelessByName u.namelessByName)
    (strategy strategy' : Strategy) (supply supply' : Nat) :
    ∃ result result', Ends .eta strategy t supply result ∧
      Ends .eta strategy' u supply' result' ∧ result.term.alphaEqual result'.term = true := by
  obtain ⟨_, _, halts, _⟩ := exists_eta_halts strategy (t, supply)
  obtain ⟨_, _, halts', _⟩ := exists_eta_halts strategy' (u, supply')
  have ends := ends_of_halts halts
  have ends' := ends_of_halts halts'
  refine ⟨_, _, ends, ends', (alphaEqual_iff _ _).mpr ?_⟩
  exact namelessByName_of_eta_end ends (steps.trans (reduces_of_eta_end ends'))
    (not_eta_of_ends ends')

/-! ### Terms without beta redexes -/

section Normal

variable {t : Term} (normal : Nameless.Normal t.namelessByName)

include normal

theorem not_contractsTo_of_normal (next : Term) : ¬ ContractsTo .beta t next := by
  intro step
  have inReading := step.namelessByName
  rw [Mode.Contraction.eq_beta] at inReading
  exact (Nameless.normal_iff _).mp normal _ inReading

theorem betaStep?_eq_none_of_normal (strategy : Strategy) (supply : Nat) :
    betaStep? strategy t supply = none := by
  obtain ⟨enough, below⟩ := t.exists_below
  rw [betaStep?_eq_none_iff strategy t supply enough, Option.eq_none_iff_forall_ne_some]
  intro next found
  have step : Contracts .beta enough t next := Contracts.of_step? found
  exact not_contractsTo_of_normal normal next.1 ⟨enough, next.2, below, step⟩

theorem ends_beta_of_normal (strategy : Strategy) (supply : Nat) :
    Ends .beta strategy t supply ⟨t, 0, false, supply⟩ := by
  have stuck : advance? .beta strategy (t, supply) = none :=
    betaStep?_eq_none_of_normal normal strategy supply
  exact ends_of_halts (.nothing stuck)

/-- A run of eta steps is a run in both modes, because no eta step brings a beta redex. -/
theorem ends_both_of_normal {strategy : Strategy} {supply : Nat} {result : Reduction}
    (ends : Ends .eta strategy t supply result) : Ends .both strategy t supply result := by
  have same {state : Term × Nat} (normal : Nameless.Normal state.1.namelessByName) :
      advance? .both strategy state = advance? .eta strategy state := by
    simp only [advance?, step?, betaStep?_eq_none_of_normal normal strategy,
      Option.orElse_eq_orElse, Option.orElse_eq_or, Option.none_or]
  have kept {state next : Term × Nat} (normal : Nameless.Normal state.1.namelessByName)
      (step : advance? .both strategy state = some next) :
      Nameless.Normal next.1.namelessByName := by
    have first := step?_eta_namelessByName strategy state.1 state.2
    rw [same normal] at step
    rw [show step? .eta strategy state.1 state.2 = some next from step] at first
    exact Nameless.Normal.eta normal (Nameless.contracts_of_contractFirst? first.symm)
  have views : Views (fun state => Nameless.Normal state.1.namelessByName) id
      (advance? .both strategy) (advance? .eta strategy) :=
    ⟨kept, fun normal => by rw [same normal, Option.map_id_apply, id]⟩
  obtain ⟨notExhausted, halts⟩ := ends_iff.mp ends
  obtain ⟨_, rfl, halts'⟩ := views.exists_halts (t, supply) normal halts
  exact ends_iff.mpr ⟨notExhausted, halts'⟩

end Normal

end UntypedLambda.Term
