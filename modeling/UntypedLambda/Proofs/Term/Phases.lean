import UntypedLambda.Proofs.Nameless.EtaNormal
import UntypedLambda.Proofs.Term.EtaReduction

set_option autoImplicit false

/-! Both modes in one run. In normal order a run that prefers beta redexes contracts eta redexes
only once no beta redex is left, and eta contractions bring none back. So such a run is a run of
beta steps followed by a run of eta steps, and it ends exactly when the run of beta steps does. -/

namespace UntypedLambda

/-- The first contractions of eta redexes keep a term without beta redexes so. -/
theorem Nameless.first_beta_stays_none {α : Type} {t next : Nameless α}
    (normal : t.contractFirst? betaRoot? = none) (step : t.contractFirst? etaRoot? = some next) :
    next.contractFirst? betaRoot? = none :=
  Normal.eta normal (contracts_of_contractFirst? step)

namespace Term

open Iteration

/-! ### The phases of a run -/

/-- A step that contracts an eta redex because normal order finds no beta redex. -/
def EtaMove (t next : Term) : Prop :=
  (∀ fresh, betaStep? .leftmostOutermost t fresh = none) ∧ etaStep? t = some next

/-- Whether there is a beta step does not depend on the supply. -/
theorem betaStep?_eq_none_iff (strategy : Strategy) (t : Term) (supply other : Nat) :
    betaStep? strategy t supply = none ↔ betaStep? strategy t other = none := by
  rw [← Option.isNone_iff_eq_none, ← Option.isNone_iff_eq_none, ← Option.not_isSome,
    ← Option.not_isSome, ← hasBetaRedex_eq, ← hasBetaRedex_eq]

/-- Without a step in normal order there is no beta redex. -/
theorem no_beta_redex {t : Term} {supply : Nat} (below : t.Below supply)
    (stuck : betaStep? .leftmostOutermost t supply = none) (position : Nameless.Position) :
    t.nameless.contractAt? Nameless.betaRoot? position = none := by
  have first := betaOutermost?_readUnder below []
  change betaOutermost? t supply = none at stuck
  rw [stuck, Option.map_none] at first
  exact (Nameless.contractFirst?_eq_none_iff t.nameless).mp first.symm position

theorem etaMove_of_advance? {state next : Term × Nat} {fresh : Nat}
    (noBeta : betaStep? .leftmostOutermost state.1 fresh = none)
    (step : advance? .both .leftmostOutermost state = some next) : EtaMove state.1 next.1 := by
  have here := (betaStep?_eq_none_iff .leftmostOutermost state.1 fresh state.2).mp noBeta
  simp only [advance?, step?, here, Option.orElse_eq_orElse, Option.orElse_eq_or,
    Option.none_or] at step
  obtain ⟨inner, found, rfl⟩ := Option.map_eq_some_iff.mp step
  exact ⟨fun other => (betaStep?_eq_none_iff _ _ _ _).mp noBeta, found⟩

/-- Without a beta redex in a term, there is none later in its run. -/
theorem betaStep?_stays_none {count : Nat} {start final : Term × Nat}
    (below : start.1.Below start.2)
    (noBeta : betaStep? .leftmostOutermost start.1 start.2 = none)
    (reached : after? (advance? .both .leftmostOutermost) count start = some final) :
    betaStep? .leftmostOutermost final.1 final.2 = none := by
  have reads := (views_namelessByName .both).after? count start below
  rw [reached, Option.map_some] at reads
  have normal := betaOutermost?_namelessByName below
  change betaOutermost? start.1 start.2 = none at noBeta
  rw [noBeta, Option.map_none] at normal
  have stays := after?_keeps (views_second Nameless.first_beta_stays_none).kept normal.symm
    reads.symm
  rw [← betaOutermost?_namelessByName (after?_keeps advance?_below below reached),
    Option.map_eq_none_iff] at stays
  exact stays

/-- Once a run contracts an eta redex for want of a beta redex, it does so in every later step. -/
theorem etaMove_of_earlier {limit first second : Nat} {t u u' v v' : Term} {supply : Nat}
    (below : t.Below supply) (le : first ≤ second)
    (atFirst : (watched .both .leftmostOutermost limit t supply).2.reverse[first]? = some u)
    (atSecond : (watched .both .leftmostOutermost limit t supply).2.reverse[second]? = some v)
    (afterSecond :
      (watched .both .leftmostOutermost limit t supply).2.reverse[second + 1]? = some v')
    (move : EtaMove u u') : EtaMove v v' := by
  obtain ⟨_, state, reached, rfl⟩ := getElem?_watched_eq_some_iff.mp atFirst
  obtain ⟨_, later, reachedLater, rfl⟩ := getElem?_watched_eq_some_iff.mp atSecond
  obtain ⟨_, last, reachedLast, rfl⟩ := getElem?_watched_eq_some_iff.mp afterSecond
  have stateBelow := after?_keeps advance?_below below reached
  obtain ⟨between, rfl⟩ := Nat.exists_eq_add_of_le le
  rw [after?_add, reached, Option.bind_some] at reachedLater
  rw [Nat.add_assoc, after?_add, reached, Option.bind_some, after?_add, reachedLater,
    Option.bind_some] at reachedLast
  obtain ⟨_, step, same⟩ := Option.bind_eq_some_iff.mp reachedLast
  cases same
  exact etaMove_of_advance? (betaStep?_stays_none stateBelow (move.1 state.2) reachedLater) step

/-! ### Runs that end -/

theorem halts_both_iff {t final : Nameless String} {count : Nat} :
    Halts Mode.both.contractFirst? t count final ↔
      ∃ before later middle, count = before + later ∧
        Halts Mode.beta.contractFirst? t before middle ∧
        Halts Mode.eta.contractFirst? middle later final :=
  halts_prefer_iff Nameless.first_beta_stays_none

section Ends

variable {t : Term} {supply betaSupply : Nat}

theorem exists_beta_end (below : t.Below supply) (betaBelow : t.Below betaSupply)
    {both : Reduction} (ends : Ends .both .leftmostOutermost t supply both) :
    ∃ beta, Ends .beta .leftmostOutermost t betaSupply beta := by
  have halts := (views_namelessByName .both).halts below ends.halts
  obtain ⟨before, _, middle, _, inBeta, _⟩ := halts_both_iff.mp halts
  obtain ⟨final, _, betaHalts⟩ :=
    (views_namelessByName .beta).exists_halts (t, betaSupply) betaBelow inBeta
  exact ⟨_, ends_of_halts betaHalts⟩

/-- The steps of a run of beta steps and those of a run of eta steps from its end are the steps of
a run in both modes, which ends in the same term. -/
theorem exists_both_end (below : t.Below supply) (betaBelow : t.Below betaSupply)
    {beta eta : Reduction} {etaSupply : Nat}
    (betaEnds : Ends .beta .leftmostOutermost t betaSupply beta)
    (etaEnds : Ends .eta .leftmostOutermost beta.term etaSupply eta) :
    ∃ both, Ends .both .leftmostOutermost t supply both ∧
      both.steps = beta.steps + eta.steps ∧ both.term.alphaEqual eta.term = true := by
  have inBeta := (views_namelessByName .beta).halts betaBelow betaEnds.halts
  have inEta := (views_eta .leftmostOutermost).halts trivial etaEnds.halts
  have inBoth := halts_both_iff.mpr ⟨_, _, _, rfl, inBeta, inEta⟩
  obtain ⟨final, reads, halts⟩ :=
    (views_namelessByName .both).exists_halts (t, supply) below inBoth
  exact ⟨_, ends_of_halts halts, rfl, (alphaEqual_iff _ _).mpr reads⟩

/-- Where a run in both modes ends, there is no redex. -/
theorem no_redex_at_end (below : t.Below supply) {both : Reduction}
    (ends : Ends .both .leftmostOutermost t supply both) (position : Nameless.Position) :
    both.term.nameless.contractAt? Nameless.betaRoot? position = none ∧
      both.term.nameless.contractAt? Nameless.etaRoot? position = none := by
  have halts := ends.halts
  have finalBelow := after?_keeps advance?_below below halts.reached
  have stuck := halts.stuck
  simp only [advance?, step?, Option.orElse_eq_orElse, Option.orElse_eq_or,
    Option.or_eq_none_iff, Option.map_eq_none_iff] at stuck
  exact ⟨no_beta_redex finalBelow stuck.1 position, no_eta_redex stuck.2 position⟩

end Ends

/-- In normal order a run in both modes is a run of beta steps and then one of eta steps. Once a
step contracts an eta redex for want of a beta redex, so does every later one. Without a bound the
run ends exactly when the run of beta steps ends. Then its steps are those of the run of beta steps
and those of the run of eta steps from its end, and its term is the end of the latter up to bound
variables, with neither a beta redex nor an eta redex. The supplies of the three runs may differ. -/
theorem both_is_beta_then_eta {t : Term} {supply betaSupply : Nat} (below : t.Below supply)
    (betaBelow : t.Below betaSupply) :
    (∀ limit i j u u' v v',
      let passed := (watched .both .leftmostOutermost limit t supply).2.reverse
      passed[i]? = some u → passed[i + 1]? = some u' → EtaMove u u' → i ≤ j →
        passed[j]? = some v → passed[j + 1]? = some v' → EtaMove v v') ∧
    ((∃ both, Ends .both .leftmostOutermost t supply both) ↔
      ∃ beta, Ends .beta .leftmostOutermost t betaSupply beta) ∧
    (∀ beta, Ends .beta .leftmostOutermost t betaSupply beta → ∀ etaSupply, ∃ eta both,
      Ends .eta .leftmostOutermost beta.term etaSupply eta ∧
        Ends .both .leftmostOutermost t supply both ∧
        both.steps = beta.steps + eta.steps ∧ both.term.alphaEqual eta.term = true ∧
        ∀ position,
          both.term.nameless.contractAt? Nameless.betaRoot? position = none ∧
            both.term.nameless.contractAt? Nameless.etaRoot? position = none) := by
  have ending (beta : Reduction) (betaEnds : Ends .beta .leftmostOutermost t betaSupply beta)
      (etaSupply : Nat) : ∃ eta both, Ends .eta .leftmostOutermost beta.term etaSupply eta ∧
        Ends .both .leftmostOutermost t supply both ∧ both.steps = beta.steps + eta.steps ∧
        both.term.alphaEqual eta.term = true := by
    obtain ⟨count, final, etaHalts, _⟩ := exists_eta_halts .leftmostOutermost (beta.term, etaSupply)
    have etaEnds := ends_of_halts etaHalts
    obtain ⟨both, bothEnds, steps, same⟩ := exists_both_end below betaBelow betaEnds etaEnds
    exact ⟨_, both, etaEnds, bothEnds, steps, same⟩
  refine ⟨?_, ⟨?_, ?_⟩, ?_⟩
  · intro limit i j u u' v v' passed atFirst _ move le atSecond afterSecond
    exact etaMove_of_earlier below le atFirst atSecond afterSecond move
  · rintro ⟨both, ends⟩
    exact exists_beta_end below betaBelow ends
  · rintro ⟨beta, ends⟩
    obtain ⟨_, both, _, bothEnds, _⟩ := ending beta ends 0
    exact ⟨both, bothEnds⟩
  · intro beta betaEnds etaSupply
    obtain ⟨eta, both, etaEnds, bothEnds, steps, same⟩ := ending beta betaEnds etaSupply
    exact ⟨eta, both, etaEnds, bothEnds, steps, same, no_redex_at_end below bothEnds⟩

/-- A beta step leaves two eta redexes, one inside the other. The identities that it gives them
depend on the supply. -/
theorem beta_step_then_eta_steps :
    let inner (id : Nat) : Term := .abs ⟨"z", id⟩ (.app (.var ⟨"g", 2⟩) (.var ⟨"z", id⟩))
    let outer (f : Var) (id id' : Nat) : Term :=
      .abs ⟨"y", id⟩ (.app (.app (.var f) (inner id')) (.var ⟨"y", id⟩))
    let t : Term := .app (.abs ⟨"f", 1⟩ (outer ⟨"f", 1⟩ 0 0)) (.var ⟨"h", 3⟩)
    let last : Term := .app (.var ⟨"h", 3⟩) (.var ⟨"g", 2⟩)
    t.Below 4 ∧ t.Below 5 ∧ EtaMove (.app (.var ⟨"h", 3⟩) (inner 6)) last ∧
      ∃ both, Ends .both .leftmostOutermost t 5 both ∧ both.steps = 3 ∧
        both.term.alphaEqual last = true := by
  intro inner outer t last
  have below : t.Below 4 := by decide
  have above : t.Below 5 := by decide
  have betaEnds : Ends .beta .leftmostOutermost t 4 ⟨outer ⟨"h", 3⟩ 4 5, 1, false, 6⟩ :=
    ends_iff.mpr ⟨rfl, by decide, by decide⟩
  have etaEnds : Ends .eta .leftmostOutermost (outer ⟨"h", 3⟩ 4 5) 6 ⟨last, 2, false, 6⟩ :=
    ends_iff.mpr ⟨rfl, by decide, by decide⟩
  obtain ⟨later, _, ending⟩ := both_is_beta_then_eta above below
  obtain ⟨eta, both, etaEnds', bothEnds, steps, same, _⟩ := ending _ betaEnds 6
  obtain rfl := etaEnds'.unique etaEnds
  have move : EtaMove (outer ⟨"h", 3⟩ 5 6) (.app (.var ⟨"h", 3⟩) (inner 6)) :=
    ⟨fun _ => rfl, by decide⟩
  refine ⟨below, above, ?_, both, bothEnds, steps, same⟩
  exact later 3 1 2 _ _ _ _ (by decide) (by decide) move (by decide) (by decide) (by decide)

end Term

end UntypedLambda
