import UntypedLambda.Proofs.Nameless.Eta
import UntypedLambda.Proofs.Term.Outermost
import UntypedLambda.Proofs.Term.Run
import UntypedLambda.Session.Evaluation

set_option autoImplicit false

/-! Comparing reduced forms decides convertibility. Whatever the strategy and the bound, reduced
forms that are equal up to bound variables come from convertible terms. In normal order, convertible
terms whose reductions both end have such reduced forms. -/

namespace UntypedLambda

open Relation

namespace Nameless

variable {α : Type} {r : Nameless α → Nameless α → Prop}

/-- Under a confluent relation, convertible terms that have normal forms have the same one. -/
theorem normal_unique {left right leftEnd rightEnd : Nameless α}
    (confluent : ∀ t first second, ReflTransGen r t first → ReflTransGen r t second →
      Join (ReflTransGen r) first second)
    (convertible : EqvGen r left right) (toLeft : ReflTransGen r left leftEnd)
    (toRight : ReflTransGen r right rightEnd) (leftNormal : ∀ next, ¬ r leftEnd next)
    (rightNormal : ∀ next, ¬ r rightEnd next) : leftEnd = rightEnd := by
  have joinable : Equivalence (Join (ReflTransGen r)) := equivalence_join confluent
  have endsConvertible : EqvGen r leftEnd rightEnd :=
    .trans _ _ _ (.symm _ _ (EqvGen.reflTransGen_le_eqvGen _ _ _ toLeft))
      (.trans _ _ _ convertible (EqvGen.reflTransGen_le_eqvGen _ _ _ toRight))
  have joined : Join (ReflTransGen r) leftEnd rightEnd := by
    rw [← joinable.eqvGen_iff]
    exact EqvGen.mono (fun _ _ step => ⟨_, .single step, .refl⟩) _ _ endsConvertible
  obtain ⟨target, fromLeft, fromRight⟩ := joined
  rw [reflTransGen_iff_eq leftNormal] at fromLeft
  rw [reflTransGen_iff_eq rightNormal] at fromRight
  exact fromLeft.symm.trans fromRight

end Nameless

namespace Term

/-! ### Convertible terms -/

/-- The smallest equivalence that contains equality up to bound variables and every contraction of
a redex of a kind that the mode selects, at any position. -/
def Convertible (mode : Mode) : Term → Term → Prop :=
  EqvGen fun t next => t.alphaEqual next = true ∨ ContractsTo mode t next

namespace Mode.Contraction

variable {α β : Type} {mode : Mode}

theorem map (f : α → β) {t next : Nameless α} (step : mode.Contraction t next) :
    mode.Contraction (t.map f) (next.map f) := by
  rcases step with ⟨selected, beta⟩ | ⟨selected, eta⟩
  · exact Or.inl ⟨selected, beta.map (Nameless.betaRoot?_map f)⟩
  · exact Or.inr ⟨selected, eta.map (Nameless.etaRoot?_map f)⟩

theorem eq_beta : (Mode.beta.Contraction : Nameless α → Nameless α → Prop) = Nameless.Beta := by
  funext t next
  simp [Mode.Contraction]

theorem eq_eta : (Mode.eta.Contraction : Nameless α → Nameless α → Prop) = Nameless.Eta := by
  funext t next
  simp [Mode.Contraction]

theorem eq_betaEta :
    (Mode.both.Contraction : Nameless α → Nameless α → Prop) = Nameless.BetaEta := by
  funext t next
  simp [Mode.Contraction, Nameless.BetaEta]

theorem confluent (mode : Mode) (t first second : Nameless α)
    (toFirst : ReflTransGen mode.Contraction t first)
    (toSecond : ReflTransGen mode.Contraction t second) :
    Join (ReflTransGen mode.Contraction) first second := by
  cases mode with
  | beta =>
      rw [eq_beta] at *
      exact Nameless.beta_confluent toFirst toSecond
  | eta =>
      rw [eq_eta] at *
      exact Nameless.eta_confluent toFirst toSecond
  | both =>
      rw [eq_betaEta] at *
      exact Nameless.betaEta_confluent toFirst toSecond

end Mode.Contraction

theorem ContractsTo.namelessByName {mode : Mode} {t next : Term} (step : ContractsTo mode t next) :
    mode.Contraction t.namelessByName next.namelessByName := by
  obtain ⟨supply, left, below, contracts⟩ := step
  exact (contracts.readUnder below []).map Var.name

theorem namelessByName_of_contractsTo {mode : Mode} {t next : Term}
    (steps : ReflTransGen (ContractsTo mode) t next) :
    ReflTransGen mode.Contraction t.namelessByName next.namelessByName :=
  ReflTransGen.lift Term.namelessByName (fun _ _ step => ContractsTo.namelessByName step) _ _ steps

theorem Convertible.namelessByName {mode : Mode} {t next : Term}
    (convertible : Convertible mode t next) :
    EqvGen mode.Contraction t.namelessByName next.namelessByName := by
  induction convertible with
  | rel t next related =>
      rcases related with alphaEqual | step
      · rw [(alphaEqual_iff t next).mp alphaEqual]
        exact .refl _
      · exact .rel _ _ step.namelessByName
  | refl t => exact .refl _
  | symm t next _ ih => exact .symm _ _ ih
  | trans t middle next _ _ ihFirst ihSecond => exact .trans _ _ _ ihFirst ihSecond

theorem convertible_of_contractsTo {mode : Mode} {t next : Term}
    (steps : ReflTransGen (ContractsTo mode) t next) : Convertible mode t next :=
  EqvGen.mono (fun _ _ step => Or.inr step) _ _ (EqvGen.reflTransGen_le_eqvGen _ _ _ steps)

/-- In normal order, a term without a step reads as one without a contraction. -/
theorem not_contraction_of_isNormal {mode : Mode} {t : Term} {supply : Nat}
    (below : t.Below supply) (normal : t.isNormal mode .leftmostOutermost = true)
    (next : Nameless String) : ¬ mode.Contraction t.namelessByName next := by
  rw [isNormal_eq mode .leftmostOutermost t supply, Option.isNone_iff_eq_none] at normal
  have beta (stuck : betaOutermost? t supply = none) : ¬ Nameless.Beta t.namelessByName next :=
    Nameless.not_contracts_of_contractFirst? (by
      rw [← betaOutermost?_namelessByName below, stuck, Option.map_none])
  have eta (stuck : etaStep? t = none) : ¬ Nameless.Eta t.namelessByName next :=
    Nameless.not_contracts_of_contractFirst? (by
      rw [← etaStep?_namelessByName, stuck, Option.map_none])
  cases mode with
  | beta =>
      rw [Mode.Contraction.eq_beta]
      exact beta normal
  | eta =>
      rw [Mode.Contraction.eq_eta]
      exact eta (Option.map_eq_none_iff.mp normal)
  | both =>
      rw [Mode.Contraction.eq_betaEta]
      simp only [step?, Option.orElse_eq_orElse, Option.orElse_eq_or, Option.or_eq_none_iff,
        Option.map_eq_none_iff] at normal
      rintro (step | step)
      · exact beta normal.1 step
      · exact eta normal.2 step

end Term

/-! ### The reductions of a session -/

namespace Session

open Term

theorem reduce_reaches (session : Session) (t : Term) (supply : Nat) :
    let reduction := (session.reduce t supply).reduction
    let settings := session.settings
    ReflTransGen (Advances settings.mode settings.strategy) (t, supply)
        (reduction.term, reduction.supply) ∧
      reduction.exhausted = !reduction.term.isNormal settings.mode settings.strategy := by
  simp only [Session.reduce]
  cases session.settings.verbose with
  | true => exact runFrom_reaches _ _ _ _ _ _
  | false => exact runFrom_reaches _ _ _ _ _ _

/-- Reduced forms that are equal up to bound variables come from convertible terms, even when a
reduction was stopped. In normal order, convertible terms whose reductions were not stopped have
reduced forms that are equal up to bound variables. -/
theorem reductions_decide_convertibility (session : Session) {left right : Term}
    {leftSupply rightSupply : Nat} (leftBelow : left.Below leftSupply)
    (rightBelow : right.Below rightSupply) :
    let leftEnd := (session.reduce left leftSupply).reduction
    let rightEnd := (session.reduce right rightSupply).reduction
    (leftEnd.term.alphaEqual rightEnd.term = true →
      Convertible session.settings.mode left right) ∧
    (session.settings.strategy = .leftmostOutermost → leftEnd.exhausted = false →
      rightEnd.exhausted = false → Convertible session.settings.mode left right →
      leftEnd.term.alphaEqual rightEnd.term = true) := by
  intro leftEnd rightEnd
  obtain ⟨leftReached, leftEnding⟩ := session.reduce_reaches left leftSupply
  obtain ⟨rightReached, rightEnding⟩ := session.reduce_reaches right rightSupply
  have leftSteps := contractsTo_of_advances leftReached leftBelow
  have rightSteps := contractsTo_of_advances rightReached rightBelow
  constructor
  · intro same
    have toLeftEnd : Convertible session.settings.mode left leftEnd.term :=
      convertible_of_contractsTo leftSteps
    have toRightEnd : Convertible session.settings.mode right rightEnd.term :=
      convertible_of_contractsTo rightSteps
    have across : Convertible session.settings.mode leftEnd.term rightEnd.term :=
      .rel _ _ (Or.inl same)
    exact .trans _ _ _ toLeftEnd (.trans _ _ _ across (.symm _ _ toRightEnd))
  · intro normalOrder leftFinished rightFinished convertible
    have leftNormal : leftEnd.term.isNormal session.settings.mode .leftmostOutermost = true := by
      have ending := leftFinished.symm.trans leftEnding
      rw [normalOrder] at ending
      exact (Bool.not_eq_false' ..).mp ending.symm
    have rightNormal : rightEnd.term.isNormal session.settings.mode .leftmostOutermost = true := by
      have ending := rightFinished.symm.trans rightEnding
      rw [normalOrder] at ending
      exact (Bool.not_eq_false' ..).mp ending.symm
    rw [alphaEqual_iff]
    exact Nameless.normal_unique (Mode.Contraction.confluent session.settings.mode)
      convertible.namelessByName
      (namelessByName_of_contractsTo leftSteps) (namelessByName_of_contractsTo rightSteps)
      (not_contraction_of_isNormal (below_of_advances leftReached leftBelow) leftNormal)
      (not_contraction_of_isNormal (below_of_advances rightReached rightBelow) rightNormal)

end Session

end UntypedLambda
