import UntypedLambda.Proofs.Nameless.Eta
import UntypedLambda.Proofs.Nameless.NormalOrder

set_option autoImplicit false

/-! Eta contraction creates no beta redex: a term without one keeps being without one. -/

namespace UntypedLambda.Nameless

variable {α : Type}

theorem Beta.rename {t next : Nameless α} (step : Beta t next) (ρ : Nat → Nat) :
    Beta (t.rename ρ) (next.rename ρ) := by
  induction step generalizing ρ with
  | root found =>
      obtain ⟨body, argument, rfl, rfl⟩ := (betaRoot?_eq_some_iff _ _).mp found
      rw [rename_instantiate]
      exact Beta.redex _ _
  | lam _ ih => exact .lam (ih _)
  | function argument _ ih => exact .function _ (ih ρ)
  | argument function _ ih => exact .argument _ (ih ρ)

namespace Eta

theorem source_of_lam {t body : Nameless α} (step : Eta t (.lam body)) :
    ∃ source, t = .lam source := by
  cases step with
  | root found => exact ⟨_, (etaRoot?_eq_some_iff _ _).mp found⟩
  | lam _ => exact ⟨_, rfl⟩

/-- Where there is a beta redex after an eta contraction, there was one before. -/
theorem exists_beta {t next final : Nameless α} (step : Eta t next) (beta : Beta next final) :
    ∃ other, Beta t other := by
  induction step generalizing final with
  | root found =>
      rw [(etaRoot?_eq_some_iff _ _).mp found]
      exact ⟨_, .lam (.function _ (beta.rename Nat.succ))⟩
  | lam _ ih =>
      cases beta with
      | root found => cases found
      | lam inBody =>
          obtain ⟨other, inSource⟩ := ih inBody
          exact ⟨_, .lam inSource⟩
  | function argument inFunction ih =>
      cases beta with
      | root found =>
          -- The function of the redex was an abstraction before as well.
          obtain ⟨body, _, same, _⟩ := (betaRoot?_eq_some_iff _ _).mp found
          cases same
          obtain ⟨source, rfl⟩ := source_of_lam inFunction
          exact ⟨_, Beta.redex source argument⟩
      | function _ atFunction =>
          obtain ⟨other, inSource⟩ := ih atFunction
          exact ⟨_, .function argument inSource⟩
      | argument _ atArgument => exact ⟨_, .argument _ atArgument⟩
  | argument function inArgument ih =>
      cases beta with
      | root found =>
          obtain ⟨body, _, same, _⟩ := (betaRoot?_eq_some_iff _ _).mp found
          cases same
          exact ⟨_, Beta.redex body _⟩
      | function _ atFunction => exact ⟨_, .function _ atFunction⟩
      | argument _ atArgument =>
          obtain ⟨other, inSource⟩ := ih atArgument
          exact ⟨_, .argument function inSource⟩

end Eta

/-- An eta contraction of a beta-normal term leads to a beta-normal term. -/
theorem Normal.eta {t next : Nameless α} (normal : Normal t) (step : Eta t next) : Normal next := by
  rw [normal_iff] at *
  intro final beta
  obtain ⟨other, before⟩ := step.exists_beta beta
  exact normal other before

end UntypedLambda.Nameless
