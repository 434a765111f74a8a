import UntypedLambda.Proofs.Nameless.Contraction

set_option autoImplicit false

/-! Confluence of beta contraction. A parallel contraction contracts any set of the redexes of a
term at once. Every one of them can be completed to the development that contracts all of them, so
two of them meet there. -/

namespace UntypedLambda.Nameless

open Relation

variable {α : Type}

inductive Parallel : Nameless α → Nameless α → Prop where
  | bound (index : Nat) : Parallel (.bound index) (.bound index)
  | free (name : α) : Parallel (.free name) (.free name)
  | lam {body body' : Nameless α} : Parallel body body' → Parallel (.lam body) (.lam body')
  | app {function function' argument argument' : Nameless α} :
      Parallel function function' → Parallel argument argument' →
        Parallel (.app function argument) (.app function' argument')
  | redex {body body' argument argument' : Nameless α} :
      Parallel body body' → Parallel argument argument' →
        Parallel (.app (.lam body) argument) (body'.instantiate 0 argument')

namespace Parallel

theorem refl (t : Nameless α) : Parallel t t := by
  induction t with
  | bound index => exact .bound index
  | free name => exact .free name
  | lam body ih => exact .lam ih
  | app function argument ihFunction ihArgument => exact .app ihFunction ihArgument

theorem of_beta {t next : Nameless α} (step : Beta t next) : Parallel t next := by
  induction step with
  | root found =>
      obtain ⟨body, argument, rfl, rfl⟩ := (betaRoot?_eq_some_iff _ _).mp found
      exact .redex (refl body) (refl argument)
  | lam _ ih => exact .lam ih
  | function argument _ ih => exact .app ih (refl argument)
  | argument function _ ih => exact .app (refl function) ih

theorem reduces {t next : Nameless α} (step : Parallel t next) :
    Reduces betaRoot? t next := by
  induction step with
  | bound index => exact .refl
  | free name => exact .refl
  | lam _ ih => exact ih.lam
  | app _ _ ihFunction ihArgument => exact ihFunction.app ihArgument
  | redex _ _ ihBody ihArgument =>
      exact (ihBody.lam.app ihArgument).tail (Beta.redex _ _)

/-! ### Substitution -/

theorem rename {t next : Nameless α} (step : Parallel t next) (ρ : Nat → Nat) :
    Parallel (t.rename ρ) (next.rename ρ) := by
  induction step generalizing ρ with
  | bound index => exact .bound _
  | free name => exact .free name
  | lam _ ih => exact .lam (ih _)
  | app _ _ ihFunction ihArgument => exact .app (ihFunction ρ) (ihArgument ρ)
  | redex _ _ ihBody ihArgument =>
      rw [rename_instantiate]
      exact .redex (ihBody _) (ihArgument ρ)

private theorem lift_pointwise {σ σ' : Nat → Nameless α}
    (steps : ∀ index, Parallel (σ index) (σ' index)) (index : Nat) :
    Parallel (lift σ index) (lift σ' index) := by
  cases index with
  | zero => exact .bound 0
  | succ index => exact (steps index).rename Nat.succ

theorem subst {t next : Nameless α} (step : Parallel t next) {σ σ' : Nat → Nameless α}
    (steps : ∀ index, Parallel (σ index) (σ' index)) :
    Parallel (t.subst σ) (next.subst σ') := by
  induction step generalizing σ σ' with
  | bound index => exact steps index
  | free name => exact .free name
  | lam _ ih => exact .lam (ih (lift_pointwise steps))
  | app _ _ ihFunction ihArgument => exact .app (ihFunction steps) (ihArgument steps)
  | redex _ _ ihBody ihArgument =>
      rw [subst_instantiate]
      exact .redex (ihBody (lift_pointwise steps)) (ihArgument steps)

theorem instantiate {body body' argument argument' : Nameless α} (inBody : Parallel body body')
    (inArgument : Parallel argument argument') :
    Parallel (body.instantiate 0 argument) (body'.instantiate 0 argument') := by
  rw [instantiate_zero, instantiate_zero]
  apply inBody.subst
  intro index
  cases index with
  | zero => exact inArgument
  | succ index => exact .bound index

theorem of_rename {ρ : Nat → Nat} {t u : Nameless α} (step : Parallel (t.rename ρ) u) :
    ∃ next, u = next.rename ρ ∧ Parallel t next := by
  induction t generalizing ρ u with
  | bound index =>
      cases step with
      | bound => exact ⟨.bound index, rfl, .bound index⟩
  | free name =>
      cases step with
      | free => exact ⟨.free name, rfl, .free name⟩
  | lam body ih =>
      cases step with
      | lam inBody =>
          obtain ⟨next, rfl, inner⟩ := ih inBody
          exact ⟨.lam next, rfl, .lam inner⟩
  | app function argument ihFunction ihArgument =>
      generalize source : (Nameless.app function argument).rename ρ = renamed at step
      cases step with
      | bound index => cases source
      | free name => cases source
      | lam inBody => cases source
      | app inFunction inArgument =>
          cases source
          obtain ⟨nextFunction, rfl, stepFunction⟩ := ihFunction inFunction
          obtain ⟨nextArgument, rfl, stepArgument⟩ := ihArgument inArgument
          exact ⟨.app nextFunction nextArgument, rfl, .app stepFunction stepArgument⟩
      | redex inBody inArgument =>
          cases function with
          | bound index => cases source
          | free name => cases source
          | app first second => cases source
          | lam body =>
              cases source
              obtain ⟨nextFunction, raised, stepFunction⟩ := ihFunction (.lam inBody)
              obtain ⟨nextArgument, rfl, stepArgument⟩ := ihArgument inArgument
              cases stepFunction with
              | @lam _ nextBody stepBody =>
                  cases raised
                  exact ⟨nextBody.instantiate 0 nextArgument, (rename_instantiate _ _ _).symm,
                    .redex stepBody stepArgument⟩

end Parallel

/-! ### Complete development -/

def develop : Nameless α → Nameless α
  | .bound index => .bound index
  | .free name => .free name
  | .lam body => .lam body.develop
  | .app (.lam body) argument => body.develop.instantiate 0 argument.develop
  | .app function argument => .app function.develop argument.develop

theorem Parallel.develop {t next : Nameless α} (step : Parallel t next) :
    Parallel next t.develop := by
  induction step with
  | bound index => exact .bound index
  | free name => exact .free name
  | lam _ ih => exact .lam ih
  | @app function function' argument argument' inFunction _ ihFunction ihArgument =>
      cases inFunction with
      | bound index => exact .app ihFunction ihArgument
      | free name => exact .app ihFunction ihArgument
      | lam inBody =>
          cases ihFunction with
          | lam ihBody => exact .redex ihBody ihArgument
      | app _ _ => exact .app ihFunction ihArgument
      | redex _ _ => exact .app ihFunction ihArgument
  | redex _ _ ihBody ihArgument => exact ihBody.instantiate ihArgument

theorem reduces_beta_iff (t next : Nameless α) :
    Reduces betaRoot? t next ↔ ReflTransGen Parallel t next := by
  constructor
  · exact ReflTransGen.mono (fun _ _ step => Parallel.of_beta step) t next
  · exact reflTransGen_closed (fun _ _ step => step.reduces) t next

/-- Two beta reductions of a term can be continued to a common term. -/
theorem beta_confluent {t left right : Nameless α} (toLeft : Reduces betaRoot? t left)
    (toRight : Reduces betaRoot? t right) : Join (Reduces betaRoot?) left right := by
  rw [reduces_beta_iff] at toLeft toRight
  have diamond (start first second : Nameless α) (toFirst : Parallel start first)
      (toSecond : Parallel start second) :
      ∃ target, ReflGen Parallel first target ∧ ReflTransGen Parallel second target :=
    ⟨start.develop, .single toFirst.develop, .single toSecond.develop⟩
  obtain ⟨target, fromLeft, fromRight⟩ := church_rosser diamond toLeft toRight
  exact ⟨target, (reduces_beta_iff _ _).mpr fromLeft, (reduces_beta_iff _ _).mpr fromRight⟩

end UntypedLambda.Nameless
