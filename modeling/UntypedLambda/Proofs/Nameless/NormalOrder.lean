import UntypedLambda.Proofs.Nameless.Contraction

set_option autoImplicit false

/-! Normal order finds the normal form. Every beta reduction can be rearranged into a standard one,
which makes weak head contractions first and then goes on inside the parts of what they lead to. A
standard reduction to a normal form contracts the first redex in pre-order every time. -/

namespace UntypedLambda.Nameless

open Relation

variable {α : Type}

/-! ### Weak head contraction -/

/-- The redex at the head is contracted: no abstraction and no argument is entered. -/
inductive Weak : Nameless α → Nameless α → Prop where
  | redex (body argument : Nameless α) :
      Weak (.app (.lam body) argument) (body.instantiate 0 argument)
  | function {function next : Nameless α} (argument : Nameless α) :
      Weak function next → Weak (.app function argument) (.app next argument)

namespace Weak

theorem rename {t next : Nameless α} (step : Weak t next) (ρ : Nat → Nat) :
    Weak (t.rename ρ) (next.rename ρ) := by
  induction step with
  | redex body argument =>
      rw [rename_instantiate]
      exact .redex _ _
  | function argument _ ih => exact .function _ ih

theorem subst {t next : Nameless α} (step : Weak t next) (σ : Nat → Nameless α) :
    Weak (t.subst σ) (next.subst σ) := by
  induction step with
  | redex body argument =>
      rw [subst_instantiate]
      exact .redex _ _
  | function argument _ ih => exact .function _ ih

theorem beta {t next : Nameless α} (step : Weak t next) : Beta t next := by
  induction step with
  | redex body argument => exact Beta.redex body argument
  | function argument _ ih => exact .function argument ih

end Weak

abbrev WeakReduces : Nameless α → Nameless α → Prop :=
  ReflTransGen Weak

namespace WeakReduces

theorem rename {t next : Nameless α} (steps : WeakReduces t next) (ρ : Nat → Nat) :
    WeakReduces (t.rename ρ) (next.rename ρ) :=
  ReflTransGen.lift (Nameless.rename ρ) (fun _ _ step => Weak.rename step ρ) _ _ steps

theorem subst {t next : Nameless α} (steps : WeakReduces t next) (σ : Nat → Nameless α) :
    WeakReduces (t.subst σ) (next.subst σ) :=
  ReflTransGen.lift (Nameless.subst σ) (fun _ _ step => Weak.subst step σ) _ _ steps

theorem function {function next : Nameless α} (steps : WeakReduces function next)
    (argument : Nameless α) : WeakReduces (.app function argument) (.app next argument) :=
  ReflTransGen.lift (fun t => Nameless.app t argument)
    (fun _ _ step => Weak.function argument step) _ _ steps

theorem reduces {t next : Nameless α} (steps : WeakReduces t next) : Reduces betaRoot? t next :=
  ReflTransGen.mono (fun _ _ step => Weak.beta step) _ _ steps

end WeakReduces

/-! ### Standard reduction -/

/-- A weak head reduction to a term of the shape of the target, followed by standard reductions of
its parts. -/
inductive Standard : Nameless α → Nameless α → Prop where
  | bound {t : Nameless α} {index : Nat} :
      WeakReduces t (.bound index) → Standard t (.bound index)
  | free {t : Nameless α} {name : α} : WeakReduces t (.free name) → Standard t (.free name)
  | lam {t body body' : Nameless α} :
      WeakReduces t (.lam body) → Standard body body' → Standard t (.lam body')
  | app {t function function' argument argument' : Nameless α} :
      WeakReduces t (.app function argument) → Standard function function' →
        Standard argument argument' → Standard t (.app function' argument')

namespace Standard

theorem refl (t : Nameless α) : Standard t t := by
  induction t with
  | bound index => exact .bound .refl
  | free name => exact .free .refl
  | lam body ih => exact .lam .refl ih
  | app function argument ihFunction ihArgument => exact .app .refl ihFunction ihArgument

theorem of_weakReduces {t middle next : Nameless α} (steps : WeakReduces t middle)
    (standard : Standard middle next) : Standard t next := by
  cases standard with
  | bound more => exact .bound (steps.trans more)
  | free more => exact .free (steps.trans more)
  | lam more inBody => exact .lam (steps.trans more) inBody
  | app more inFunction inArgument => exact .app (steps.trans more) inFunction inArgument

theorem rename {t next : Nameless α} (standard : Standard t next) (ρ : Nat → Nat) :
    Standard (t.rename ρ) (next.rename ρ) := by
  induction standard generalizing ρ with
  | bound steps => exact .bound (steps.rename ρ)
  | free steps => exact .free (steps.rename ρ)
  | lam steps _ ih => exact .lam (steps.rename ρ) (ih _)
  | app steps _ _ ihFunction ihArgument =>
      exact .app (steps.rename ρ) (ihFunction ρ) (ihArgument ρ)

theorem subst {t next : Nameless α} (standard : Standard t next) {σ σ' : Nat → Nameless α}
    (pointwise : ∀ index, Standard (σ index) (σ' index)) :
    Standard (t.subst σ) (next.subst σ') := by
  induction standard generalizing σ σ' with
  | bound steps => exact of_weakReduces (steps.subst σ) (pointwise _)
  | free steps => exact .free (steps.subst σ)
  | lam steps _ ih =>
      refine .lam (steps.subst σ) (ih ?_)
      intro index
      cases index with
      | zero => exact refl _
      | succ index => exact (pointwise index).rename Nat.succ
  | app steps _ _ ihFunction ihArgument =>
      exact .app (steps.subst σ) (ihFunction pointwise) (ihArgument pointwise)

theorem instantiate {body body' argument argument' : Nameless α} (inBody : Standard body body')
    (inArgument : Standard argument argument') :
    Standard (body.instantiate 0 argument) (body'.instantiate 0 argument') := by
  rw [instantiate_zero, instantiate_zero]
  apply inBody.subst
  intro index
  cases index with
  | zero => exact inArgument
  | succ index => exact refl _

/-- A redex at the end of a standard reduction has a weak head redex behind it. -/
theorem redex {t body argument : Nameless α} (standard : Standard t (.app (.lam body) argument)) :
    Standard t (body.instantiate 0 argument) := by
  cases standard with
  | app steps inFunction inArgument =>
      cases inFunction with
      | lam inner inBody =>
          have toRedex := (steps.trans (inner.function _)).tail (.redex _ _)
          exact of_weakReduces toRedex (inBody.instantiate inArgument)

/-- A standard reduction absorbs one more contraction. -/
theorem beta {t next final : Nameless α} (standard : Standard t next) (step : Beta next final) :
    Standard t final := by
  induction step generalizing t with
  | root found =>
      obtain ⟨body, argument, rfl, rfl⟩ := (betaRoot?_eq_some_iff _ _).mp found
      exact standard.redex
  | lam _ ih =>
      cases standard with
      | lam steps inBody => exact .lam steps (ih inBody)
  | function argument _ ih =>
      cases standard with
      | app steps inFunction inArgument => exact .app steps (ih inFunction) inArgument
  | argument function _ ih =>
      cases standard with
      | app steps inFunction inArgument => exact .app steps inFunction (ih inArgument)

/-- Every beta reduction can be made a standard one. -/
theorem of_reduces {t next : Nameless α} (steps : Reduces betaRoot? t next) :
    Standard t next := by
  induction steps with
  | refl => exact refl t
  | tail _ step ih => exact ih.beta step

end Standard

/-! ### Normal order -/

def NormalOrder (t next : Nameless α) : Prop :=
  t.contractFirst? betaRoot? = some next

def Normal (t : Nameless α) : Prop :=
  t.contractFirst? betaRoot? = none

theorem normal_iff (t : Nameless α) : Normal t ↔ ∀ next, ¬ Beta t next := by
  constructor
  · intro normal next
    exact not_contracts_of_contractFirst? normal
  · intro stuck
    cases found : t.contractFirst? betaRoot? with
    | none => exact found
    | some next => exact absurd (contracts_of_contractFirst? found) (stuck next)

/-- Outside an application of an abstraction, the search goes to the parts. -/
private theorem contractFirst?_app_of_not_lam {function : Nameless α}
    (notLam : ∀ body, function ≠ .lam body) (argument : Nameless α) :
    (Nameless.app function argument).contractFirst? betaRoot? =
      ((function.contractFirst? betaRoot?).map fun next => .app next argument).or
        ((argument.contractFirst? betaRoot?).map fun next => .app function next) := by
  rw [contractFirst?_app]
  cases function with
  | lam body => exact absurd rfl (notLam body)
  | bound index => rfl
  | free name => rfl
  | app first second => rfl

namespace NormalOrder

theorem lam {body next : Nameless α} (step : NormalOrder body next) :
    NormalOrder (.lam body) (.lam next) := by
  unfold NormalOrder at *
  rw [contractFirst?_lam, step]
  rfl

theorem function {function next : Nameless α} (notLam : ∀ body, function ≠ .lam body)
    (step : NormalOrder function next) (argument : Nameless α) :
    NormalOrder (.app function argument) (.app next argument) := by
  unfold NormalOrder at *
  rw [contractFirst?_app_of_not_lam notLam, step]
  rfl

theorem argument {function argument next : Nameless α} (notLam : ∀ body, function ≠ .lam body)
    (normal : Normal function) (step : NormalOrder argument next) :
    NormalOrder (.app function argument) (.app function next) := by
  unfold NormalOrder Normal at *
  rw [contractFirst?_app_of_not_lam notLam, normal, step]
  rfl

theorem of_weak {t next : Nameless α} (step : Weak t next) : NormalOrder t next := by
  induction step with
  | redex body argument =>
      unfold NormalOrder
      rw [contractFirst?_app]
      rfl
  | function argument inFunction ih =>
      refine ih.function ?_ argument
      rintro body rfl
      cases inFunction

theorem lam_cases {body next : Nameless α} (step : NormalOrder (.lam body) next) :
    ∃ inner, next = .lam inner := by
  cases contracts_of_contractFirst? step with
  | root found => cases found
  | @lam _ inner _ => exact ⟨inner, rfl⟩

end NormalOrder

private theorem lam_of_normalOrder_steps {t next : Nameless α}
    (steps : ReflTransGen NormalOrder t next) (body : Nameless α) (start : t = .lam body) :
    ∃ inner, next = .lam inner := by
  induction steps with
  | refl => exact ⟨body, start⟩
  | tail _ step ih =>
      obtain ⟨inner, rfl⟩ := ih
      exact step.lam_cases

/-- Steps in the function of an application, which never becomes an abstraction, are steps of the
application. -/
private theorem normalOrder_steps_function {function next : Nameless α} (argument : Nameless α)
    (steps : ReflTransGen NormalOrder function next) (notLam : ∀ body, next ≠ .lam body) :
    ReflTransGen NormalOrder (.app function argument) (.app next argument) := by
  induction steps using ReflTransGen.head_induction_on with
  | refl => exact .refl
  | @head first second step rest ih =>
      refine .head (step.function ?_ argument) ih
      intro body start
      obtain ⟨inner, final⟩ :=
        lam_of_normalOrder_steps (ReflTransGen.head step rest) body start
      exact notLam inner final

theorem normal_lam {body : Nameless α} (normal : Normal (.lam body)) : Normal body := by
  rw [normal_iff] at *
  exact fun next step => normal _ (.lam step)

theorem normal_app {function argument : Nameless α} (normal : Normal (.app function argument)) :
    (∀ body, function ≠ .lam body) ∧ Normal function ∧ Normal argument := by
  simp only [normal_iff] at *
  refine ⟨?_, fun next step => normal _ (.function _ step),
    fun next step => normal _ (.argument _ step)⟩
  rintro body rfl
  exact normal _ (Beta.redex body argument)

theorem normalOrder_of_weakReduces {t next : Nameless α}
    (steps : WeakReduces t next) : ReflTransGen NormalOrder t next :=
  ReflTransGen.mono (fun _ _ step => .of_weak step) _ _ steps

/-- A standard reduction to a normal form is one in normal order. -/
theorem Standard.normalOrder {t next : Nameless α} (standard : Standard t next)
    (normal : Normal next) : ReflTransGen NormalOrder t next := by
  induction standard with
  | bound steps => exact normalOrder_of_weakReduces steps
  | free steps => exact normalOrder_of_weakReduces steps
  | lam steps _ ih =>
      have inBody := ih (normal_lam normal)
      exact (normalOrder_of_weakReduces steps).trans
        (ReflTransGen.lift Nameless.lam (fun _ _ step => NormalOrder.lam step) _ _ inBody)
  | @app t function function' argument argument' steps _ _ ihFunction ihArgument =>
      obtain ⟨notLam, normalFunction, normalArgument⟩ := normal_app normal
      have inFunction := normalOrder_steps_function argument (ihFunction normalFunction) notLam
      have inArgument :
          ReflTransGen NormalOrder (.app function' argument) (.app function' argument') :=
        ReflTransGen.lift (fun t => Nameless.app function' t)
          (fun _ _ step => NormalOrder.argument notLam normalFunction step) _ _
          (ihArgument normalArgument)
      exact (normalOrder_of_weakReduces steps).trans (inFunction.trans inArgument)

/-- Normal order reaches every normal form that a term has. -/
theorem normalOrder_of_reduces {t next : Nameless α} (steps : Reduces betaRoot? t next)
    (normal : Normal next) : ReflTransGen NormalOrder t next :=
  (Standard.of_reduces steps).normalOrder normal

end UntypedLambda.Nameless
