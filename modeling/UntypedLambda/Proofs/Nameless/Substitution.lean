import Mathlib.Logic.Function.Iterate
import UntypedLambda.Proofs.Nameless.Basic

set_option autoImplicit false

/-! Substitution for all indices at once. The operations with a cutoff are instances of it, and the
laws of composition hold without arithmetic on cutoffs. -/

namespace UntypedLambda.Nameless

variable {α : Type}

/-! ### Simultaneous renaming and substitution -/

def liftIndex (ρ : Nat → Nat) : Nat → Nat
  | 0 => 0
  | index + 1 => ρ index + 1

def rename (ρ : Nat → Nat) : Nameless α → Nameless α
  | .bound index => .bound (ρ index)
  | .free name => .free name
  | .lam body => .lam (body.rename (liftIndex ρ))
  | .app function argument => .app (function.rename ρ) (argument.rename ρ)

def lift (σ : Nat → Nameless α) : Nat → Nameless α
  | 0 => .bound 0
  | index + 1 => (σ index).rename Nat.succ

def subst (σ : Nat → Nameless α) : Nameless α → Nameless α
  | .bound index => σ index
  | .free name => .free name
  | .lam body => .lam (body.subst (lift σ))
  | .app function argument => .app (function.subst σ) (argument.subst σ)

def single (replacement : Nameless α) : Nat → Nameless α
  | 0 => replacement
  | index + 1 => .bound index

/-! ### Composition -/

theorem liftIndex_comp (ρ ρ' : Nat → Nat) :
    liftIndex ρ' ∘ liftIndex ρ = liftIndex (ρ' ∘ ρ) := by
  funext index
  cases index <;> rfl

theorem rename_rename (ρ ρ' : Nat → Nat) (t : Nameless α) :
    (t.rename ρ).rename ρ' = t.rename (ρ' ∘ ρ) := by
  induction t generalizing ρ ρ' with
  | bound index => rfl
  | free name => rfl
  | lam body ih => simp only [rename, ih, liftIndex_comp]
  | app function argument ihFunction ihArgument => simp only [rename, ihFunction, ihArgument]

theorem lift_bound : lift (.bound : Nat → Nameless α) = .bound := by
  funext index
  cases index <;> rfl

theorem subst_bound (t : Nameless α) : t.subst .bound = t := by
  induction t with
  | bound index => rfl
  | free name => rfl
  | lam body ih => rw [subst, lift_bound, ih]
  | app function argument ihFunction ihArgument => rw [subst, ihFunction, ihArgument]

private theorem lift_comp_liftIndex (ρ : Nat → Nat) (σ : Nat → Nameless α) :
    lift σ ∘ liftIndex ρ = lift (σ ∘ ρ) := by
  funext index
  cases index <;> rfl

theorem subst_rename (ρ : Nat → Nat) (σ : Nat → Nameless α) (t : Nameless α) :
    (t.rename ρ).subst σ = t.subst (σ ∘ ρ) := by
  induction t generalizing ρ σ with
  | bound index => rfl
  | free name => rfl
  | lam body ih => simp only [rename, subst, ih, lift_comp_liftIndex]
  | app function argument ihFunction ihArgument =>
      simp only [rename, subst, ihFunction, ihArgument]

theorem rename_succ_rename (ρ : Nat → Nat) (t : Nameless α) :
    (t.rename Nat.succ).rename (liftIndex ρ) = (t.rename ρ).rename Nat.succ := by
  rw [rename_rename, rename_rename]
  rfl

private theorem rename_comp_lift (ρ : Nat → Nat) (σ : Nat → Nameless α) :
    (fun index => (lift σ index).rename (liftIndex ρ)) =
      lift (fun index => (σ index).rename ρ) := by
  funext index
  cases index with
  | zero => rfl
  | succ index => exact rename_succ_rename ρ (σ index)

theorem rename_subst (ρ : Nat → Nat) (σ : Nat → Nameless α) (t : Nameless α) :
    (t.subst σ).rename ρ = t.subst (fun index => (σ index).rename ρ) := by
  induction t generalizing ρ σ with
  | bound index => rfl
  | free name => rfl
  | lam body ih => simp only [rename, subst, ih, rename_comp_lift]
  | app function argument ihFunction ihArgument =>
      simp only [rename, subst, ihFunction, ihArgument]

theorem rename_succ_subst (σ : Nat → Nameless α) (t : Nameless α) :
    (t.rename Nat.succ).subst (lift σ) = (t.subst σ).rename Nat.succ := by
  rw [subst_rename, rename_subst]
  rfl

private theorem subst_comp_lift (σ τ : Nat → Nameless α) :
    (fun index => (lift σ index).subst (lift τ)) = lift (fun index => (σ index).subst τ) := by
  funext index
  cases index with
  | zero => rfl
  | succ index => exact rename_succ_subst τ (σ index)

theorem subst_subst (σ τ : Nat → Nameless α) (t : Nameless α) :
    (t.subst σ).subst τ = t.subst (fun index => (σ index).subst τ) := by
  induction t generalizing σ τ with
  | bound index => rfl
  | free name => rfl
  | lam body ih => simp only [subst, ih, subst_comp_lift]
  | app function argument ihFunction ihArgument => simp only [subst, ihFunction, ihArgument]

/-! ### The operations with a cutoff -/

private theorem liftIndex_shift (cutoff amount : Nat) :
    liftIndex (fun index => if index < cutoff then index else index + amount) =
      fun index => if index < cutoff + 1 then index else index + amount := by
  funext index
  cases index with
  | zero => simp [liftIndex]
  | succ index =>
      simp only [liftIndex, Nat.add_lt_add_iff_right]
      split <;> omega

theorem shift_eq_rename (cutoff amount : Nat) (t : Nameless α) :
    t.shift cutoff amount =
      t.rename fun index => if index < cutoff then index else index + amount := by
  induction t generalizing cutoff with
  | bound index =>
      simp only [shift, rename]
      split <;> rfl
  | free name => rfl
  | lam body ih => simp only [shift, rename, ih, liftIndex_shift]
  | app function argument ihFunction ihArgument =>
      simp only [shift, rename, ihFunction, ihArgument]

theorem shift_zero_one (t : Nameless α) : t.shift 0 1 = t.rename Nat.succ := by
  rw [shift_eq_rename]
  rfl

private theorem shift_zero_succ (amount : Nat) (t : Nameless α) :
    (t.shift 0 amount).rename Nat.succ = t.shift 0 (amount + 1) := by
  rw [shift_eq_rename, shift_eq_rename, rename_rename]
  rfl

theorem shift_zero_zero (t : Nameless α) : t.shift 0 0 = t := by
  rw [shift_eq_rename, ← subst_bound (rename _ _), subst_rename]
  exact subst_bound t

/-- Below `depth` abstractions, a single substitution acts on the index `depth`. -/
private theorem lift_iterate_single (replacement : Nameless α) (depth index : Nat) :
    (lift^[depth] (single replacement)) index =
      (Nameless.bound index).instantiate depth replacement := by
  induction depth generalizing index with
  | zero =>
      cases index with
      | zero => simp [single, instantiate, shift_zero_zero]
      | succ index => simp [single, instantiate]
  | succ depth ih =>
      rw [Function.iterate_succ_apply']
      cases index with
      | zero => simp [lift, instantiate]
      | succ index =>
          simp only [lift, ih, instantiate, Nat.add_lt_add_iff_right, Nat.add_right_cancel_iff]
          by_cases below : index < depth
          · simp [below, rename]
          · by_cases here : index = depth
            · simp [here, shift_zero_succ]
            · have positive : 0 < index := by omega
              simp only [below, here, if_false, rename, Nat.succ_eq_add_one, bound.injEq]
              omega

private theorem instantiate_eq_subst (depth : Nat) (replacement t : Nameless α) :
    t.instantiate depth replacement = t.subst (lift^[depth] (single replacement)) := by
  induction t generalizing depth with
  | bound index => rw [subst, lift_iterate_single]
  | free name => rfl
  | lam body ih => rw [instantiate, subst, ih, Function.iterate_succ_apply']
  | app function argument ihFunction ihArgument =>
      rw [instantiate, subst, ihFunction, ihArgument]

/-- Below abstractions that bind nothing in a term, its indices are raised and so is the one to be
replaced. -/
theorem instantiate_shift_zero (amount depth : Nat) (replacement t : Nameless α) :
    (t.shift 0 amount).instantiate (depth + amount) replacement =
      (t.instantiate depth replacement).shift 0 amount := by
  induction amount with
  | zero => rw [shift_zero_zero, shift_zero_zero, Nat.add_zero]
  | succ amount ih =>
      rw [← shift_zero_succ, ← shift_zero_succ, ← ih, instantiate_eq_subst, instantiate_eq_subst,
        ← Nat.add_assoc, Function.iterate_succ_apply', rename_succ_subst]

theorem instantiate_zero (replacement t : Nameless α) :
    t.instantiate 0 replacement = t.subst (single replacement) :=
  instantiate_eq_subst 0 replacement t

theorem instantiate_bound_zero (replacement : Nameless α) :
    (Nameless.bound 0).instantiate 0 replacement = replacement :=
  instantiate_zero replacement (.bound 0)

/-- A term that does not mention the index it is instantiated at stays as it was. -/
theorem instantiate_shift (depth : Nat) (replacement t : Nameless α) :
    (t.shift depth 1).instantiate depth replacement = t := by
  induction t generalizing depth with
  | bound index =>
      simp only [shift]
      split
      · rename_i below
        simp [instantiate, below]
      · simp only [instantiate]
        rw [if_neg (by omega), if_neg (by omega)]
        rfl
  | free name => rfl
  | lam body ih => rw [shift, instantiate, ih]
  | app function argument ihFunction ihArgument =>
      rw [shift, instantiate, ihFunction, ihArgument]

theorem shift_zero_add (first second : Nat) (t : Nameless α) :
    (t.shift 0 first).shift 0 second = t.shift 0 (first + second) := by
  simp only [shift_eq_rename, rename_rename, Nat.not_lt_zero, if_false, Function.comp_def,
    Nat.add_assoc]

/-- One abstraction fewer between a term and the place where it stands. -/
theorem instantiate_shift_succ (amount : Nat) (replacement t : Nameless α) :
    (t.shift 0 (amount + 1)).instantiate amount replacement = t.shift 0 amount := by
  have outside := instantiate_shift_zero amount 0 replacement (t.shift 0 1)
  rwa [shift_zero_add, instantiate_shift, Nat.zero_add, Nat.add_comm] at outside

theorem instantiate_rename_succ (replacement t : Nameless α) :
    (t.rename Nat.succ).instantiate 0 replacement = t := by
  rw [← shift_zero_one, instantiate_shift]

theorem instantiate_rename_liftIndex (t : Nameless α) :
    (t.rename (liftIndex Nat.succ)).instantiate 0 (.bound 0) = t := by
  rw [instantiate_zero, subst_rename]
  refine Eq.trans ?_ (subst_bound t)
  congr 1
  funext index
  cases index <;> rfl

theorem rename_instantiate (ρ : Nat → Nat) (replacement t : Nameless α) :
    (t.instantiate 0 replacement).rename ρ =
      (t.rename (liftIndex ρ)).instantiate 0 (replacement.rename ρ) := by
  rw [instantiate_zero, instantiate_zero, rename_subst, subst_rename]
  congr 1
  funext index
  cases index <;> rfl

theorem subst_instantiate (σ : Nat → Nameless α) (replacement t : Nameless α) :
    (t.instantiate 0 replacement).subst σ =
      (t.subst (lift σ)).instantiate 0 (replacement.subst σ) := by
  rw [instantiate_zero, instantiate_zero, subst_subst, subst_subst]
  congr 1
  funext index
  cases index with
  | zero => rfl
  | succ index =>
      exact ((instantiate_zero _ _).symm.trans (instantiate_rename_succ _ (σ index))).symm

/-! ### Lowering -/

theorem lower_shift (cutoff : Nat) (t : Nameless α) : (t.shift cutoff 1).lower cutoff = t := by
  induction t generalizing cutoff with
  | bound index =>
      simp only [shift]
      split
      · simp only [lower]
        rw [if_pos (by omega)]
      · simp only [lower]
        rw [if_neg (by omega)]
        rfl
  | free name => rfl
  | lam body ih => rw [shift, lower, ih]
  | app function argument ihFunction ihArgument => rw [shift, lower, ihFunction, ihArgument]

theorem mentions_shift_of_lt {cutoff amount index : Nat} (le : cutoff ≤ index)
    (lt : index < cutoff + amount) (t : Nameless α) :
    (t.shift cutoff amount).mentions index = false := by
  induction t generalizing cutoff index with
  | bound other =>
      simp only [shift]
      split <;> simp only [mentions, beq_eq_false_iff_ne, ne_eq] <;> omega
  | free name => rfl
  | lam body ih =>
      rw [shift, mentions]
      apply ih <;> omega
  | app function argument ihFunction ihArgument =>
      rw [shift, mentions, ihFunction le lt, ihArgument le lt, Bool.or_false]

theorem mentions_shift (cutoff : Nat) (t : Nameless α) :
    (t.shift cutoff 1).mentions cutoff = false :=
  mentions_shift_of_lt (Nat.le_refl cutoff) (Nat.lt_succ_self cutoff) t

theorem shift_lower (cutoff : Nat) (t : Nameless α) (absent : t.mentions cutoff = false) :
    (t.lower cutoff).shift cutoff 1 = t := by
  induction t generalizing cutoff with
  | bound index =>
      have different : index ≠ cutoff := by simpa [mentions] using absent
      simp only [lower]
      split
      · simp only [shift]
        rw [if_pos (by omega)]
      · simp only [shift]
        rw [if_neg (by omega), Nat.sub_add_cancel (by omega)]
  | free name => rfl
  | lam body ih => rw [lower, shift, ih (cutoff + 1) absent]
  | app function argument ihFunction ihArgument =>
      obtain ⟨notFunction, notArgument⟩ := Bool.or_eq_false_iff.mp absent
      rw [lower, shift, ihFunction cutoff notFunction, ihArgument cutoff notArgument]

theorem liftIndex_injective {ρ : Nat → Nat} (injective : Function.Injective ρ) :
    Function.Injective (liftIndex ρ) := by
  intro index index' same
  cases index <;> cases index' <;> simp only [liftIndex] at same
  · rfl
  · omega
  · omega
  · rw [injective (Nat.succ.inj same)]

theorem rename_injective {ρ : Nat → Nat} (injective : Function.Injective ρ) {t u : Nameless α}
    (same : t.rename ρ = u.rename ρ) : t = u := by
  induction t generalizing ρ u with
  | bound index =>
      cases u with
      | bound index' => exact congrArg bound (injective (bound.inj same))
      | free _ => cases same
      | lam _ => cases same
      | app _ _ => cases same
  | free name =>
      cases u with
      | free _ => exact same
      | bound _ => cases same
      | lam _ => cases same
      | app _ _ => cases same
  | lam body ih =>
      cases u with
      | lam body' => exact congrArg lam (ih (liftIndex_injective injective) (lam.inj same))
      | bound _ => cases same
      | free _ => cases same
      | app _ _ => cases same
  | app function argument ihFunction ihArgument =>
      cases u with
      | app function' argument' =>
          obtain ⟨functions, arguments⟩ := app.inj same
          rw [ihFunction injective functions, ihArgument injective arguments]
      | bound _ => cases same
      | free _ => cases same
      | lam _ => cases same

theorem rename_succ_injective {t u : Nameless α} (same : t.rename Nat.succ = u.rename Nat.succ) :
    t = u :=
  rename_injective (fun _ _ images => Nat.succ.inj images) same

theorem shift_zero_injective {amount : Nat} {t u : Nameless α}
    (same : t.shift 0 amount = u.shift 0 amount) : t = u := by
  rw [shift_eq_rename, shift_eq_rename] at same
  refine rename_injective (fun index index' images => ?_) same
  simpa using images

theorem mentions_rename {ρ : Nat → Nat} {index target : Nat}
    (only : ∀ other, ρ other = target ↔ other = index) (t : Nameless α) :
    (t.rename ρ).mentions target = t.mentions index := by
  induction t generalizing ρ index target with
  | bound other =>
      rw [rename, mentions, mentions, Bool.eq_iff_iff, beq_iff_eq, beq_iff_eq]
      exact only other
  | free name => rfl
  | lam body ih =>
      apply ih
      intro other
      cases other with
      | zero => simp [liftIndex]
      | succ other => simp [liftIndex, only]
  | app function argument ihFunction ihArgument =>
      simp only [rename, mentions, ihFunction only, ihArgument only]

/-- A term that avoids the index 0 after a renaming avoided it before. -/
theorem exists_of_rename_liftIndex {ρ : Nat → Nat} {t u : Nameless α}
    (same : t.rename (liftIndex ρ) = u.rename Nat.succ) :
    ∃ inner : Nameless α, t = inner.rename Nat.succ ∧ u = inner.rename ρ := by
  have onlyZero (other : Nat) : liftIndex ρ other = 0 ↔ other = 0 := by
    cases other <;> simp [liftIndex]
  have absent : t.mentions 0 = false := by
    rw [← mentions_rename onlyZero, same, ← shift_zero_one, mentions_shift]
  have raised : t = (t.lower 0).rename Nat.succ := by
    rw [← shift_zero_one, shift_lower 0 t absent]
  refine ⟨t.lower 0, raised, rename_succ_injective ?_⟩
  rw [← rename_succ_rename, ← raised, same]

end UntypedLambda.Nameless
