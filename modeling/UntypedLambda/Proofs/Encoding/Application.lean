import UntypedLambda.Proofs.Encoding.Nameless
import UntypedLambda.Proofs.Nameless.Eta
import UntypedLambda.Proofs.Nameless.NormalOrder

set_option autoImplicit false

/-! Encodings applied to arguments. As many abstractions as there are arguments take them in one
weak head reduction, in which no argument is entered. A numeral has no beta redex, and only that of
one has an eta redex. -/

namespace UntypedLambda.Nameless

open Relation

variable {α : Type}

/-! ### Closed terms -/

/-- Whether every index is that of an abstraction of the term or of one of the `depth` around it. -/
def isClosed : Nat → Nameless α → Bool
  | depth, .bound index => decide (index < depth)
  | _, .free _ => true
  | depth, .lam body => body.isClosed (depth + 1)
  | depth, .app function argument => function.isClosed depth && argument.isClosed depth

theorem shift_of_isClosed {t : Nameless α} {cutoff : Nat} (closed : t.isClosed cutoff = true)
    (amount : Nat) : t.shift cutoff amount = t := by
  induction t generalizing cutoff with
  | bound index => rw [shift, if_pos (of_decide_eq_true closed)]
  | free name => rfl
  | lam body ih => rw [shift, ih closed]
  | app function argument ihFunction ihArgument =>
      obtain ⟨inFunction, inArgument⟩ := Bool.and_eq_true_iff.mp closed
      rw [shift, ihFunction inFunction, ihArgument inArgument]

theorem instantiate_of_isClosed {t : Nameless α} {depth : Nat} (closed : t.isClosed depth = true)
    (replacement : Nameless α) : t.instantiate depth replacement = t := by
  induction t generalizing depth with
  | bound index => exact instantiate_bound_of_lt (of_decide_eq_true closed) replacement
  | free name => rfl
  | lam body ih => rw [instantiate, ih closed]
  | app function argument ihFunction ihArgument =>
      obtain ⟨inFunction, inArgument⟩ := Bool.and_eq_true_iff.mp closed
      rw [instantiate, ihFunction inFunction, ihArgument inArgument]

theorem isClosed_mono {t : Nameless α} {depth depth' : Nat} (closed : t.isClosed depth = true)
    (le : depth ≤ depth') : t.isClosed depth' = true := by
  induction t generalizing depth depth' with
  | bound index => exact decide_eq_true (Nat.lt_of_lt_of_le (of_decide_eq_true closed) le)
  | free name => rfl
  | lam body ih => exact ih closed (Nat.succ_le_succ le)
  | app function argument ihFunction ihArgument =>
      obtain ⟨inFunction, inArgument⟩ := Bool.and_eq_true_iff.mp closed
      exact Bool.and_eq_true_iff.mpr ⟨ihFunction inFunction le, ihArgument inArgument le⟩

/-- A whole term stays as it is wherever it stands. -/
theorem shift_closed {t : Nameless α} (closed : t.isClosed 0 = true) (cutoff amount : Nat) :
    t.shift cutoff amount = t :=
  shift_of_isClosed (isClosed_mono closed (Nat.zero_le cutoff)) amount

theorem instantiate_closed {t : Nameless α} (closed : t.isClosed 0 = true) (depth : Nat)
    (replacement : Nameless α) : t.instantiate depth replacement = t :=
  instantiate_of_isClosed (isClosed_mono closed (Nat.zero_le depth)) replacement

/-! ### Several arguments -/

/-- The body of abstractions with arguments for all of them, that of the outermost first. -/
def instantiateAll : Nameless α → List (Nameless α) → Nameless α
  | body, [] => body
  | body, argument :: arguments =>
      instantiateAll (body.instantiate arguments.length argument) arguments

theorem abstractions_succ (count : Nat) (body : Nameless α) :
    abstractions (count + 1) body = .lam (abstractions count body) :=
  Function.iterate_succ_apply' ..

theorem Reduces.abstractions {root? : Nameless α → Option (Nameless α)} {body next : Nameless α}
    (steps : Reduces root? body next) (count : Nat) :
    Reduces root? (abstractions count body) (abstractions count next) := by
  induction count with
  | zero => exact steps
  | succ count ih =>
      rw [abstractions_succ, abstractions_succ]
      exact ih.lam

theorem WeakReduces.applications {head next : Nameless α} (steps : WeakReduces head next)
    (arguments : List (Nameless α)) :
    WeakReduces (applications head arguments) (applications next arguments) := by
  induction arguments generalizing head next with
  | nil => exact steps
  | cons argument arguments ih => exact ih (steps.function argument)

/-- Abstractions with an argument for each of them. -/
theorem weakReduces_abstractions (body : Nameless α) (arguments : List (Nameless α)) :
    WeakReduces (applications (abstractions arguments.length body) arguments)
      (body.instantiateAll arguments) := by
  induction arguments generalizing body with
  | nil => exact .refl
  | cons argument arguments ih =>
      have first := Weak.redex (abstractions arguments.length body) argument
      rw [instantiate_abstractions, Nat.zero_add] at first
      rw [List.length_cons, abstractions_succ]
      exact (WeakReduces.applications (.single first) arguments).trans (ih _)

/-! ### Numbers -/

theorem instantiate_iterate (function t : Nameless α) (n depth : Nat) (replacement : Nameless α) :
    ((app function)^[n] t).instantiate depth replacement =
      (app (function.instantiate depth replacement))^[n] (t.instantiate depth replacement) := by
  induction n generalizing t with
  | zero => rfl
  | succ n ih => rw [Function.iterate_succ_apply, ih, Function.iterate_succ_apply, instantiate]

theorem isClosed_numeral (n : Nat) : (numeral n : Nameless α).isClosed 0 = true := by
  change ((app (.bound 1))^[n] (.bound 0) : Nameless α).isClosed 2 = true
  induction n with
  | zero => rfl
  | succ n ih =>
      rw [Function.iterate_succ_apply', isClosed, ih]
      rfl

/-- A number applies its first argument that many times to its second. -/
theorem weakReduces_numeral (n : Nat) (function t : Nameless α) :
    WeakReduces (applications (numeral n) [function, t]) ((app function)^[n] t) := by
  have steps : WeakReduces (applications (numeral n) [function, t]) _ :=
    weakReduces_abstractions ((app (.bound 1))^[n] (.bound 0)) [function, t]
  simpa [instantiateAll, instantiate_iterate, instantiate, instantiate_shift_succ,
    shift_zero_zero] using steps

theorem weakReduces_numeral_function (n : Nat) (function : Nameless α) :
    WeakReduces (.app (numeral n) function) (.lam ((app (function.shift 0 1))^[n] (.bound 0))) := by
  have steps : WeakReduces (.app (numeral n) function) _ :=
    weakReduces_abstractions (.lam ((app (.bound 1))^[n] (.bound 0))) [function]
  simpa [instantiateAll, instantiate_iterate, instantiate] using steps

/-- Iterated steps follow each other from the inside. -/
theorem Reduces.iterate {root? : Nameless α → Option (Nameless α)} {function : Nameless α}
    (value : Nat → Nameless α)
    (step : ∀ n, Reduces root? (.app function (value n)) (value (n + 1))) (n : Nat) :
    Reduces root? ((Nameless.app function)^[n] (value 0)) (value n) := by
  induction n with
  | zero => exact .refl
  | succ n ih =>
      rw [Function.iterate_succ_apply']
      exact (ih.argument function).trans (step n)

/-- Iterations of a number applied to a function are as many iterations of the function as the
product of the numbers says. -/
theorem reduces_iterate_numeral (m n : Nat) (function t : Nameless α) :
    Reduces betaRoot? ((app (.app (numeral n) function))^[m] t) ((app function)^[n * m] t) := by
  refine Reduces.iterate (fun k => (app function)^[n * k] t) (fun k => ?_) m
  rw [Nat.mul_succ, Nat.add_comm, Function.iterate_add_apply]
  exact (weakReduces_numeral n function _).reduces

/-! ### Numbers as normal forms -/

theorem normal_free (name : α) : Normal (.free name) := by
  rw [normal_iff]
  intro next step
  cases step with
  | root found => cases found

theorem not_beta_iterate (n : Nat) (next : Nameless α) :
    ¬ Beta ((app (.bound 1))^[n] (.bound 0)) next := by
  induction n generalizing next with
  | zero =>
      intro step
      cases step with
      | root found => cases found
  | succ n ih =>
      rw [Function.iterate_succ_apply']
      intro step
      cases step with
      | root found => cases found
      | function _ inFunction =>
          cases inFunction with
          | root found => cases found
      | argument _ inArgument => exact ih _ inArgument

theorem not_eta_iterate (n : Nat) (next : Nameless α) :
    ¬ Eta ((app (.bound 1))^[n] (.bound 0)) next := by
  induction n generalizing next with
  | zero => exact Eta.not_bound
  | succ n ih =>
      rw [Function.iterate_succ_apply']
      intro step
      rcases step.app_cases with ⟨_, _, inFunction⟩ | ⟨_, _, inArgument⟩
      · exact Eta.not_bound inFunction
      · exact ih _ inArgument

theorem normal_numeral (n : Nat) : Normal (numeral n : Nameless α) := by
  rw [normal_iff]
  intro next step
  cases step with
  | root found => cases found
  | lam inner =>
      cases inner with
      | root found => cases found
      | lam innermost => exact not_beta_iterate n _ innermost

/-- Only the number one has an eta redex, and it becomes the identity. -/
theorem eta_numeral {n : Nat} {next : Nameless α} (step : Eta (numeral n) next) :
    n = 1 ∧ next = .lam (.bound 0) := by
  change Eta (.lam (.lam ((app (.bound 1))^[n] (.bound 0)))) next at step
  rcases step.lam_cases with shape | ⟨inner, rfl, inBody⟩
  · cases shape
  rcases inBody.lam_cases with shape | ⟨_, _, innermost⟩
  · cases n with
    | zero => cases shape
    | succ n =>
        rw [Function.iterate_succ_apply', app.injEq] at shape
        obtain ⟨function, argument⟩ := shape
        cases n with
        | zero =>
            cases inner with
            | bound index =>
                cases function
                exact ⟨rfl, rfl⟩
            | free name => cases function
            | lam body => cases function
            | app first second => cases function
        | succ n =>
            rw [Function.iterate_succ_apply'] at argument
            cases argument
  · exact absurd innermost (not_eta_iterate n _)

theorem eta_reduct_of_numeral {n : Nat} {t : Nameless α} (steps : Reduces etaRoot? (numeral n) t) :
    t = numeral n ∨ n = 1 ∧ t = .lam (.bound 0) := by
  induction steps with
  | refl => exact Or.inl rfl
  | tail _ step ih =>
      rcases ih with rfl | ⟨_, rfl⟩
      · exact Or.inr (eta_numeral step)
      · rcases Eta.lam_cases step with shape | ⟨_, _, inBody⟩
        · cases shape
        · exact absurd inBody Eta.not_bound

theorem eta_reduct_of_free {name : α} {t : Nameless α} (steps : Reduces etaRoot? (.free name) t) :
    t = .free name := by
  induction steps with
  | refl => rfl
  | tail _ step ih =>
      subst ih
      exact absurd step Eta.not_free

/-! ### Lists and tuples -/

theorem weakReduces_nil (onCons onNil : Nameless α) :
    WeakReduces (applications nil [onCons, onNil]) onNil := by
  have steps : WeakReduces (applications nil [onCons, onNil]) _ :=
    weakReduces_abstractions (.bound 0) [onCons, onNil]
  simpa [instantiateAll, instantiate, shift_zero_zero] using steps

/-- A list hands its head and its tail to its first argument. -/
theorem weakReduces_cons (head tail onCons onNil : Nameless α) :
    WeakReduces (applications (cons head tail) [onCons, onNil])
      (applications onCons [head, tail]) := by
  have steps : WeakReduces (applications (cons head tail) [onCons, onNil]) _ :=
    weakReduces_abstractions (applications (.bound 1) ([head, tail].map (shift 0 2)))
      [onCons, onNil]
  simpa [instantiateAll, applications, instantiate, instantiate_shift_succ,
    shift_zero_zero] using steps

/-- A tuple hands its elements to its argument. -/
theorem weakReduces_tuple (elements : List (Nameless α)) (selector : Nameless α) :
    WeakReduces (.app (tuple elements) selector) (applications selector elements) := by
  have steps : WeakReduces (.app (tuple elements) selector) _ :=
    weakReduces_abstractions (applications (.bound 0) (elements.map (shift 0 1))) [selector]
  simpa [instantiateAll, instantiate_applications, instantiate_bound_zero, Function.comp_def,
    instantiate_shift] using steps

end UntypedLambda.Nameless
