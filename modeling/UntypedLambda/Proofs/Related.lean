import Mathlib.Data.List.Forall2

set_option autoImplicit false

/-! Corresponding results of two computations. Both fail, with the same error, or both succeed, and
lists correspond element by element. -/

namespace UntypedLambda

namespace Option

variable {α α' β β' : Type} {P : α → α' → Prop} {Q : β → β' → Prop} {x : Option α}
  {x' : Option α'}

theorem rel_cases (results : Option.Rel P x x') :
    (x = none ∧ x' = none) ∨ ∃ a a', x = some a ∧ x' = some a' ∧ P a a' := by
  cases results with
  | none => exact Or.inl ⟨rfl, rfl⟩
  | some related => exact Or.inr ⟨_, _, rfl, rfl, related⟩

theorem rel_map {f : α → β} {f' : α' → β'} (results : Option.Rel P x x')
    (image : ∀ a a', P a a' → Q (f a) (f' a')) : Option.Rel Q (x.map f) (x'.map f') := by
  cases results with
  | none => exact .none
  | some related => exact .some (image _ _ related)

end Option

namespace Except

variable {ε α α' β β' : Type}

inductive Rel (P : α → α' → Prop) : Except ε α → Except ε α' → Prop where
  | ok {a : α} {a' : α'} : P a a' → Rel P (.ok a) (.ok a')
  | error (e : ε) : Rel P (.error e) (.error e)

variable {P : α → α' → Prop} {Q : β → β' → Prop} {x : Except ε α} {x' : Except ε α'}

theorem Rel.cases (results : Rel P x x') :
    (∃ e, x = .error e ∧ x' = .error e) ∨ ∃ a a', x = .ok a ∧ x' = .ok a' ∧ P a a' := by
  cases results with
  | error e => exact Or.inl ⟨e, rfl, rfl⟩
  | ok related => exact Or.inr ⟨_, _, rfl, rfl, related⟩

theorem Rel.bind {f : α → Except ε β} {f' : α' → Except ε β'} (results : Rel P x x')
    (next : ∀ a a', P a a' → Rel Q (f a) (f' a')) : Rel Q (x >>= f) (x' >>= f') := by
  cases results with
  | error e => exact .error e
  | ok related => exact next _ _ related

end Except

namespace List

theorem map_eq_of_forall₂ {α β : Type} {P : α → α → Prop} {f : α → β} {items items' : List α}
    (related : List.Forall₂ P items items')
    (image : ∀ a ∈ items, ∀ a', P a a' → f a = f a') : items.map f = items'.map f := by
  induction related with
  | nil => rfl
  | cons first _ ih =>
      rw [List.map_cons, List.map_cons, image _ List.mem_cons_self _ first,
        ih fun a member => image a (List.mem_cons_of_mem _ member)]

end List

end UntypedLambda
