import Mathlib.Data.List.Forall2
import Mathlib.Data.List.Induction
import UntypedLambda.Proofs.Encoding.Application

set_option autoImplicit false

/-! Contractions inside encodings. The spine of a tuple or of a list is a redex of neither kind, so
there is a contraction only where an element has one. Where an element is the number one, an eta
step puts the identity there. -/

namespace UntypedLambda.Nameless

variable {α : Type} {root? : Nameless α → Option (Nameless α)}

/-! ### Spines -/

/-- Whether no variable is a redex of a kind, no variable with arguments is one, and no abstraction
is one unless its body ends in the variable that it binds. -/
structure SparesSpines (root? : Nameless α → Option (Nameless α)) : Prop where
  occurrence : ∀ index, root? (.bound index) = none
  spine : ∀ index front last, root? (.app (applications (.bound index) front) last) = none
  abstraction : ∀ body, (∀ function, body ≠ .app function (.bound 0)) → root? (.lam body) = none

theorem applications_concat (head : Nameless α) (front : List (Nameless α)) (last : Nameless α) :
    applications head (front ++ [last]) = .app (applications head front) last :=
  List.foldl_append

theorem spares_spines_beta : SparesSpines (betaRoot? (α := α)) where
  occurrence := fun _ => rfl
  spine := by
    intro index front last
    cases front using List.reverseRecOn with
    | nil => rfl
    | append_singleton front other _ =>
        rw [applications_concat]
        rfl
  abstraction := fun _ _ => rfl

theorem spares_spines_eta : SparesSpines (etaRoot? (α := α)) where
  occurrence := fun _ => rfl
  spine := fun _ _ _ => rfl
  abstraction := by
    intro body other
    rw [Option.eq_none_iff_forall_ne_some]
    intro next found
    exact other _ (Nameless.lam.inj ((etaRoot?_eq_some_iff _ _).mp found))

variable (spares : SparesSpines root?)

include spares

theorem not_contracts_applications {index : Nat} {arguments : List (Nameless α)}
    (inert : ∀ a ∈ arguments, ∀ next, ¬ Contracts root? a next) (next : Nameless α) :
    ¬ Contracts root? (applications (.bound index) arguments) next := by
  induction arguments using List.reverseRecOn generalizing next with
  | nil =>
      intro step
      cases step with
      | root found => cases (spares.occurrence index).symm.trans found
  | append_singleton front last ih =>
      rw [applications_concat]
      intro step
      cases step with
      | root found => cases (spares.spine index front last).symm.trans found
      | function _ inFunction =>
          exact ih (fun a member => inert a (List.mem_append_left _ member)) _ inFunction
      | argument _ inArgument =>
          exact inert last (List.mem_append_right _ List.mem_cons_self) _ inArgument

theorem not_contracts_lam {body : Nameless α} (other : ∀ function, body ≠ .app function (.bound 0))
    (inert : ∀ next, ¬ Contracts root? body next) (next : Nameless α) :
    ¬ Contracts root? (.lam body) next := by
  intro step
  cases step with
  | root found => cases (spares.abstraction body other).symm.trans found
  | lam inBody => exact inert _ inBody

/-! ### Closed elements -/

omit spares in
theorem map_shift_closed {elements : List (Nameless α)}
    (closed : ∀ e ∈ elements, e.isClosed 0 = true) (amount : Nat) :
    elements.map (shift 0 amount) = elements :=
  (List.map_congr_left fun e member => shift_closed (closed e member) 0 amount).trans
    (List.map_id' elements)

omit spares in
/-- The last of several closed arguments is not a bound variable. -/
theorem applications_ne_app_bound {index : Nat} {arguments : List (Nameless α)}
    (closed : ∀ a ∈ arguments, a.isClosed 0 = true) (function : Nameless α) :
    applications (.bound index) arguments ≠ .app function (.bound 0) := by
  cases arguments using List.reverseRecOn with
  | nil =>
      intro shape
      cases shape
  | append_singleton front last _ =>
      rw [applications_concat]
      intro shape
      have whole := closed last (List.mem_append_right _ List.mem_cons_self)
      rw [(Nameless.app.inj shape).2] at whole
      cases whole

theorem not_contracts_tuple {elements : List (Nameless α)}
    (closed : ∀ e ∈ elements, e.isClosed 0 = true)
    (inert : ∀ e ∈ elements, ∀ next, ¬ Contracts root? e next) (next : Nameless α) :
    ¬ Contracts root? (tuple elements) next := by
  rw [tuple, map_shift_closed closed]
  exact not_contracts_lam spares (applications_ne_app_bound closed)
    (not_contracts_applications spares inert) next

theorem not_contracts_pair {index : Nat} {parts : List (Nameless α)}
    (closed : ∀ e ∈ parts, e.isClosed 0 = true)
    (inert : ∀ e ∈ parts, ∀ next, ¬ Contracts root? e next) (next : Nameless α) :
    ¬ Contracts root? (abstractions 2 (applications (.bound index) parts)) next := by
  have inner : ∀ next, ¬ Contracts root? (.lam (applications (.bound index) parts)) next :=
    not_contracts_lam spares (applications_ne_app_bound closed)
      (not_contracts_applications spares inert)
  refine not_contracts_lam spares (fun function shape => ?_) inner next
  cases shape

omit spares in
theorem isClosed_applications {index depth : Nat} (lt : index < depth)
    {arguments : List (Nameless α)} (closed : ∀ a ∈ arguments, a.isClosed 0 = true) :
    (applications (.bound index) arguments).isClosed depth = true := by
  induction arguments using List.reverseRecOn with
  | nil => exact decide_eq_true lt
  | append_singleton front last ih =>
      rw [List.forall_mem_append, List.forall_mem_singleton] at closed
      rw [applications_concat, isClosed, ih closed.1, Bool.true_and]
      exact isClosed_mono closed.2 (Nat.zero_le depth)

omit spares in
theorem isClosed_tuple {elements : List (Nameless α)}
    (closed : ∀ e ∈ elements, e.isClosed 0 = true) : (tuple elements).isClosed 0 = true := by
  rw [tuple, map_shift_closed closed]
  exact isClosed_applications Nat.one_pos closed

omit spares in
theorem isClosed_list {elements : List (Nameless α)}
    (closed : ∀ e ∈ elements, e.isClosed 0 = true) : (list elements).isClosed 0 = true := by
  induction elements with
  | nil => rfl
  | cons head tail ih =>
      rw [List.forall_mem_cons] at closed
      have parts : ∀ e ∈ [head, list tail], e.isClosed 0 = true := by
        simp [closed.1, ih closed.2]
      rw [list, List.foldr_cons, ← list, cons, map_shift_closed parts]
      exact isClosed_applications Nat.one_lt_two parts

theorem not_contracts_list {elements : List (Nameless α)}
    (closed : ∀ e ∈ elements, e.isClosed 0 = true)
    (inert : ∀ e ∈ elements, ∀ next, ¬ Contracts root? e next) (next : Nameless α) :
    ¬ Contracts root? (list elements) next := by
  induction elements generalizing next with
  | nil => exact @not_contracts_pair _ _ spares 0 [] (by simp) (by simp) next
  | cons head tail ih =>
      rw [List.forall_mem_cons] at closed inert
      have parts : ∀ e ∈ [head, list tail], e.isClosed 0 = true := by
        simp [closed.1, isClosed_list closed.2]
      rw [list, List.foldr_cons, ← list, cons, map_shift_closed parts]
      refine not_contracts_pair spares parts ?_ next
      rw [List.forall_mem_cons, List.forall_mem_singleton]
      exact ⟨inert.1, ih closed.2 inert.2⟩

omit spares

/-! ### The number one and the identity -/

/-- The first term has the number one in some places where the second has the identity. -/
inductive OneForIdentity : Nameless α → Nameless α → Prop where
  | one : OneForIdentity (numeral 1) (.lam (.bound 0))
  | bound (index : Nat) : OneForIdentity (.bound index) (.bound index)
  | free (name : α) : OneForIdentity (.free name) (.free name)
  | lam {body body' : Nameless α} :
      OneForIdentity body body' → OneForIdentity (.lam body) (.lam body')
  | app {function function' argument argument' : Nameless α} :
      OneForIdentity function function' → OneForIdentity argument argument' →
      OneForIdentity (.app function argument) (.app function' argument')

namespace OneForIdentity

variable {t t' : Nameless α}

theorem refl (t : Nameless α) : OneForIdentity t t := by
  induction t with
  | bound index => exact .bound index
  | free name => exact .free name
  | lam body ih => exact .lam ih
  | app function argument ihFunction ihArgument => exact .app ihFunction ihArgument

/-- The number one becomes the identity by an eta step. -/
theorem reduces (alike : OneForIdentity t t') : Reduces etaRoot? t t' := by
  induction alike with
  | one => exact .single (.lam (Eta.redex (.bound 0)))
  | bound _ => exact .refl
  | free _ => exact .refl
  | lam _ ih => exact ih.lam
  | app _ _ ihFunction ihArgument => exact ihFunction.app ihArgument

theorem shift (alike : OneForIdentity t t') (cutoff amount : Nat) :
    OneForIdentity (t.shift cutoff amount) (t'.shift cutoff amount) := by
  induction alike generalizing cutoff with
  | one =>
      have identity : ((.lam (.bound 0) : Nameless α)).isClosed 0 = true := rfl
      rw [shift_closed (isClosed_numeral 1), shift_closed identity]
      exact .one
  | bound index => exact .refl _
  | free name => exact .free name
  | lam _ ih => exact .lam (ih _)
  | app _ _ ihFunction ihArgument => exact .app (ihFunction cutoff) (ihArgument cutoff)

theorem abstractions (alike : OneForIdentity t t') (count : Nat) :
    OneForIdentity (Nameless.abstractions count t) (Nameless.abstractions count t') := by
  induction count with
  | zero => exact alike
  | succ count ih =>
      rw [abstractions_succ, abstractions_succ]
      exact .lam ih

section Elements

variable {elements elements' : List (Nameless α)}
  (alike : List.Forall₂ OneForIdentity elements elements')

include alike

theorem raised (index amount : Nat) :
    OneForIdentity (applications (.bound index) (elements.map (Nameless.shift 0 amount)))
      (applications (.bound index) (elements'.map (Nameless.shift 0 amount))) := by
  have lifted {head head' : Nameless α} (atHead : OneForIdentity head head') :
      OneForIdentity (applications head (elements.map (Nameless.shift 0 amount)))
        (applications head' (elements'.map (Nameless.shift 0 amount))) := by
    induction alike generalizing head head' with
    | nil => exact atHead
    | cons here _ ih => exact ih (.app atHead (here.shift 0 amount))
  exact lifted (.bound index)

theorem tuple : OneForIdentity (Nameless.tuple elements) (Nameless.tuple elements') :=
  (raised alike 0 1).abstractions 1

theorem list : OneForIdentity (Nameless.list elements) (Nameless.list elements') := by
  induction alike with
  | nil => exact .refl _
  | cons here _ ih => exact (raised (.cons here (.cons ih .nil)) 1 2).abstractions 2

end Elements

end OneForIdentity

end UntypedLambda.Nameless
