import UntypedLambda.Proofs.Resolution.Scope
import UntypedLambda.Proofs.Surface.Occurrences

set_option autoImplicit false

/-! When names are not resolved. Strict settings refuse an expression for its first free occurrence
of a name without a binder in scope and without a definition, and nothing else is ever refused. -/

namespace UntypedLambda.Resolution

open Surface

def isUndefined (context : Context) (scope : List Var) (name : Name) : Bool :=
  !(scope.any fun v => v.name == name.value) && !context.contains name.value

def refusal? (context : Context) (strict : Bool) (scope : List Var) (occurrences : List Name) :
    Option SourceError :=
  if strict then
    (occurrences.find? (isUndefined context scope)).map SourceError.undefinedVariable
  else
    none

variable {context : Context} {strict : Bool}

theorem refusal?_nil (scope : List Var) : refusal? context strict scope [] = none := by
  cases strict <;> rfl

theorem refusal?_append (scope : List Var) (first second : List Name) :
    refusal? context strict scope (first ++ second) =
      (refusal? context strict scope first).or (refusal? context strict scope second) := by
  cases strict with
  | false => rfl
  | true =>
      simp only [refusal?, if_true, List.find?_append]
      cases first.find? (isUndefined context scope) <;> simp

theorem isUndefined_freshBinders (binders : List Name) (supply : Nat) (scope : List Var)
    (name : Name) :
    isUndefined context ((freshBinders binders supply).reverse ++ scope) name =
      (unboundBy binders name && isUndefined context scope name) := by
  have byName : (freshBinders binders supply).any (fun v => v.name == name.value) =
      binders.any fun binder => binder.value == name.value := by
    have names := congrArg (List.any · fun text => text == name.value)
      (map_name_freshBinders binders supply)
    simpa only [List.any_map, Function.comp_def] using names
  have unbound : unboundBy binders name =
      !(binders.any fun binder => binder.value == name.value) := by
    rw [unboundBy, List.not_any_eq_all_not]
    rfl
  rw [isUndefined, List.any_append, List.any_reverse, byName, unbound, Bool.not_or, Bool.and_assoc]
  rfl

theorem refusal?_freshBinders (binders : List Name) (supply : Nat) (scope : List Var)
    (occurrences : List Name) :
    refusal? context strict ((freshBinders binders supply).reverse ++ scope) occurrences =
      refusal? context strict scope (occurrences.filter (unboundBy binders)) := by
  have same : isUndefined context ((freshBinders binders supply).reverse ++ scope) =
      fun name => unboundBy binders name && isUndefined context scope name :=
    funext fun name => isUndefined_freshBinders binders supply scope name
  simp only [refusal?, List.find?_filter, same, Bool.decide_and, Bool.decide_eq_true]

theorem resolveName_error? (scope : List Var) (name : Name) (supply : Nat) :
    Except.error? (resolveName context strict scope name supply) =
      refusal? context strict scope [name] := by
  unfold resolveName
  cases found : scope.find? (fun v => v.name == name.value) with
  | some v =>
      have bound : (scope.any fun v => v.name == name.value) = true := by
        have named := List.find?_some found
        rw [List.any_eq_true]
        exact ⟨v, List.mem_of_find?_eq_some found, named⟩
      cases strict <;> simp [refusal?, isUndefined, bound, Except.error?]
  | none =>
      have unbound : (scope.any fun v => v.name == name.value) = false := by
        simpa [List.any_eq_false] using List.find?_eq_none.mp found
      cases definition : context.find? name.value with
      | some t =>
          cases strict <;>
            simp [refusal?, isUndefined, unbound, Context.lookup?, Context.contains, definition,
              Except.error?]
      | none =>
          cases strict <;>
            simp [refusal?, isUndefined, unbound, Context.lookup?, Context.contains, definition,
              Except.error?]

mutual

theorem resolve_error? (e : Expr) (scope : List Var) (supply : Nat) :
    Except.error? (resolve context strict scope e supply) =
      refusal? context strict scope e.occurrences := by
  match e with
  | .var _ name => exact resolveName_error? scope name supply
  | .nat _ value => exact (refusal?_nil scope).symm
  | .lam _ binders body =>
      rw [resolve, Except.error?_map, resolve_error? body, refusal?_freshBinders, Expr.occurrences]
  | .app _ function argument =>
      rw [resolve, Expr.occurrences, refusal?_append, ← resolve_error? function scope supply]
      refine Except.error?_bind _ _ fun left => ?_
      rw [Except.error?_map, resolve_error? argument]
  | .tuple _ elements =>
      rw [resolve, Except.error?_map, resolveAll_error? elements, Expr.occurrences]
  | .list _ elements =>
      rw [resolve, Except.error?_map, resolveAll_error? elements, Expr.occurrences]
  | .cons _ head tail =>
      rw [resolve, Expr.occurrences, refusal?_append, ← resolve_error? head scope supply]
      refine Except.error?_bind _ _ fun left => ?_
      rw [Except.error?_map, resolve_error? tail]

theorem resolveAll_error? (elements : List Expr) (scope : List Var) (supply : Nat) :
    Except.error? (resolveAll context strict scope elements supply) =
      refusal? context strict scope (Expr.allOccurrences elements) := by
  match elements with
  | [] => exact (refusal?_nil scope).symm
  | element :: rest =>
      rw [resolveAll, Expr.allOccurrences, refusal?_append, ← resolve_error? element scope supply]
      refine Except.error?_bind _ _ fun first => ?_
      rw [Except.error?_map, resolveAll_error? rest]

end

/-- An expression is resolved unless one of its free occurrences is refused. -/
theorem exists_resolve_iff (e : Expr) (scope : List Var) (supply : Nat) :
    (∃ result, resolve context strict scope e supply = .ok result) ↔
      strict = true → ∀ name ∈ e.occurrences, isUndefined context scope name = false := by
  rw [← Except.error?_eq_none_iff, resolve_error?]
  cases strict <;> simp [refusal?]

end UntypedLambda.Resolution
