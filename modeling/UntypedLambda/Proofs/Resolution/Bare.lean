import UntypedLambda.Proofs.Except
import UntypedLambda.Proofs.Surface.Bare
import UntypedLambda.Resolution

set_option autoImplicit false

/-! Resolution does not look at places. Expressions that are written alike are resolved to the same
term, or refused because of the same name. -/

namespace UntypedLambda

open Surface

namespace Resolution

theorem freshBinders_bare (binders : List Name) (supply : Nat) :
    freshBinders (binders.map Name.bare) supply = freshBinders binders supply := by
  induction binders generalizing supply with
  | nil => rfl
  | cons binder binders ih => rw [List.map_cons, freshBinders, ih]; rfl

theorem resolveName_bare (context : Context) (strict : Bool) (scope : List Var) (name : Name)
    (supply : Nat) :
    resolveName context strict scope name.bare supply =
      (resolveName context strict scope name supply).mapError SourceError.bare := by
  unfold resolveName
  rw [show name.bare.value = name.value from rfl]
  split
  · rfl
  · split
    · rfl
    · split
      · rfl
      · rfl

variable {context : Context} {strict : Bool}

mutual

/-- An expression without its places has the same term, or the same error but for its place. -/
theorem resolve_bare (scope : List Var) (e : Expr) (supply : Nat) :
    resolve context strict scope e.bare supply =
      (resolve context strict scope e supply).mapError SourceError.bare := by
  match e with
  | .var _ name => exact resolveName_bare context strict scope name supply
  | .nat _ _ => rfl
  | .lam _ binders body =>
      rw [Expr.bare, resolve, resolve, freshBinders_bare, resolve_bare _ body,
        Except.mapError_bind]
      rfl
  | .app _ function argument =>
      simp only [Expr.bare, resolve, Except.mapError_bind, resolve_bare scope function,
        resolve_bare scope argument]
      rfl
  | .tuple _ elements =>
      rw [Expr.bare, resolve, resolve, resolveAll_bare scope elements, Except.mapError_bind]
      rfl
  | .list _ elements =>
      rw [Expr.bare, resolve, resolve, resolveAll_bare scope elements, Except.mapError_bind]
      rfl
  | .cons _ head tail =>
      simp only [Expr.bare, resolve, Except.mapError_bind, resolve_bare scope head,
        resolve_bare scope tail]
      rfl

theorem resolveAll_bare (scope : List Var) (elements : List Expr) (supply : Nat) :
    resolveAll context strict scope (Expr.bareAll elements) supply =
      (resolveAll context strict scope elements supply).mapError SourceError.bare := by
  match elements with
  | [] => rfl
  | element :: rest =>
      simp only [Expr.bareAll, resolveAll, Except.mapError_bind, resolve_bare scope element,
        resolveAll_bare scope rest]
      rfl

end

end Resolution

theorem resolveTerm_bare (context : Context) (settings : Settings) (e : Expr) (supply : Nat) :
    resolveTerm context settings e.bare supply =
      (resolveTerm context settings e supply).mapError SourceError.bare :=
  Resolution.resolve_bare [] e supply

/-- The places of an expression make no difference to the term that it is resolved to. -/
theorem resolveTerm_bare_eq_ok_iff {context : Context} {settings : Settings} {e : Expr}
    {supply : Nat} {result : Term × Nat} :
    resolveTerm context settings e.bare supply = .ok result ↔
      resolveTerm context settings e supply = .ok result := by
  rw [resolveTerm_bare, Except.mapError_eq_ok_iff]

theorem resolveDefinition_bare (context : Context) (settings : Settings) (name : String)
    (body : Expr) (supply : Nat) :
    resolveDefinition context settings name body.bare supply =
      (resolveDefinition context settings name body supply).mapError SourceError.bare := by
  unfold resolveDefinition
  rw [Expr.mentions_bare]
  split
  · dsimp only
    rw [Resolution.resolve_bare, Except.mapError_bind]
    rfl
  · exact resolveTerm_bare context settings body supply

end UntypedLambda
