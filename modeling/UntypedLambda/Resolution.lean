import UntypedLambda.Context
import UntypedLambda.Encoding.Basic
import UntypedLambda.Settings
import UntypedLambda.Surface.Error
import UntypedLambda.Surface.Expr

set_option autoImplicit false

/-! From surface syntax to terms. A name means its innermost binder, else its definition, else a
free variable, which strict settings refuse. Numbers, tuples, lists and `::` become their
encodings. -/

namespace UntypedLambda

open Surface

namespace Resolution

def freshBinders : List Name → Nat → List Var
  | [], _ => []
  | binder :: binders, supply => ⟨binder.value, supply⟩ :: freshBinders binders (supply + 1)

def resolveName (context : Context) (strict : Bool) (scope : List Var) (name : Name)
    (supply : Nat) : Except SourceError (Term × Nat) :=
  match scope.find? (fun v => v.name == name.value) with
  | some v => .ok (.var v, supply)
  | none =>
      match context.lookup? name.value supply with
      | some copy => .ok copy
      | none =>
          if strict then
            .error (.undefinedVariable name)
          else
            .ok (.var ⟨name.value, supply⟩, supply + 1)

mutual

/-- The term for an expression below the binders in `scope`, innermost first. -/
def resolve (context : Context) (strict : Bool) (scope : List Var) :
    Expr → Nat → Except SourceError (Term × Nat)
  | .var _ name, supply => resolveName context strict scope name supply
  | .nat _ value, supply => .ok (Encoding.numeral value supply)
  | .lam _ binders body, supply => do
      let vars := freshBinders binders supply
      let inner ← resolve context strict (vars.reverse ++ scope) body (supply + vars.length)
      return (Term.abstractions vars inner.1, inner.2)
  | .app _ function argument, supply => do
      let left ← resolve context strict scope function supply
      let right ← resolve context strict scope argument left.2
      return (.app left.1 right.1, right.2)
  | .tuple _ elements, supply => do
      let parts ← resolveAll context strict scope elements supply
      return Encoding.tuple parts.1 parts.2
  | .list _ elements, supply => do
      let parts ← resolveAll context strict scope elements supply
      return Encoding.list parts.1 parts.2
  | .cons _ head tail, supply => do
      let left ← resolve context strict scope head supply
      let right ← resolve context strict scope tail left.2
      return Encoding.cons left.1 right.1 right.2

def resolveAll (context : Context) (strict : Bool) (scope : List Var) :
    List Expr → Nat → Except SourceError (List Term × Nat)
  | [], supply => .ok ([], supply)
  | element :: elements, supply => do
      let first ← resolve context strict scope element supply
      let rest ← resolveAll context strict scope elements first.2
      return (first.1 :: rest.1, rest.2)

end

end Resolution

def resolveTerm (context : Context) (settings : Settings) (e : Expr) (supply : Nat) :
    Except SourceError (Term × Nat) :=
  Resolution.resolve context settings.strict [] e supply

/-- The term for the body of the definition of a name. A body that mentions the name is closed
over it by the fixed-point combinator of the settings. -/
def resolveDefinition (context : Context) (settings : Settings) (name : String) (body : Expr)
    (supply : Nat) : Except SourceError (Term × Nat) :=
  if body.mentions name then do
    let self : Var := ⟨name, supply⟩
    let inner ← Resolution.resolve context settings.strict [self] body (supply + 1)
    return settings.fixpoint.fix self inner.1 inner.2
  else
    resolveTerm context settings body supply

end UntypedLambda
