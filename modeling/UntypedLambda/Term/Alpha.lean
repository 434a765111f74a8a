import UntypedLambda.Term.Basic

set_option autoImplicit false

/-! Equality of terms up to the choice of bound variables. -/

namespace UntypedLambda.Term

/-- Whether two variables agree below abstractions whose binders are paired up in `binders`,
innermost first: either the same pair binds both, or nothing binds them and their names agree. -/
def sameVariable (binders : List (Nat × Nat)) (left right : Var) : Bool :=
  match binders.findIdx? (fun pair => pair.1 == left.id),
      binders.findIdx? (fun pair => pair.2 == right.id) with
  | some depth, some depth' => depth == depth'
  | none, none => left.name == right.name
  | _, _ => false

def alphaEqualUnder (binders : List (Nat × Nat)) : Term → Term → Bool
  | .var left, .var right => sameVariable binders left right
  | .abs left body, .abs right body' =>
      alphaEqualUnder ((left.id, right.id) :: binders) body body'
  | .app function argument, .app function' argument' =>
      alphaEqualUnder binders function function' && alphaEqualUnder binders argument argument'
  | _, _ => false

/-- Equality up to a consistent choice of bound variables. Free variables agree by name. -/
def alphaEqual (left right : Term) : Bool :=
  alphaEqualUnder [] left right

end UntypedLambda.Term
