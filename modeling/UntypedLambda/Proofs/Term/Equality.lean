import UntypedLambda.Proofs.Term.Reading
import UntypedLambda.Term.Alpha

set_option autoImplicit false

/-! Equality up to bound variables is equality of nameless readings, with the free occurrences
taken by name. -/

namespace UntypedLambda.Term

/-- The nameless reading of a term with the free occurrences taken by name. -/
def namelessByName (t : Term) : Nameless String :=
  t.nameless.map Var.name

def readByName (scope : List Var) (t : Term) : Nameless String :=
  (t.readUnder (scope.map Var.id)).map Var.name

private theorem sameVariable_iff (binders : List (Nat × Nat)) (left right : Var) :
    sameVariable binders left right = true ↔
      (readOccurrence (binders.map Prod.fst) left).map Var.name =
        (readOccurrence (binders.map Prod.snd) right).map Var.name := by
  unfold sameVariable readOccurrence
  rw [List.findIdx?_map, List.findIdx?_map]
  simp only [Function.comp_def]
  cases binders.findIdx? (fun pair => pair.1 == left.id) <;>
    cases binders.findIdx? (fun pair => pair.2 == right.id) <;>
    simp [Nameless.map]

theorem alphaEqualUnder_iff (binders : List (Nat × Nat)) (left right : Term) :
    alphaEqualUnder binders left right = true ↔
      (left.readUnder (binders.map Prod.fst)).map Var.name =
        (right.readUnder (binders.map Prod.snd)).map Var.name := by
  induction left generalizing binders right with
  | var v =>
      cases right with
      | var w => exact sameVariable_iff binders v w
      | abs binder body =>
          simp only [alphaEqualUnder, readUnder, readOccurrence]
          split <;> simp [Nameless.map]
      | app function argument =>
          simp only [alphaEqualUnder, readUnder, readOccurrence]
          split <;> simp [Nameless.map]
  | abs binder body ih =>
      cases right with
      | var w =>
          simp only [alphaEqualUnder, readUnder, readOccurrence]
          split <;> simp [Nameless.map]
      | abs binder' body' =>
          simp only [alphaEqualUnder, readUnder, Nameless.map, Nameless.lam.injEq]
          exact ih ((binder.id, binder'.id) :: binders) body'
      | app function argument => simp [alphaEqualUnder, readUnder, Nameless.map]
  | app function argument ihFunction ihArgument =>
      cases right with
      | var w =>
          simp only [alphaEqualUnder, readUnder, readOccurrence]
          split <;> simp [Nameless.map]
      | abs binder body => simp [alphaEqualUnder, readUnder, Nameless.map]
      | app function' argument' =>
          simp only [alphaEqualUnder, readUnder, Nameless.map, Nameless.app.injEq,
            Bool.and_eq_true]
          rw [ihFunction binders function', ihArgument binders argument']

theorem alphaEqual_iff (left right : Term) :
    left.alphaEqual right = true ↔ left.namelessByName = right.namelessByName :=
  alphaEqualUnder_iff [] left right

end UntypedLambda.Term
