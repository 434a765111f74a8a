import UntypedLambda.Term.Reduction.Step

set_option autoImplicit false

/-! Repeated reduction. A run makes at most `limit` steps and shows an observer every term it
passes, together with the number of steps that led to it. -/

namespace UntypedLambda.Term

/-- How a run ends: its last term, the steps made, whether a redex was left when the limit was
reached, and the supply of identities that is left. -/
structure Reduction where
  term : Term
  steps : Nat
  exhausted : Bool
  supply : Nat

/-- Continues a run from `t`, which `steps` steps have led to and the observer has seen. -/
def runFrom {σ : Type} (mode : Mode) (strategy : Strategy) (observe : σ → Nat → Term → σ) :
    Nat → Nat → Term → Nat → σ → Reduction × σ
  | 0, steps, t, supply, seen =>
      (⟨t, steps, !t.isNormal mode strategy, supply⟩, seen)
  | limit + 1, steps, t, supply, seen =>
      match step? mode strategy t supply with
      | none => (⟨t, steps, false, supply⟩, seen)
      | some next =>
          runFrom mode strategy observe limit (steps + 1) next.1 next.2
            (observe seen (steps + 1) next.1)

/-- Reduces a term by at most `limit` steps, and folds the observer over the terms on the way
from `seen` on. The term itself comes first, after no steps. -/
def reduceWith {σ : Type} (mode : Mode) (strategy : Strategy) (limit : Nat) (t : Term)
    (supply : Nat) (observe : σ → Nat → Term → σ) (seen : σ) : Reduction × σ :=
  runFrom mode strategy observe limit 0 t supply (observe seen 0 t)

def reduce (mode : Mode) (strategy : Strategy) (limit : Nat) (t : Term) (supply : Nat) :
    Reduction :=
  (reduceWith mode strategy limit t supply (fun (_ : Unit) _ _ => ()) ()).1

end UntypedLambda.Term
