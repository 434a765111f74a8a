import UntypedLambda.Term.Basic

set_option autoImplicit false

/-! Fixed-point combinators, which tie recursive definitions. -/

namespace UntypedLambda.Encoding

open Term

inductive Combinator where
  /-- The term `(λx y. y (x x y)) (λx y. y (x x y))`. -/
  | turing
  /-- The term `λf. (λx. f (x x)) (λx. f (x x))`. -/
  | curry
  deriving DecidableEq, Repr

def turingHalf (supply : Nat) : Term :=
  let x : Var := ⟨"x", supply⟩
  let y : Var := ⟨"y", supply + 1⟩
  abstractions [x, y]
    (.app (.var y) (applications (.var x) [.var x, .var y]))

/-- One half of Curry's combinator, below its abstraction of `f`. -/
def curryHalf (f : Var) (supply : Nat) : Term :=
  let x : Var := ⟨"x", supply⟩
  .abs x (.app (.var f) (.app (.var x) (.var x)))

namespace Combinator

def term (combinator : Combinator) (supply : Nat) : Term × Nat :=
  match combinator with
  | .turing => (.app (turingHalf supply) (turingHalf (supply + 2)), supply + 4)
  | .curry =>
      let f : Var := ⟨"f", supply⟩
      (.abs f (.app (curryHalf f (supply + 1)) (curryHalf f (supply + 2))), supply + 3)

def fix (combinator : Combinator) (self : Var) (body : Term) (supply : Nat) : Term × Nat :=
  let knot := combinator.term supply
  (.app knot.1 (.abs self body), knot.2)

end Combinator

end UntypedLambda.Encoding
