import UntypedLambda.Term.Substitution

set_option autoImplicit false

/-! Church encodings of numbers, tuples and lists, and their decoders. A decoder looks at the
shape of a term alone, and a term of any other shape decodes to nothing.

An encoding takes the supply of identities for its binders and returns what is left of it. -/

namespace UntypedLambda

namespace Encoding

open Term

def iterated (f : Var) (t : Term) : Nat → Term
  | 0 => t
  | n + 1 => iterated f (.app (.var f) t) n

/-- The number `n` as `λf x. fⁿ x`. -/
def numeral (n : Nat) (supply : Nat) : Term × Nat :=
  let f : Var := ⟨"f", supply⟩
  let x : Var := ⟨"x", supply + 1⟩
  (abstractions [f, x] (iterated f (.var x) n), supply + 2)

/-- The elements as `λp. p e₁ … eₙ`. -/
def tuple (elements : List Term) (supply : Nat) : Term × Nat :=
  let p : Var := ⟨"p", supply⟩
  (.abs p (applications (.var p) elements), supply + 1)

/-- The empty list as `λx y. y`. -/
def nil (supply : Nat) : Term × Nat :=
  let y : Var := ⟨"y", supply + 1⟩
  (abstractions [⟨"x", supply⟩, y] (.var y), supply + 2)

/-- A head and a tail as `λx y. x head tail`. -/
def cons (head tail : Term) (supply : Nat) : Term × Nat :=
  let x : Var := ⟨"x", supply⟩
  (abstractions [x, ⟨"y", supply + 1⟩] (applications (.var x) [head, tail]), supply + 2)

def list : List Term → Nat → Term × Nat
  | [], supply => nil supply
  | head :: tail, supply =>
      let rest := list tail supply
      cons head rest.1 rest.2

def iterations? (f x : Nat) : Term → Option Nat
  | .var v => if v.id == x then some 0 else none
  | .abs _ _ => none
  | .app function argument =>
      if function.isVar f then (iterations? f x argument).map (· + 1) else none

/-- The number that a term encodes. The identity is what an eta step makes of one. -/
def asNumeral? : Term → Option Nat
  | .abs f body =>
      if body.isVar f.id then
        some 1
      else
        match body with
        | .abs x inner => iterations? f.id x.id inner
        | _ => none
  | _ => none

/-- The arguments of an application with `p` at its head, in front of `rest`, when `p` is not
free in any of them. -/
def argumentsOf? (p : Nat) : Term → List Term → Option (List Term)
  | .var v, rest => if v.id == p then some rest else none
  | .abs _ _, _ => none
  | .app function argument, rest =>
      if argument.occursFree p then none else argumentsOf? p function (argument :: rest)

def asTuple? : Term → Option (List Term)
  | .abs p body =>
      match argumentsOf? p.id body [] with
      | some (first :: rest) => some (first :: rest)
      | _ => none
  | _ => none

def avoids (x y : Nat) (t : Term) : Bool :=
  !t.occursFree x && !t.occursFree y

def asList? : Term → Option (List Term)
  | .abs _ (.abs y (.var v)) => if v.id == y.id then some [] else none
  | .abs x (.abs y (.app (.app headOf head) tail)) =>
      if headOf.isVar x.id && avoids x.id y.id head && avoids x.id y.id tail then
        (asList? tail).map (head :: ·)
      else
        none
  | _ => none

end Encoding

end UntypedLambda
