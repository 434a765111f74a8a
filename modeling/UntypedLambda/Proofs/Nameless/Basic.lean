set_option autoImplicit false

/-! Nameless terms. A bound occurrence is the number of abstractions between it and its binder,
and a free occurrence is a name of any type. Substitution and the contraction of a redex are the
textbook ones, with a cutoff that counts the abstractions passed. -/

namespace UntypedLambda

inductive Nameless (α : Type) where
  | bound (index : Nat)
  | free (name : α)
  | lam (body : Nameless α)
  | app (function argument : Nameless α)
  deriving DecidableEq, Repr

namespace Nameless

variable {α β : Type}

def shift (cutoff amount : Nat) : Nameless α → Nameless α
  | .bound index => if index < cutoff then .bound index else .bound (index + amount)
  | .free name => .free name
  | .lam body => .lam (body.shift (cutoff + 1) amount)
  | .app function argument => .app (function.shift cutoff amount) (argument.shift cutoff amount)

/-- The term with `replacement` in the place of the index `depth`, and the indices above it
lowered. -/
def instantiate : Nameless α → Nat → Nameless α → Nameless α
  | .bound index, depth, replacement =>
      if index < depth then .bound index
      else if index = depth then replacement.shift 0 depth
      else .bound (index - 1)
  | .free name, _, _ => .free name
  | .lam body, depth, replacement => .lam (body.instantiate (depth + 1) replacement)
  | .app function argument, depth, replacement =>
      .app (function.instantiate depth replacement) (argument.instantiate depth replacement)

/-- Whether the variable that has the index `index` outside the term occurs in it. -/
def mentions (index : Nat) : Nameless α → Bool
  | .bound other => other == index
  | .free _ => false
  | .lam body => body.mentions (index + 1)
  | .app function argument => function.mentions index || argument.mentions index

def lower (cutoff : Nat) : Nameless α → Nameless α
  | .bound index => if index ≤ cutoff then .bound index else .bound (index - 1)
  | .free name => .free name
  | .lam body => .lam (body.lower (cutoff + 1))
  | .app function argument => .app (function.lower cutoff) (argument.lower cutoff)

def map (f : α → β) : Nameless α → Nameless β
  | .bound index => .bound index
  | .free name => .free (f name)
  | .lam body => .lam (body.map f)
  | .app function argument => .app (function.map f) (argument.map f)

def betaRoot? : Nameless α → Option (Nameless α)
  | .app (.lam body) argument => some (body.instantiate 0 argument)
  | _ => none

def etaRoot? : Nameless α → Option (Nameless α)
  | .lam (.app function (.bound 0)) =>
      if function.mentions 0 then none else some (function.lower 0)
  | _ => none

inductive Direction where
  | body
  | function
  | argument
  deriving DecidableEq, Repr

abbrev Position := List Direction

/-- The positions of a term in pre-order: a node before its children, the function of an
application before the argument. -/
def positions : Nameless α → List Position
  | .bound _ => [[]]
  | .free _ => [[]]
  | .lam body => [] :: body.positions.map (.body :: ·)
  | .app function argument =>
      [] :: (function.positions.map (.function :: ·) ++ argument.positions.map (.argument :: ·))

/-- The term with the redex at a position contracted, where `root?` contracts a term that is itself
a redex. There is none without a redex at the position. -/
def contractAt? (root? : Nameless α → Option (Nameless α)) (t : Nameless α)
    (position : Position) : Option (Nameless α) :=
  match position, t with
  | [], t => root? t
  | .body :: position, .lam body => (body.contractAt? root? position).map .lam
  | .function :: position, .app function argument =>
      (function.contractAt? root? position).map fun next => .app next argument
  | .argument :: position, .app function argument =>
      (argument.contractAt? root? position).map fun next => .app function next
  | _ :: _, _ => none

def contractFirst? (root? : Nameless α → Option (Nameless α)) (t : Nameless α) :
    Option (Nameless α) :=
  t.positions.findSome? (t.contractAt? root?)

end Nameless

end UntypedLambda
