import UntypedLambda.Term.Substitution

set_option autoImplicit false

/-! Single reduction steps. A beta redex is an abstraction applied to an argument, and an eta
redex is `λv. f v` with `v` not free in `f`. The strategy chooses the beta redex to contract; the
eta redex is always the outermost and leftmost one. -/

namespace UntypedLambda.Term

inductive Strategy where
  /-- Normal order: the outermost redex that begins leftmost. -/
  | leftmostOutermost
  /-- The redex at the head of the term. Below a variable at the head it goes on only with an
  argument that is an application. -/
  | leftmost
  deriving DecidableEq, Repr

inductive Mode where
  | beta
  | eta
  /-- A beta redex when there is one, an eta redex otherwise. -/
  | both
  deriving DecidableEq, Repr

def contract? (function argument : Term) (supply : Nat) : Option (Term × Nat) :=
  match function with
  | .abs binder body => some (body.substitute binder.id argument supply)
  | _ => none

def betaOutermost? : Term → Nat → Option (Term × Nat)
  | .var _, _ => none
  | .abs binder body, supply =>
      (betaOutermost? body supply).map fun next => (.abs binder next.1, next.2)
  | .app function argument, supply =>
      match contract? function argument supply with
      | some next => some next
      | none =>
          match betaOutermost? function supply with
          | some next => some (.app next.1 argument, next.2)
          | none =>
              (betaOutermost? argument supply).map fun next => (.app function next.1, next.2)

/-- A beta step at the head, which may miss redexes elsewhere. -/
def betaHead? : Term → Nat → Option (Term × Nat)
  | .var _, _ => none
  | .abs binder body, supply =>
      (betaHead? body supply).map fun next => (.abs binder next.1, next.2)
  | .app function argument, supply =>
      match function with
      | .abs _ _ => contract? function argument supply
      | .app _ _ => (betaHead? function supply).map fun next => (.app next.1 argument, next.2)
      | .var _ =>
          match argument with
          | .app _ _ =>
              (betaHead? argument supply).map fun next => (.app function next.1, next.2)
          | _ => none

def betaStep? (strategy : Strategy) (t : Term) (supply : Nat) : Option (Term × Nat) :=
  match strategy with
  | .leftmostOutermost => betaOutermost? t supply
  | .leftmost => betaHead? t supply

/-- The function `f` of an eta redex `λv. f v`, given `v` and the body. -/
def etaContract? (binder : Var) : Term → Option Term
  | .app function argument =>
      if argument.isVar binder.id && !function.occursFree binder.id then some function else none
  | _ => none

def etaStep? : Term → Option Term
  | .var _ => none
  | .abs binder body =>
      match etaContract? binder body with
      | some function => some function
      | none => (etaStep? body).map fun next => .abs binder next
  | .app function argument =>
      match etaStep? function with
      | some next => some (.app next argument)
      | none => (etaStep? argument).map fun next => .app function next

def hasBetaRedex (strategy : Strategy) : Term → Bool
  | .var _ => false
  | .abs _ body => body.hasBetaRedex strategy
  | .app function argument =>
      match strategy, function with
      | _, .abs _ _ => true
      | .leftmostOutermost, _ => function.hasBetaRedex strategy || argument.hasBetaRedex strategy
      | .leftmost, .app _ _ => function.hasBetaRedex strategy
      | .leftmost, .var _ => argument.kind == .application && argument.hasBetaRedex strategy

def hasEtaRedex : Term → Bool
  | .var _ => false
  | .abs binder body => (etaContract? binder body).isSome || body.hasEtaRedex
  | .app function argument => function.hasEtaRedex || argument.hasEtaRedex

/-- Whether there is nothing to contract, decided without contracting. -/
def isNormal (mode : Mode) (strategy : Strategy) (t : Term) : Bool :=
  match mode with
  | .beta => !t.hasBetaRedex strategy
  | .eta => !t.hasEtaRedex
  | .both => !t.hasBetaRedex strategy && !t.hasEtaRedex

def step? (mode : Mode) (strategy : Strategy) (t : Term) (supply : Nat) : Option (Term × Nat) :=
  match mode with
  | .beta => betaStep? strategy t supply
  | .eta => (etaStep? t).map fun next => (next, supply)
  | .both => betaStep? strategy t supply <|> (etaStep? t).map fun next => (next, supply)

end UntypedLambda.Term
