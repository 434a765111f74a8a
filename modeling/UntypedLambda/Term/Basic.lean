set_option autoImplicit false

/-! Terms of the untyped lambda calculus. A variable carries a name for display and an identity,
and only the identity decides which abstraction binds an occurrence: the innermost enclosing one
whose binder has the same identity. -/

namespace UntypedLambda

/-- A variable: the name it is shown by and the identity it is bound by. -/
structure Var where
  name : String
  id : Nat
  deriving DecidableEq, Repr

def Var.withId (v : Var) (id : Nat) : Var :=
  { v with id := id }

/-- A lambda term. Its equality compares names and identities. -/
inductive Term where
  | var (v : Var)
  | abs (binder : Var) (body : Term)
  | app (function argument : Term)
  deriving DecidableEq, Repr

namespace Term

inductive Kind where
  | variable
  | abstraction
  | application
  deriving DecidableEq, Repr

def Kind.text : Kind → String
  | .variable => "variable"
  | .abstraction => "abstraction"
  | .application => "application"

def kind : Term → Kind
  | .var _ => .variable
  | .abs _ _ => .abstraction
  | .app _ _ => .application

def size : Term → Nat
  | .var _ => 1
  | .abs _ body => body.size + 1
  | .app function argument => function.size + argument.size + 1

/-- The abstraction of several binders, the first one outermost. -/
def abstractions (binders : List Var) (body : Term) : Term :=
  binders.foldr .abs body

def applications (head : Term) (arguments : List Term) : Term :=
  arguments.foldl .app head

theorem applications_concat (head : Term) (front : List Term) (last : Term) :
    applications head (front ++ [last]) = .app (applications head front) last :=
  List.foldl_append

def isVar (id : Nat) : Term → Bool
  | .var v => v.id == id
  | _ => false

/-- Whether the identity `id` occurs under no abstraction that binds it. -/
def occursFree (id : Nat) : Term → Bool
  | .var v => v.id == id
  | .abs binder body => binder.id != id && body.occursFree id
  | .app function argument => function.occursFree id || argument.occursFree id

/-- Adds the free names of a term to the names `seen` so far, latest first. The identities in
`bound` belong to the enclosing abstractions. -/
def collectFree (bound : List Nat) : Term → List String → List String
  | .var v, seen => if bound.contains v.id || seen.contains v.name then seen else v.name :: seen
  | .abs binder body, seen => body.collectFree (binder.id :: bound) seen
  | .app function argument, seen =>
      argument.collectFree bound (function.collectFree bound seen)

/-- The names of the free variables, each once, in the order of their first occurrences. -/
def freeNames (t : Term) : List String :=
  (t.collectFree [] []).reverse

end Term

end UntypedLambda
