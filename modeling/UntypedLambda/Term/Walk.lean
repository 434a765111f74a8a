import Std.Data.HashSet
import UntypedLambda.Term.Basic

set_option autoImplicit false

/-! Free occurrences by a walk through a term. The parts that are still to be visited lie on a
stack, so that a deep term needs no deep recursion. -/

namespace UntypedLambda.Term

/-- Looks for a free occurrence of an identity in the pending terms, the one on top first. An
application gives way to its parts, the function on top, and an abstraction to its body, unless it
binds the identity. -/
def searchPending (id : Nat) : List Term → Bool
  | [] => false
  | .var v :: pending => if v.id == id then true else searchPending id pending
  | .abs binder body :: pending =>
      if binder.id == id then searchPending id pending else searchPending id (body :: pending)
  | .app function argument :: pending => searchPending id (function :: argument :: pending)
termination_by pending => pending.foldr (fun t total => t.size + total) 0
decreasing_by all_goals simp only [List.foldr_cons, size]; omega

structure Unvisited where
  bound : List Nat
  term : Term

/-- Visits the pending parts, the one on top first. The names of the free variables on the way are
put at the end of `names`, unless they are among those `seen`. -/
def collectPending (seen : Std.HashSet String) (names : List String) :
    List Unvisited → List String
  | [] => names
  | ⟨bound, .var v⟩ :: pending =>
      if bound.contains v.id then
        collectPending seen names pending
      else if seen.contains v.name then
        collectPending seen names pending
      else
        collectPending (seen.insert v.name) (names ++ [v.name]) pending
  | ⟨bound, .abs binder body⟩ :: pending =>
      collectPending seen names (⟨binder.id :: bound, body⟩ :: pending)
  | ⟨bound, .app function argument⟩ :: pending =>
      collectPending seen names (⟨bound, function⟩ :: ⟨bound, argument⟩ :: pending)
termination_by pending => pending.foldr (fun part total => part.term.size + total) 0
decreasing_by all_goals simp only [List.foldr_cons, size]; omega

def searchFree (t : Term) (id : Nat) : Bool :=
  searchPending id [t]

def walkFreeNames (t : Term) : List String :=
  collectPending {} [] [⟨[], t⟩]

end UntypedLambda.Term
