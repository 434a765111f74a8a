import UntypedLambda.Term.Basic

set_option autoImplicit false

/-! Capture-avoiding substitution. Every abstraction on the way gets a new identity, and the
occurrences that it binds follow, so a substituted term shares no binder with its surroundings.

New identities come from a supply, a number above every identity in use. A function that needs
some takes the supply and returns what is left of it beside its result. -/

namespace UntypedLambda.Term

/-- The binders that replaced the identities of the enclosing abstractions, innermost first. -/
abbrev Renaming := List (Nat × Var)

def Renaming.apply (ρ : Renaming) (v : Var) : Var :=
  (ρ.lookup v.id).getD v

def renameFrom (ρ : Renaming) : Term → Nat → Term × Nat
  | .var v, supply => (.var (ρ.apply v), supply)
  | .abs binder body, supply =>
      let fresh := binder.withId supply
      let copy := renameFrom ((binder.id, fresh) :: ρ) body (supply + 1)
      (.abs fresh copy.1, copy.2)
  | .app function argument, supply =>
      let left := renameFrom ρ function supply
      let right := renameFrom ρ argument left.2
      (.app left.1 right.1, right.2)

def freshCopy (t : Term) (supply : Nat) : Term × Nat :=
  t.renameFrom [] supply

def alphaRename (binder : Var) (body : Term) (supply : Nat) : Var × Term × Nat :=
  let fresh := binder.withId supply
  (fresh, body.renameFrom [(binder.id, fresh)] (supply + 1))

/-- Substitution below abstractions that `ρ` has renamed. An abstraction that binds `id` itself
hides it: outside every renamed one it stays as it is, and below one it is only renamed. -/
def substituteUnder (id : Nat) (replacement : Term) (ρ : Renaming) : Term → Nat → Term × Nat
  | .var v, supply =>
      if v.id == id then replacement.freshCopy supply else (.var (ρ.apply v), supply)
  | .abs binder body, supply =>
      if binder.id == id then
        if ρ.isEmpty then (.abs binder body, supply) else renameFrom ρ (.abs binder body) supply
      else
        let fresh := binder.withId supply
        let copy :=
          substituteUnder id replacement ((binder.id, fresh) :: ρ) body (supply + 1)
        (.abs fresh copy.1, copy.2)
  | .app function argument, supply =>
      let left := substituteUnder id replacement ρ function supply
      let right := substituteUnder id replacement ρ argument left.2
      (.app left.1 right.1, right.2)

/-- The term with a copy of `replacement` for every free occurrence of the identity `id`. Each
occurrence gets a copy of its own. -/
def substitute (target : Term) (id : Nat) (replacement : Term) (supply : Nat) : Term × Nat :=
  substituteUnder id replacement [] target supply

end UntypedLambda.Term
