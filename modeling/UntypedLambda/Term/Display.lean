import Std.Data.TreeMap
import Std.Data.TreeSet
import UntypedLambda.Term.Basic

set_option autoImplicit false

/-! The text of a term. Nested abstractions share one `λ`, application associates to the left,
and parentheses stand only where they are needed. Binders that share a name are told apart by
a number after it, given out in the order in which the abstractions begin. -/

namespace UntypedLambda.Term

structure Naming where
  taken : Std.TreeSet String
  names : Std.TreeMap Nat String

/-- The candidates for a binder's name: the bare name, then the name with 1, 2 and so on. -/
def candidate (name : String) : Nat → String
  | 0 => name
  | number => name ++ toString number

def untakenFrom (taken : Std.TreeSet String) (name : String) : Nat → Nat → String
  | 0, number => candidate name number
  | attempts + 1, number =>
      if taken.contains (candidate name number) then
        untakenFrom taken name attempts (number + 1)
      else
        candidate name number

/-- The first candidate that is not taken: among one more than the taken names there is one. -/
def untaken (taken : Std.TreeSet String) (name : String) : String :=
  untakenFrom taken name taken.size 0

namespace Naming

/-- Names a binder, unless its identity has a name already. -/
def addBinder (naming : Naming) (binder : Var) : Naming :=
  if naming.names.contains binder.id then
    naming
  else
    let name := untaken naming.taken binder.name
    { taken := naming.taken.insert name, names := naming.names.insert binder.id name }

def addBinders (naming : Naming) : Term → Naming
  | .var _ => naming
  | .abs binder body => (naming.addBinder binder).addBinders body
  | .app function argument => (naming.addBinders function).addBinders argument

def nameOf (naming : Naming) (v : Var) : String :=
  naming.names.getD v.id v.name

end Naming

/-- The naming of a whole term: free variables keep their names, and no binder takes one. -/
def naming (t : Term) : Naming :=
  Naming.addBinders { taken := Std.TreeSet.ofList t.freeNames, names := {} } t

/-- Puts the text of a term in front of `rest`. With `inHead` the text continues the binders
of an abstraction: another abstraction adds its binder, and any other term follows the dot. -/
def renderOnto (naming : Naming) : Bool → Term → List Char → List Char
  | inHead, .var v, rest =>
      let text := (naming.nameOf v).toList ++ rest
      if inHead then '.' :: text else text
  | inHead, .abs binder body, rest =>
      (if inHead then ' ' else 'λ') ::
        ((naming.nameOf binder).toList ++ renderOnto naming true body rest)
  | inHead, .app function argument, rest =>
      let operand :=
        match argument with
        | .var v => ' ' :: ((naming.nameOf v).toList ++ rest)
        | _ => ' ' :: '(' :: renderOnto naming false argument (')' :: rest)
      let text :=
        match function with
        | .abs _ _ => '(' :: renderOnto naming false function (')' :: operand)
        | _ => renderOnto naming false function operand
      if inHead then '.' :: text else text

def render (t : Term) : String :=
  String.ofList (renderOnto t.naming false t [])

end UntypedLambda.Term
