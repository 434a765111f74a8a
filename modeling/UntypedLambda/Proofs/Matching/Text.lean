import UntypedLambda.Encoding.Describe
import UntypedLambda.Proofs.Matching.Term
import UntypedLambda.Proofs.Term.Naming
import UntypedLambda.Proofs.Term.Spelling

set_option autoImplicit false

/-! The texts of terms that differ only in their identities. Binders are numbered in the order in
which they begin, whatever their identities, so matching terms have the same text, and what they
encode has the same text as well. -/

namespace UntypedLambda

variable {R : Nat → Nat → Prop}

namespace Term

/-! ### Names -/

structure Naming.Matches (R : Nat → Nat → Prop) (naming naming' : Naming) : Prop where
  taken : naming.taken = naming'.taken
  names : ∀ id id', R id id' → naming.names[id]? = naming'.names[id']?

section

variable {naming naming' : Naming} {t t' : Term}

theorem Naming.Matches.addBinder (one : Relator.BiUnique R) (namings : naming.Matches R naming')
    {binder binder' : Var} (binders : binder.Matches R binder') :
    (naming.addBinder binder).Matches R (naming'.addBinder binder') := by
  unfold Naming.addBinder
  rw [Std.TreeMap.contains_eq_isSome_getElem?, Std.TreeMap.contains_eq_isSome_getElem?,
    namings.names _ _ binders.id, namings.taken, binders.name]
  split
  · exact namings
  · refine ⟨rfl, fun id id' ids => ?_⟩
    have same := beq_eq_of_biUnique one binders.id ids
    rw [Bool.eq_iff_iff, beq_iff_eq, beq_iff_eq] at same
    rw [getElem?_insert_name, getElem?_insert_name, namings.names id id' ids]
    simp only [same]

theorem Naming.Matches.addBinders (one : Relator.BiUnique R) (namings : naming.Matches R naming')
    (alike : t.Matches R t') : (naming.addBinders t).Matches R (naming'.addBinders t') := by
  induction alike generalizing naming naming' with
  | var _ => exact namings
  | abs binders _ ih => exact ih (namings.addBinder one binders)
  | app _ _ ihFunction ihArgument => exact ihArgument (ihFunction namings)

end

theorem Matches.naming {t t' : Term} (one : Relator.BiUnique R) (alike : t.Matches R t') :
    t.naming.Matches R t'.naming := by
  refine Naming.Matches.addBinders one ⟨?_, fun _ _ _ => by simp⟩ alike
  rw [alike.freeNames one]

variable {shown shown' : Naming} {t t' : Term}

theorem Naming.Matches.nameOf (namings : shown.Matches R shown') {v v' : Var}
    (vars : v.Matches R v') : shown.nameOf v = shown'.nameOf v' := by
  rw [Naming.nameOf, Naming.nameOf, Std.TreeMap.getD_eq_getD_getElem?,
    Std.TreeMap.getD_eq_getD_getElem?, namings.names _ _ vars.id, vars.name]

/-! ### Texts -/

theorem Matches.functionOnto (alike : t.Matches R t')
    (same : ∀ rest, renderOnto shown false t rest = renderOnto shown' false t' rest)
    (rest : List Char) : functionOnto shown t rest = functionOnto shown' t' rest := by
  cases alike with
  | var _ => exact same rest
  | abs _ _ => exact congrArg ('(' :: ·) (same (')' :: rest))
  | app _ _ => exact same rest

theorem Matches.argumentOnto (alike : t.Matches R t')
    (same : ∀ rest, renderOnto shown false t rest = renderOnto shown' false t' rest)
    (rest : List Char) : argumentOnto shown t rest = argumentOnto shown' t' rest := by
  cases alike with
  | var _ => exact congrArg (' ' :: ·) (same rest)
  | abs _ _ => exact congrArg (' ' :: '(' :: ·) (same (')' :: rest))
  | app _ _ => exact congrArg (' ' :: '(' :: ·) (same (')' :: rest))

theorem Matches.renderOnto (namings : shown.Matches R shown') (alike : t.Matches R t')
    (inHead : Bool) (rest : List Char) :
    renderOnto shown inHead t rest = renderOnto shown' inHead t' rest := by
  induction alike generalizing inHead rest with
  | var vars => rw [Term.renderOnto, Term.renderOnto, namings.nameOf vars]
  | abs binders _ ih => rw [Term.renderOnto, Term.renderOnto, namings.nameOf binders, ih]
  | app functions arguments ihFunction ihArgument =>
      rw [renderOnto_app, renderOnto_app, arguments.argumentOnto (ihArgument false),
        functions.functionOnto (ihFunction false)]

/-- The text of a term does not depend on its identities. -/
theorem Matches.render (one : Relator.BiUnique R) (alike : t.Matches R t') :
    t.render = t'.render := by
  rw [Term.render, Term.render, Matches.renderOnto (alike.naming one) alike]

end Term

/-! ### Values -/

namespace Encoding

open Term

variable {t t' : Term} {id id' : Nat}

theorem iterations?_eq (one : Relator.BiUnique R) {f f' x x' : Nat} (fs : R f f') (xs : R x x')
    (alike : t.Matches R t') : iterations? f x t = iterations? f' x' t' := by
  induction alike with
  | var vars => rw [iterations?, iterations?, beq_eq_of_biUnique one vars.id xs]
  | abs _ _ => rfl
  | app functions _ _ ihArgument =>
      rw [iterations?, iterations?, functions.isVar one fs, ihArgument]

theorem asNumeral?_eq (one : Relator.BiUnique R) (alike : t.Matches R t') :
    asNumeral? t = asNumeral? t' := by
  cases alike with
  | var _ => rfl
  | app _ _ => rfl
  | abs fs bodies =>
      unfold asNumeral?
      dsimp only
      rw [bodies.isVar one fs.id]
      split
      · rfl
      · cases bodies with
        | var _ => rfl
        | app _ _ => rfl
        | abs xs inner => exact iterations?_eq one fs.id xs.id inner

theorem argumentsOf?_rel (one : Relator.BiUnique R) (ids : R id id') (alike : t.Matches R t')
    {rest rest' : List Term} (others : List.Forall₂ (Matches R) rest rest') :
    Option.Rel (List.Forall₂ (Matches R)) (argumentsOf? id t rest)
      (argumentsOf? id' t' rest') := by
  induction alike generalizing rest rest' with
  | var vars =>
      rw [argumentsOf?, argumentsOf?, beq_eq_of_biUnique one vars.id ids]
      split
      · exact .some others
      · exact .none
  | abs _ _ => exact .none
  | app _ arguments ihFunction _ =>
      rw [argumentsOf?, argumentsOf?, arguments.occursFree one ids]
      split
      · exact .none
      · exact ihFunction (.cons arguments others)

theorem asTuple?_rel (one : Relator.BiUnique R) (alike : t.Matches R t') :
    Option.Rel (List.Forall₂ (Matches R)) (asTuple? t) (asTuple? t') := by
  cases alike with
  | var _ => exact .none
  | app _ _ => exact .none
  | abs binders bodies =>
      rw [asTuple?, asTuple?]
      obtain ⟨none, none'⟩ | ⟨_, _, some, some', elements⟩ :=
        Option.rel_cases (argumentsOf?_rel one binders.id bodies .nil)
      · rw [none, none']
        exact .none
      · rw [some, some']
        cases elements with
        | nil => exact .none
        | cons first rest => exact .some (.cons first rest)

theorem avoids_eq (one : Relator.BiUnique R) {x x' y y' : Nat} (xs : R x x') (ys : R y y')
    (alike : t.Matches R t') : avoids x y t = avoids x' y' t' := by
  rw [avoids, avoids, alike.occursFree one xs, alike.occursFree one ys]

theorem asList?_rel (one : Relator.BiUnique R) (alike : t.Matches R t') :
    Option.Rel (List.Forall₂ (Matches R)) (asList? t) (asList? t') := by
  induction size : t.size using Nat.strong_induction_on generalizing t t' with
  | _ bound ih =>
      cases alike with
      | var _ => exact .none
      | app _ _ => exact .none
      | abs xs bodies =>
          cases bodies with
          | var _ => exact .none
          | app _ _ => exact .none
          | abs ys inner =>
              cases inner with
              | abs _ _ => exact .none
              | var vars =>
                  rw [asList?, asList?, beq_eq_of_biUnique one vars.id ys.id]
                  split
                  · exact .some .nil
                  · exact .none
              | app functions tails =>
                  cases functions with
                  | var _ => exact .none
                  | abs _ _ => exact .none
                  | app headsOf heads =>
                      rw [asList?, asList?, headsOf.isVar one xs.id,
                        avoids_eq one xs.id ys.id heads, avoids_eq one xs.id ys.id tails]
                      split
                      · have others := ih _ (by simp only [Term.size] at size; omega) tails rfl
                        exact Option.rel_map others fun _ _ rest => .cons heads rest
                      · exact .none

/-- What a term encodes has the same text whatever the identities. -/
theorem describe?_eq_of_matches (one : Relator.BiUnique R) (alike : t.Matches R t') :
    describe? t = describe? t' := by
  induction size : t.size using Nat.strong_induction_on generalizing t t' with
  | _ bound ih =>
      have element {u u' : Term} (smaller : u.size < t.size) (parts : u.Matches R u') :
          describeElement u = describeElement u' := by
        rw [describeElement, describeElement, ih u.size (size ▸ smaller) parts rfl,
          parts.render one]
      rw [describe?_eq, describe?_eq, asNumeral?_eq one alike]
      split
      · rfl
      · obtain ⟨none, none'⟩ | ⟨elements, _, some, some', parts⟩ :=
          Option.rel_cases (asList?_rel one alike)
        · rw [none, none']
          obtain ⟨none, none'⟩ | ⟨elements, _, some, some', parts⟩ :=
            Option.rel_cases (asTuple?_rel one alike)
          · rw [none, none']
          · have same := List.map_eq_of_forall₂ parts fun _ member _ =>
              element (size_lt_of_mem_asTuple? some member)
            rw [some, some', Option.map_some, Option.map_some, same]
        · have same := List.map_eq_of_forall₂ parts fun _ member _ =>
            element (size_lt_of_mem_asList? some member)
          rw [some, some']
          dsimp only
          rw [same]

end Encoding

end UntypedLambda
