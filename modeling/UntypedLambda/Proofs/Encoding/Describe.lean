import UntypedLambda.Encoding.Describe
import UntypedLambda.Proofs.Encoding.Decoding

set_option autoImplicit false

/-! What is shown of a value, by the decoder that succeeds. The elements that a decoder finds are
parts of the term, so that they have every property that a term hands on to its parts. -/

namespace UntypedLambda.Encoding

open Term

/-! ### Parts -/

structure Hereditary (P : Term → Prop) : Prop where
  body : ∀ {binder body}, P (.abs binder body) → P body
  parts : ∀ {function argument}, P (.app function argument) → P function ∧ P argument

namespace Hereditary

variable {P : Term → Prop} {t element : Term} {elements : List Term} (hereditary : Hereditary P)

include hereditary

theorem applications {head : Term} {arguments : List Term}
    (holds : P (applications head arguments)) : P head ∧ ∀ a ∈ arguments, P a := by
  induction arguments generalizing head with
  | nil => exact ⟨holds, fun _ none => nomatch none⟩
  | cons argument arguments ih =>
      obtain ⟨inHead, inRest⟩ := @ih (.app head argument) holds
      obtain ⟨atHead, atArgument⟩ := hereditary.parts inHead
      exact ⟨atHead, List.forall_mem_cons.mpr ⟨atArgument, inRest⟩⟩

theorem of_mem_asTuple? (holds : P t) (decoded : asTuple? t = some elements)
    (member : element ∈ elements) : P element := by
  obtain ⟨_, p, v, rfl, _⟩ := (asTuple?_eq_some_iff t elements).mp decoded
  exact (hereditary.applications (hereditary.body holds)).2 element member

theorem of_mem_asList? (holds : P t) (decoded : asList? t = some elements)
    (member : element ∈ elements) : P element := by
  induction elements generalizing t with
  | nil => cases member
  | cons head others ih =>
      obtain ⟨x, y, headOf, tail, rfl, _, _, _, inTail⟩ :=
        (asList?_eq_some_cons_iff t head others).mp decoded
      obtain ⟨pair, atTail⟩ := hereditary.parts (hereditary.body (hereditary.body holds))
      rcases List.mem_cons.mp member with rfl | inOthers
      · exact (hereditary.parts pair).2
      · exact ih atTail inTail inOthers

end Hereditary

theorem hereditary_unshadowed : Hereditary Unshadowed where
  body := And.right
  parts := id

theorem hereditary_clean (supply : Nat) : Hereditary (Clean supply) where
  body := fun clean => ((clean_abs_iff _ _ _).mp clean).2.2
  parts := fun clean => ⟨((clean_app_iff _ _ _).mp clean).1, ((clean_app_iff _ _ _).mp clean).2.1⟩

theorem hereditary_vars (P : Var → Prop) : Hereditary fun t => ∀ v ∈ t.vars, P v where
  body := fun all v member => all v (List.mem_cons_of_mem _ member)
  parts := fun all => List.forall_mem_append.mp all

/-! ### The shape that is shown -/

/-- A list with elements is no number. -/
theorem asNumeral?_eq_none_of_asList? {t head : Term} {others : List Term}
    (decoded : asList? t = some (head :: others)) : asNumeral? t = none := by
  obtain ⟨x, y, headOf, tail, rfl, _⟩ := (asList?_eq_some_cons_iff t head others).mp decoded
  simp [asNumeral?, isVar, iterations?]

/-- A tuple is neither a number nor a list. -/
theorem undecoded_of_asTuple? {t : Term} {elements : List Term}
    (decoded : asTuple? t = some elements) : asNumeral? t = none ∧ asList? t = none := by
  obtain ⟨some, p, v, rfl, _⟩ := (asTuple?_eq_some_iff t elements).mp decoded
  rcases applications_cases (.var v) elements with ⟨none, _⟩ | ⟨front, last, _, applied⟩
  · exact absurd none some
  · rw [applied]
    exact ⟨rfl, rfl⟩

theorem describe?_of_asNumeral? {t : Term} {n : Nat} (decoded : asNumeral? t = some n) :
    describe? t = some (toString n) := by
  rw [describe?_eq, decoded]

theorem describe?_of_asList? {t head : Term} {others : List Term}
    (decoded : asList? t = some (head :: others)) :
    describe? t =
      some ("[" ++ commaSeparated ((head :: others).map describeElement) ++ "]") := by
  rw [describe?_eq, asNumeral?_eq_none_of_asList? decoded, decoded]

theorem describe?_of_asTuple? {t : Term} {elements : List Term}
    (decoded : asTuple? t = some elements) :
    describe? t = some ("<" ++ commaSeparated (elements.map describeElement) ++ ">") := by
  obtain ⟨noNumber, noList⟩ := undecoded_of_asTuple? decoded
  rw [describe?_eq, noNumber, noList, decoded]
  rfl

/-- The empty list is the number zero. -/
theorem asNumeral?_eq_zero_of_asList? {t : Term} (decoded : asList? t = some []) :
    asNumeral? t = some 0 := by
  obtain ⟨x, y, v, rfl, same⟩ := (asList?_eq_some_nil_iff t).mp decoded
  simp [asNumeral?, isVar, iterations?, same]

/-- What is shown is a number, a list of at least one element, or a tuple. -/
theorem describe?_cases {t : Term} {s : String} (shown : describe? t = some s) :
    (∃ n, asNumeral? t = some n ∧ s = toString n) ∨
      (∃ head others, asList? t = some (head :: others) ∧
        s = "[" ++ commaSeparated ((head :: others).map describeElement) ++ "]") ∨
      ∃ elements, asTuple? t = some elements ∧
        s = "<" ++ commaSeparated (elements.map describeElement) ++ ">" := by
  cases number : asNumeral? t with
  | some n =>
      have text := Option.some.inj (shown.symm.trans (describe?_of_asNumeral? number))
      exact Or.inl ⟨n, rfl, text⟩
  | none =>
      cases listed : asList? t with
      | some elements =>
          cases elements with
          | nil => cases number.symm.trans (asNumeral?_eq_zero_of_asList? listed)
          | cons head others =>
              have text := Option.some.inj (shown.symm.trans (describe?_of_asList? listed))
              exact Or.inr (Or.inl ⟨head, others, rfl, text⟩)
      | none =>
          rw [describe?_eq, number, listed] at shown
          obtain ⟨elements, tupled, text⟩ := Option.map_eq_some_iff.mp shown
          exact Or.inr (Or.inr ⟨elements, tupled, text.symm⟩)

end UntypedLambda.Encoding
