import UntypedLambda.Encoding.Basic
import UntypedLambda.Term.Display

set_option autoImplicit false

/-! The readable form of encoded values. A list or a tuple shows its elements, those that are
encoded values in the same way and the others as terms. -/

namespace UntypedLambda.Encoding

open Term

/-- The arguments of an application are no larger than the application together. -/
theorem size_lt_of_mem_argumentsOf? {p bound : Nat} {element : Term} :
    ∀ {t : Term} {rest elements : List Term}, argumentsOf? p t rest = some elements →
      element ∈ elements → t.size ≤ bound → (∀ e ∈ rest, e.size < bound) →
      element.size < bound := by
  intro t
  induction t with
  | var v =>
      intro rest elements decoded member _ smaller
      simp only [argumentsOf?] at decoded
      split at decoded
      · cases decoded
        exact smaller element member
      · cases decoded
  | abs binder body ih =>
      intro rest elements decoded
      simp [argumentsOf?] at decoded
  | app function argument ihFunction ihArgument =>
      intro rest elements decoded member size smaller
      simp only [argumentsOf?] at decoded
      simp only [Term.size] at size
      split at decoded
      · cases decoded
      · refine ihFunction decoded member (by omega) ?_
        intro e inside
        cases inside with
        | head => omega
        | tail _ inside => exact smaller e inside

theorem size_lt_of_mem_asTuple? {t element : Term} {elements : List Term}
    (decoded : asTuple? t = some elements) (member : element ∈ elements) :
    element.size < t.size := by
  cases t with
  | var v => simp [asTuple?] at decoded
  | app function argument => simp [asTuple?] at decoded
  | abs p body =>
      simp only [asTuple?] at decoded
      split at decoded
      · rename_i first rest arguments
        cases decoded
        exact size_lt_of_mem_argumentsOf? arguments member (by simp [Term.size]) (by simp)
      · cases decoded

theorem size_lt_of_mem_asList? {t element : Term} {elements : List Term}
    (decoded : asList? t = some elements) (member : element ∈ elements) :
    element.size < t.size := by
  induction t using asList?.induct generalizing elements with
  | case1 x y v same =>
      simp [asList?, same] at decoded
      simp [decoded] at member
  | case2 x y v different => simp [asList?, different] at decoded
  | case3 x y headOf head tail accepted ih =>
      rw [asList?] at decoded
      rw [if_pos accepted] at decoded
      obtain ⟨others, tailDecoded, same⟩ := Option.map_eq_some_iff.mp decoded
      subst same
      cases member with
      | head => simp only [Term.size]; omega
      | tail _ inside =>
          have := ih tailDecoded inside
          simp only [Term.size]; omega
  | case4 x y headOf head tail refused =>
      rw [asList?, if_neg refused] at decoded
      cases decoded
  | case5 t noNil noCons => simp [asList?] at decoded

def commaSeparated (texts : List String) : String :=
  String.intercalate ", " texts

/-- The readable form of a number, a list or a tuple, tried in this order. -/
def describe? (t : Term) : Option String :=
  match asNumeral? t with
  | some n => some (toString n)
  | none =>
      match listed : asList? t with
      | some elements =>
          some ("[" ++ commaSeparated (elements.attach.map fun element =>
            have := size_lt_of_mem_asList? listed element.2
            (describe? element.1).getD element.1.render) ++ "]")
      | none =>
          match tupled : asTuple? t with
          | some elements =>
              some ("<" ++ commaSeparated (elements.attach.map fun element =>
                have := size_lt_of_mem_asTuple? tupled element.2
                (describe? element.1).getD element.1.render) ++ ">")
          | none => none
termination_by t.size

def describeElement (t : Term) : String :=
  (describe? t).getD t.render

/-- The readable form by cases, over the elements themselves. -/
theorem describe?_eq (t : Term) :
    describe? t =
      match asNumeral? t with
      | some n => some (toString n)
      | none =>
          match asList? t with
          | some elements => some ("[" ++ commaSeparated (elements.map describeElement) ++ "]")
          | none =>
              (asTuple? t).map fun elements =>
                "<" ++ commaSeparated (elements.map describeElement) ++ ">" := by
  rw [describe?]
  split
  · rfl
  · split
    · rename_i elements listed
      simp only [listed, List.map_attach_eq_pmap, List.pmap_eq_map]
      rfl
    · rename_i unlisted
      rw [unlisted]
      split
      · rename_i elements tupled
        simp only [tupled, List.map_attach_eq_pmap, List.pmap_eq_map]
        rfl
      · rename_i untupled
        simp [untupled]

end UntypedLambda.Encoding
