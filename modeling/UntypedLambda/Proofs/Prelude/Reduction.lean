import UntypedLambda.Proofs.Encoding.Application
import UntypedLambda.Proofs.Prelude.Loading

set_option autoImplicit false

/-! What the functions of the prelude reduce to. Those for booleans, pairs and lists hand their
arguments on by weak head reduction. Those for numbers reduce to the numeral of their result, by an
induction on the number that is iterated over. -/

namespace UntypedLambda.Prelude

open Nameless Relation

theorem identity_reduces (t : Nameless String) : WeakReduces (.app identity t) t := by
  refine .single ?_
  simpa [identity, instantiate_bound_zero] using Weak.redex (.bound 0) t

/-! ### Booleans -/

theorem selectFirst_reduces (a b : Nameless String) :
    WeakReduces (applications selectFirst [a, b]) a := by
  have steps : WeakReduces (applications selectFirst [a, b]) _ := weakReduces_abstractions _ [a, b]
  simpa [instantiateAll, instantiate, instantiate_shift_succ, shift_zero_zero] using steps

theorem selectSecond_reduces (a b : Nameless String) :
    WeakReduces (applications selectSecond [a, b]) b :=
  weakReduces_nil a b

theorem conditional_reduces (condition a b : Nameless String) :
    WeakReduces (applications conditional [condition, a, b]) (applications condition [a, b]) := by
  have steps : WeakReduces (applications conditional [condition, a, b]) _ :=
    weakReduces_abstractions _ [condition, a, b]
  simpa [instantiateAll, applications, instantiate, instantiate_shift_succ, shift_zero_zero]
    using steps

/-- What a query is made to weak head steps take first, and then the terms that it hands on. -/
theorem query_reduces {selectors : List (Nameless String)}
    (closed : ∀ selector ∈ selectors, selector.isClosed 0 = true) {t next : Nameless String}
    (steps : WeakReduces t next) :
    WeakReduces (.app (query selectors) t) (applications next selectors) := by
  have same : selectors.map (fun selector => selector.instantiate 0 t) = selectors :=
    (List.map_congr_left fun selector member =>
      instantiate_closed (closed selector member) 0 t).trans (List.map_id selectors)
  have asked : WeakReduces (.app (query selectors) t) _ := weakReduces_abstractions _ [t]
  rw [instantiateAll, instantiateAll, List.length_nil, instantiate_applications,
    instantiate_bound_zero, same] at asked
  exact asked.trans (steps.applications selectors)

/-! ### Pairs and lists -/

theorem pairing_reduces (a b : Nameless String) :
    WeakReduces (applications pairing [a, b]) (tuple [a, b]) := by
  have steps : WeakReduces (applications pairing [a, b]) _ := weakReduces_abstractions _ [a, b]
  simpa [instantiateAll, tuple, abstractions, applications, instantiate, instantiate_shift_succ]
    using steps

theorem firstOf_reduces {t a b : Nameless String} (steps : WeakReduces t (tuple [a, b])) :
    WeakReduces (.app firstOf t) a :=
  (query_reduces (by decide) steps).trans
    ((weakReduces_tuple [a, b] selectFirst).trans (selectFirst_reduces a b))

theorem secondOf_reduces {t a b : Nameless String} (steps : WeakReduces t (tuple [a, b])) :
    WeakReduces (.app secondOf t) b :=
  (query_reduces (by decide) steps).trans
    ((weakReduces_tuple [a, b] selectSecond).trans (selectSecond_reduces a b))

theorem prepend_reduces (head tail : Nameless String) :
    WeakReduces (applications prepend [head, tail]) (cons head tail) := by
  have steps : WeakReduces (applications prepend [head, tail]) _ :=
    weakReduces_abstractions _ [head, tail]
  simpa [instantiateAll, cons, abstractions, applications, instantiate, instantiate_shift_succ]
    using steps

/-- Elements put in front of each other, with the empty list at the end. -/
theorem prepends_reduce (elements : List (Nameless String)) :
    Reduces betaRoot?
      (elements.foldr (fun element rest => applications prepend [element, rest]) nil)
      (list elements) := by
  induction elements with
  | nil => exact .refl
  | cons element elements ih =>
      exact (Reduces.argument _ ih).trans (prepend_reduces element (list elements)).reduces

section Lists

variable {t head tail : Nameless String}

theorem headOf_reduces (steps : WeakReduces t (cons head tail)) :
    WeakReduces (.app headOf t) head :=
  (query_reduces (by decide) steps).trans
    ((weakReduces_cons head tail selectFirst selectSecond).trans (selectFirst_reduces head tail))

theorem tailOf_reduces (steps : WeakReduces t (cons head tail)) :
    WeakReduces (.app tailOf t) tail :=
  (query_reduces (by decide) steps).trans
    ((weakReduces_cons head tail selectSecond nil).trans (selectSecond_reduces head tail))

theorem emptyTest_reduces_of_nil (steps : WeakReduces t nil) :
    WeakReduces (.app emptyTest t) selectFirst :=
  (query_reduces (by decide) steps).trans (weakReduces_nil _ selectFirst)

theorem emptyTest_reduces_of_cons (steps : WeakReduces t (cons head tail)) :
    WeakReduces (.app emptyTest t) selectSecond := by
  have ignored : WeakReduces (applications (abstractions 2 selectSecond) [head, tail])
      selectSecond := by
    have closed : selectSecond.isClosed 0 = true := rfl
    have steps := weakReduces_abstractions selectSecond [head, tail]
    simpa [instantiateAll, instantiate_closed closed] using steps
  exact (query_reduces (by decide) steps).trans
    ((weakReduces_cons head tail (abstractions 2 selectSecond) selectFirst).trans ignored)

/-- Repeated tails of a list are what is left when as many elements are dropped. -/
theorem tails_reduce (elements : List (Nameless String)) {count : Nat}
    (le : count ≤ elements.length) :
    WeakReduces ((Nameless.app tailOf)^[count] (list elements)) (list (elements.drop count)) := by
  induction count with
  | zero => exact .refl
  | succ count ih =>
      have dropped := ih (Nat.le_of_succ_le le)
      rw [List.drop_eq_getElem_cons le] at dropped
      rw [Function.iterate_succ_apply']
      exact tailOf_reduces dropped

end Lists

/-! ### Numbers -/

theorem successor_reduces (n : Nat) :
    Reduces betaRoot? (.app successor (numeral n)) (numeral (n + 1)) := by
  have applied : WeakReduces (.app successor (numeral n))
      (abstractions 2 (.app (.bound 1) (applications (numeral n) [.bound 1, .bound 0]))) := by
    have steps : WeakReduces (applications successor [numeral n]) _ :=
      weakReduces_abstractions _ [numeral n]
    simpa [instantiateAll, abstractions, applications, instantiate,
      shift_closed (isClosed_numeral n)] using steps
  refine applied.reduces.trans (Reduces.abstractions ?_ 2)
  rw [Function.iterate_succ_apply']
  exact (weakReduces_numeral n _ _).reduces.argument _

theorem addition_reduces (m n : Nat) :
    Reduces betaRoot? (applications addition [numeral m, numeral n]) (numeral (m + n)) := by
  have applied : WeakReduces (applications addition [numeral m, numeral n])
      (abstractions 2 (applications (numeral m)
        [.bound 1, applications (numeral n) [.bound 1, .bound 0]])) := by
    have steps : WeakReduces (applications addition [numeral m, numeral n]) _ :=
      weakReduces_abstractions _ [numeral m, numeral n]
    simpa [instantiateAll, abstractions, applications, instantiate,
      shift_closed (isClosed_numeral _), instantiate_closed (isClosed_numeral _)] using steps
  refine applied.reduces.trans (Reduces.abstractions ?_ 2)
  rw [Function.iterate_add_apply]
  have inner := weakReduces_numeral n (.bound 1) (.bound 0 : Nameless String)
  exact ReflTransGen.trans (inner.reduces.argument _) (weakReduces_numeral m _ _).reduces

/-- The product iterates the function that is the other number of iterations. -/
theorem multiplication_reduces (m n : Nat) :
    Reduces betaRoot? (applications multiplication [numeral m, numeral n]) (numeral (m * n)) := by
  have applied : WeakReduces (applications multiplication [numeral m, numeral n])
      (.lam (.app (numeral m) (.app (numeral n) (.bound 0)))) := by
    have steps : WeakReduces (applications multiplication [numeral m, numeral n]) _ :=
      weakReduces_abstractions _ [numeral m, numeral n]
    simpa [instantiateAll, abstractions, applications, instantiate,
      shift_closed (isClosed_numeral _), instantiate_closed (isClosed_numeral _)] using steps
  have iterating := weakReduces_numeral_function m (.app (numeral n) (.bound 0) : Nameless String)
  rw [shift, shift_closed (isClosed_numeral n)] at iterating
  have product := reduces_iterate_numeral m n (.bound 1) (.bound 0 : Nameless String)
  rw [Nat.mul_comm]
  exact applied.reduces.trans (iterating.reduces.lam.trans product.lam.lam)

/-! ### Predecessor and difference -/

/-- The results on the way of the predecessor. The first of them loses the function that it is
handed to, and the later ones hand on what they have. -/
def delayed (f x : Nameless String) : Nat → Nameless String
  | 0 => .lam (x.shift 0 1)
  | n + 1 => .lam (.app (.bound 0) (((Nameless.app f)^[n] x).shift 0 1))

theorem delayed_zero_reduces (f x argument : Nameless String) :
    WeakReduces (.app (delayed f x 0) argument) x := by
  refine .single ?_
  simpa [delayed, instantiate_shift] using Weak.redex (x.shift 0 1) argument

theorem delayed_succ_reduces (f x argument : Nameless String) (n : Nat) :
    WeakReduces (.app (delayed f x (n + 1)) argument) (.app argument ((Nameless.app f)^[n] x)) := by
  refine .single ?_
  simpa [delayed, instantiate, instantiate_shift, shift_zero_zero]
    using Weak.redex (.app (.bound 0) (((Nameless.app f)^[n] x).shift 0 1)) argument

theorem delay_reduces (f t : Nameless String) :
    WeakReduces (.app (delay f) t) (.lam (.app (.bound 0) ((Nameless.app t f).shift 0 1))) := by
  have steps : WeakReduces (.app (delay f) t) _ := weakReduces_abstractions _ [t]
  simpa [instantiateAll, instantiate, instantiate_shift_succ, shift] using steps

/-- An iteration of the predecessor adds one application of the function to what there is. -/
theorem delay_delayed_reduces (f x : Nameless String) (n : Nat) :
    Reduces betaRoot? (.app (delay f) (delayed f x n)) (delayed f x (n + 1)) := by
  have resumed : WeakReduces (.app (delayed f x n) f) ((Nameless.app f)^[n] x) := by
    cases n with
    | zero => exact delayed_zero_reduces f x f
    | succ n =>
        rw [Function.iterate_succ_apply']
        exact delayed_succ_reduces f x f n
  have inside := resumed.rename Nat.succ
  rw [← shift_zero_one, ← shift_zero_one] at inside
  exact (delay_reduces f _).reduces.trans (inside.reduces.argument _).lam

theorem predecessor_reduces (n : Nat) :
    Reduces betaRoot? (.app predecessor (numeral n)) (numeral (n - 1)) := by
  have applied : WeakReduces (.app predecessor (numeral n))
      (abstractions 2 (applications (numeral n)
        [delay (.bound 1), delayed (.bound 1) (.bound 0) 0, identity])) := by
    have steps : WeakReduces (applications predecessor [numeral n]) _ :=
      weakReduces_abstractions _ [numeral n]
    simpa [instantiateAll, abstractions, applications, instantiate, delay, delayed, identity,
      shift, shift_closed (isClosed_numeral n)] using steps
  refine applied.reduces.trans (Reduces.abstractions ?_ 2)
  have iterated : Reduces betaRoot?
      (applications (numeral n) [delay (.bound 1), delayed (.bound 1) (.bound 0) 0])
      (delayed (.bound 1) (.bound 0) n) :=
    (weakReduces_numeral n _ _).reduces.trans
      (Reduces.iterate (delayed (.bound 1) (.bound 0)) (delay_delayed_reduces _ _) n)
  refine (Reduces.function identity iterated).trans ?_
  cases n with
  | zero => exact (delayed_zero_reduces _ _ identity).reduces
  | succ n => exact (delayed_succ_reduces _ _ identity n).reduces.trans (identity_reduces _).reduces

theorem subtraction_reduces (m n : Nat) :
    Reduces betaRoot? (applications subtraction [numeral m, numeral n]) (numeral (m - n)) := by
  have applied : WeakReduces (applications subtraction [numeral m, numeral n])
      (applications (numeral n) [predecessor, numeral m]) := by
    have steps : WeakReduces (applications subtraction [numeral m, numeral n]) _ :=
      weakReduces_abstractions _ [numeral m, numeral n]
    have closed : predecessor.isClosed 0 = true := rfl
    simpa [instantiateAll, applications, instantiate, instantiate_closed closed,
      shift_closed (isClosed_numeral _), instantiate_closed (isClosed_numeral _)] using steps
  have iterated := weakReduces_numeral n predecessor (numeral m)
  refine (applied.reduces.trans iterated.reduces).trans ?_
  exact Reduces.iterate (fun k => numeral (m - k)) (fun k => predecessor_reduces (m - k)) n

/-! ### Decisions -/

theorem zeroTest_reduces (n : Nat) :
    WeakReduces (.app zeroTest (numeral n)) (if n = 0 then selectFirst else selectSecond) := by
  have asked : WeakReduces (.app zeroTest (numeral n)) _ :=
    (query_reduces (by decide) .refl).trans
      (weakReduces_numeral n (.lam selectSecond) selectFirst)
  cases n with
  | zero => exact asked
  | succ n =>
      rw [Function.iterate_succ_apply'] at asked
      exact asked.tail (Weak.redex selectSecond _)

theorem conditional_zeroTest_reduces (n : Nat) (a b : Nameless String) :
    WeakReduces (applications conditional [.app zeroTest (numeral n), a, b])
      (if n = 0 then a else b) := by
  have decided := (conditional_reduces (.app zeroTest (numeral n)) a b).trans
    ((zeroTest_reduces n).applications [a, b])
  by_cases zero : n = 0
  · rw [if_pos zero] at decided ⊢
    exact decided.trans (selectFirst_reduces a b)
  · rw [if_neg zero] at decided ⊢
    exact decided.trans (selectSecond_reduces a b)

end UntypedLambda.Prelude
