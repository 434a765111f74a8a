import UntypedLambda.Proofs.Encoding.Reading
import UntypedLambda.Proofs.Nameless.Parallel

set_option autoImplicit false

/-! The fixed-point combinators. Turing's reduces `Θ F` to `F (Θ F)`. Curry's does not, but `Y F`
and `F (Y F)` have a common reduct. -/

namespace UntypedLambda

namespace Nameless

open Relation

variable {α : Type}

def turingHalf : Nameless α :=
  .lam (.lam (.app (.bound 0) (.app (.app (.bound 1) (.bound 1)) (.bound 0))))

def curryHalf : Nameless α :=
  .lam (.app (.bound 1) (.app (.bound 0) (.bound 0)))

def knot : Encoding.Combinator → Nameless α
  | .turing => .app turingHalf turingHalf
  | .curry => .lam (.app curryHalf curryHalf)

theorem turing_reduces (function : Nameless α) :
    Reduces betaRoot? (.app (knot .turing) function)
      (.app function (.app (knot .turing) function)) := by
  -- The half applied to itself still waits for the function.
  let waiting : Nameless α :=
    .lam (.app (.bound 0) (.app (.app turingHalf turingHalf) (.bound 0)))
  have unfolded : Beta (knot .turing : Nameless α) waiting := .root rfl
  have applied : Beta (.app waiting function) (.app function (.app (knot .turing) function)) := by
    refine .root ?_
    simp only [betaRoot?, waiting, instantiate, shift_zero_zero, Nat.lt_irrefl, if_false, if_true]
    rfl
  exact (ReflTransGen.single (.function function unfolded)).tail applied

def curryLoop (function : Nameless α) : Nameless α :=
  let half : Nameless α := .lam (.app (function.shift 0 1) (.app (.bound 0) (.bound 0)))
  .app half half

theorem curry_reduces_to_loop (function : Nameless α) :
    Beta (.app (knot .curry) function) (curryLoop function) :=
  .root rfl

theorem curryLoop_reduces (function : Nameless α) :
    Beta (curryLoop function) (.app function (curryLoop function)) := by
  refine .root ?_
  simp only [betaRoot?, curryLoop, instantiate, instantiate_shift, shift_zero_zero,
    Nat.lt_irrefl, if_false, if_true]

/-- A recursive body with the whole in its place and the whole itself have a common reduct. -/
theorem knot_meets (combinator : Encoding.Combinator) (body : Nameless α) :
    Join (Reduces betaRoot?) (body.instantiate 0 (.app (knot combinator) (.lam body)))
      (.app (knot combinator) (.lam body)) := by
  cases combinator with
  | turing =>
      refine ⟨_, .refl, (turing_reduces (.lam body)).tail ?_⟩
      exact Beta.redex body _
  | curry =>
      have looped := curry_reduces_to_loop (.lam body)
      refine ⟨body.instantiate 0 (curryLoop (.lam body)), ?_, ?_⟩
      · exact ((Parallel.refl body).instantiate (.of_beta looped)).reduces
      · exact ((ReflTransGen.single looped).tail (curryLoop_reduces _)).tail (Beta.redex body _)

end Nameless

namespace Encoding

open Term

theorem turingHalf_readByName (supply : Nat) (scope : List Var) :
    (turingHalf supply).readByName scope = Nameless.turingHalf := by
  have different : supply ≠ supply + 1 := by omega
  simp only [turingHalf, readByName_abstractions, readByName_app, readByName_applications,
    List.reverse_cons, List.reverse_nil, List.nil_append, List.cons_append, List.length_cons,
    List.length_nil, List.map_cons, List.map_nil]
  rw [readByName_var_second different, readByName_var_head]
  rfl

theorem curryHalf_readByName {f : Var} {supply : Nat} (different : f.id ≠ supply)
    (scope : List Var) : (curryHalf f supply).readByName (f :: scope) = Nameless.curryHalf := by
  simp only [curryHalf, readByName_abs, readByName_app]
  rw [readByName_var_second different, readByName_var_head]
  rfl

theorem term_readByName (combinator : Combinator) (supply : Nat) (scope : List Var) :
    (combinator.term supply).1.readByName scope = Nameless.knot combinator := by
  cases combinator with
  | turing =>
      simp only [Combinator.term, readByName_app, turingHalf_readByName]
      rfl
  | curry =>
      have first : supply ≠ supply + 1 := by omega
      have second : supply ≠ supply + 2 := by omega
      simp only [Combinator.term, readByName_abs, readByName_app]
      rw [curryHalf_readByName first, curryHalf_readByName second]
      rfl

theorem fix_readByName (combinator : Combinator) (self : Var) (body : Term) (supply : Nat)
    (scope : List Var) :
    (combinator.fix self body supply).1.readByName scope =
      .app (Nameless.knot combinator) (.lam (body.readByName (self :: scope))) := by
  rw [Combinator.fix, readByName_app, term_readByName, readByName_abs]

end Encoding

end UntypedLambda
