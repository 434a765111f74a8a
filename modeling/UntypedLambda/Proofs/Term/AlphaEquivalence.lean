import UntypedLambda.Proofs.Term.FreeNames

set_option autoImplicit false

/-! Comparison up to bound variables as a relation of terms. The comparison with a stack of pending
pairs agrees with the one by recursion, and both decide whether two terms have the same nameless
reading, so that what they decide is an equivalence and keeps the free names. -/

namespace UntypedLambda.Term

/-! ### Comparison with a stack -/

/-- Two parts of the terms to be compared, below abstractions whose binders are paired up in
`binders`, innermost first. -/
structure Pending where
  binders : List (Nat × Nat)
  left : Term
  right : Term

def Pending.size (pair : Pending) : Nat :=
  pair.left.size + pair.right.size

/-- Compares the pending pairs, the one on top first. A pair of abstractions or of applications
gives way to the pairs of their parts, the functions on top. -/
def comparePending : List Pending → Bool
  | [] => true
  | ⟨binders, .var left, .var right⟩ :: pending =>
      if sameVariable binders left right then comparePending pending else false
  | ⟨binders, .abs left body, .abs right body'⟩ :: pending =>
      comparePending (⟨(left.id, right.id) :: binders, body, body'⟩ :: pending)
  | ⟨binders, .app function argument, .app function' argument'⟩ :: pending =>
      comparePending
        (⟨binders, function, function'⟩ :: ⟨binders, argument, argument'⟩ :: pending)
  | _ :: _ => false
termination_by pending => pending.foldr (fun pair total => pair.size + total) 0
decreasing_by all_goals simp only [List.foldr_cons, Pending.size, size]; omega

/-- The stack compares equal exactly when every pair on it does. -/
theorem comparePending_eq_all (pending : List Pending) :
    comparePending pending =
      pending.all fun pair => alphaEqualUnder pair.binders pair.left pair.right := by
  fun_induction comparePending pending with
  | case1 => rfl
  | case2 binders left right pending same ih =>
      rw [List.all_cons, alphaEqualUnder, same, Bool.true_and, ih]
  | case3 binders left right pending different =>
      rw [List.all_cons, alphaEqualUnder, Bool.eq_false_iff.mpr different, Bool.false_and]
  | case4 binders left body right body' pending ih =>
      rw [ih, List.all_cons, List.all_cons, alphaEqualUnder]
  | case5 binders function argument function' argument' pending ih =>
      rw [ih, List.all_cons, List.all_cons, List.all_cons, alphaEqualUnder, Bool.and_assoc]
  | case6 pair pending noVars noAbs noApps =>
      have mismatch : alphaEqualUnder pair.binders pair.left pair.right = false := by
        obtain ⟨binders, left, right⟩ := pair
        cases left <;> cases right
        case var.var => exact (noVars _ _ _ rfl).elim
        case abs.abs => exact (noAbs _ _ _ _ _ rfl).elim
        case app.app => exact (noApps _ _ _ _ _ rfl).elim
        all_goals rfl
      rw [List.all_cons, mismatch, Bool.false_and]

theorem comparePending_singleton (left right : Term) :
    comparePending [⟨[], left, right⟩] = left.alphaEqual right := by
  rw [comparePending_eq_all, List.all_cons, List.all_nil, Bool.and_true, alphaEqual]

/-! ### Equality of readings -/

theorem alphaEqual_refl (t : Term) : t.alphaEqual t = true :=
  (alphaEqual_iff t t).mpr rfl

theorem alphaEqual_symm {left right : Term} (same : left.alphaEqual right = true) :
    right.alphaEqual left = true :=
  (alphaEqual_iff right left).mpr ((alphaEqual_iff left right).mp same).symm

theorem alphaEqual_trans {first second third : Term} (left : first.alphaEqual second = true)
    (right : second.alphaEqual third = true) : first.alphaEqual third = true :=
  (alphaEqual_iff first third).mpr
    (((alphaEqual_iff first second).mp left).trans ((alphaEqual_iff second third).mp right))

/-- The comparison decides equality of nameless readings in which every bound occurrence is the
number of abstractions between it and its binder, and every free occurrence is its name. It gives
the same answer with a stack of pending pairs. It is an equivalence of terms, and terms that it
finds equal have the same free names in the same order. -/
theorem alphaEqual_is_equality_of_readings :
    (∀ left right : Term,
      (left.alphaEqual right = true ↔ left.nameless.map Var.name = right.nameless.map Var.name) ∧
        comparePending [⟨[], left, right⟩] = left.alphaEqual right) ∧
    Equivalence (fun left right : Term => left.alphaEqual right = true) ∧
    (∀ left right : Term, left.alphaEqual right = true → left.freeNames = right.freeNames) :=
  ⟨fun left right => ⟨alphaEqual_iff left right, comparePending_singleton left right⟩,
    ⟨alphaEqual_refl, alphaEqual_symm, alphaEqual_trans⟩,
    fun _ _ => freeNames_eq_of_alphaEqual⟩

/-- The identity 0 is bound twice, one abstraction inside the other, on the left. On the right it is
free as well as bound. -/
theorem comparison_below_shadowed_binder :
    let left : Term := .abs ⟨"x", 0⟩ (.app (.abs ⟨"y", 0⟩ (.var ⟨"y", 0⟩)) (.var ⟨"z", 1⟩))
    let right : Term := .abs ⟨"a", 1⟩ (.app (.abs ⟨"b", 0⟩ (.var ⟨"b", 0⟩)) (.var ⟨"z", 0⟩))
    left.alphaEqual right = true ∧ left.freeNames = ["z"] ∧ right.freeNames = left.freeNames := by
  intro left right
  obtain ⟨-, equivalence, names⟩ := alphaEqual_is_equality_of_readings
  have same : left.alphaEqual right = true := by decide
  exact ⟨same, rfl, names right left (equivalence.symm same)⟩

end UntypedLambda.Term
