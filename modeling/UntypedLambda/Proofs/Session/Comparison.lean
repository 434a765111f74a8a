import UntypedLambda.Proofs.Resolution.Identities
import UntypedLambda.Proofs.Session.History

set_option autoImplicit false

/-! The comparison of two terms. Its answer is read off their reduced forms, so it decides whether
the terms are convertible, as far as the reductions come to their ends. -/

namespace UntypedLambda

open Surface Term

namespace Session

/-- Comparing decides convertibility. Reduced forms that are equal up to bound variables come from
convertible terms, even when a reduction was stopped, and in normal order convertible terms whose
reductions were not stopped have such reduced forms. Two terms that are given to be compared are
resolved and reduced one after the other, and the last line of the answer is `true` when their
reduced forms are equal up to bound variables, else `false`. So `true` is answered for convertible
terms only, and in normal order for all those whose reductions were not stopped. -/
theorem comparison_decides_convertibility (session : Session) :
    (∀ left right leftSupply rightSupply, left.Below leftSupply → right.Below rightSupply →
      let leftEnd := (session.reduce left leftSupply).reduction
      let rightEnd := (session.reduce right rightSupply).reduction
      (leftEnd.term.alphaEqual rightEnd.term = true →
        Convertible session.settings.mode left right) ∧
      (session.settings.strategy = .leftmostOutermost → leftEnd.exhausted = false →
        rightEnd.exhausted = false → Convertible session.settings.mode left right →
        leftEnd.term.alphaEqual rightEnd.term = true)) ∧
    (session.context.Below session.supply → ∀ source left right first second,
      parseProgram source = .ok [.term left, .term right] →
      resolveTerm session.context session.settings left session.supply = .ok first →
      let leftCourse := session.reduce first.1 first.2
      resolveTerm session.context session.settings right leftCourse.reduction.supply = .ok second →
      let rightCourse := session.reduce second.1 second.2
      ∃ answer, session.equal source =
          .goOn { session with supply := rightCourse.reduction.supply }
            (Comparison.comparandTranscript left leftCourse ++
              Comparison.comparandTranscript right rightCourse ++ .line answer) ∧
        (answer = "true" ↔
          leftCourse.reduction.term.alphaEqual rightCourse.reduction.term = true) ∧
        (answer = "false" ↔
          leftCourse.reduction.term.alphaEqual rightCourse.reduction.term = false) ∧
        (answer = "true" → Convertible session.settings.mode first.1 second.1) ∧
        (session.settings.strategy = .leftmostOutermost →
          leftCourse.reduction.exhausted = false → rightCourse.reduction.exhausted = false →
          Convertible session.settings.mode first.1 second.1 → answer = "true")) := by
  refine ⟨fun left right leftSupply rightSupply leftBelow rightBelow =>
    session.reductions_decide_convertibility leftBelow rightBelow, ?_⟩
  intro below source left right first second parsed inLeft leftCourse inRight rightCourse
  obtain ⟨firstLe, firstBelow⟩ := resolveTerm_below below inLeft
  have leftLe : first.2 ≤ leftCourse.reduction.supply :=
    supply_le_of_advances (session.reduce_reaches first.1 first.2).1
  obtain ⟨_, secondBelow⟩ := resolveTerm_below (below.mono (Nat.le_trans firstLe leftLe)) inRight
  obtain ⟨sound, complete⟩ := session.reductions_decide_convertibility firstBelow secondBelow
  have decided := Comparison.answer_eq_true_iff leftCourse rightCourse
  exact ⟨Comparison.answer leftCourse rightCourse, equal_of_resolved parsed inLeft inRight, decided,
    Comparison.answer_eq_false_iff leftCourse rightCourse, fun yes => sound (decided.mp yes),
    fun normalOrder leftFinished rightFinished convertible =>
      decided.mpr (complete normalOrder leftFinished rightFinished convertible)⟩

/-- A beta contraction and an eta contraction lead to the same free variable, which has another
identity in each of the two terms. -/
theorem comparison_of_redex_and_expansion :
    let left : Term := .app (.abs ⟨"x", 0⟩ (.var ⟨"x", 0⟩)) (.var ⟨"y", 1⟩)
    let right : Term := .abs ⟨"z", 2⟩ (.app (.var ⟨"y", 3⟩) (.var ⟨"z", 2⟩))
    Convertible .both left right ∧
      (initial {}).equal "(λx.x) y; λz.y z" =
        .goOn { initial {} with supply := 4 } (.line "true") := by
  intro left right
  obtain ⟨ofTerms, ofSources⟩ := comparison_decides_convertibility (initial {})
  have convertible : Convertible .both left right :=
    (ofTerms left right 2 4 (by decide) (by decide)).1 (by decide)
  obtain ⟨l, r, parsed, inLeft, inRight⟩ : ∃ l r,
      parseProgram "(λx.x) y; λz.y z" = .ok [.term l, .term r] ∧
      resolveTerm .empty {} l 0 = .ok (left, 2) ∧ resolveTerm .empty {} r 2 = .ok (right, 4) :=
    ⟨_, _, rfl, rfl, rfl⟩
  obtain ⟨answer, answered, _, _, _, complete⟩ := ofSources (fun _ none => nomatch none) _ _ _ _ _
    parsed inLeft inRight
  rw [complete rfl (by decide) (by decide) convertible] at answered
  exact ⟨convertible, answered⟩

end Session

end UntypedLambda
