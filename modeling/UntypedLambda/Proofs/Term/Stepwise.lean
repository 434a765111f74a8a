import UntypedLambda.Proofs.Matching.Relabel
import UntypedLambda.Proofs.Matching.Text

set_option autoImplicit false

/-! Substitution that renames each abstraction with a pass of its own. An inner abstraction is
renamed once for every abstraction around it, and the renamings add up to the one that substitution
in a single pass carries along. So both have the same result but for the new identities. -/

namespace UntypedLambda.Term

theorem size_renameFrom (ρ : Renaming) (t : Term) (supply : Nat) :
    (t.renameFrom ρ supply).1.size = t.size := by
  induction t generalizing ρ supply with
  | var v => rfl
  | abs binder body ih => exact congrArg (· + 1) (ih _ _)
  | app function argument ihFunction ihArgument =>
      rw [renameFrom, size, size, ihFunction, ihArgument]

/-- Substitution that renames an abstraction before it goes on into the new body. -/
def substituteStepwise (id : Nat) (replacement : Term) : Term → Nat → Term × Nat
  | .var v, supply =>
      if v.id == id then replacement.freshCopy supply else (.var v, supply)
  | .abs binder body, supply =>
      if binder.id == id then
        (.abs binder body, supply)
      else
        let renamed := alphaRename binder body supply
        let inner := substituteStepwise id replacement renamed.2.1 renamed.2.2
        (.abs renamed.1 inner.1, inner.2)
  | .app function argument, supply =>
      let left := substituteStepwise id replacement function supply
      let right := substituteStepwise id replacement argument left.2
      (.app left.1 right.1, right.2)
termination_by t => t.size
decreasing_by
  · rw [alphaRename, size_renameFrom, size]
    omega
  · rw [size]
    omega
  · rw [size]
    omega

/-! ### Renamings that add up -/

namespace Renaming

variable {ρ σ τ : Renaming} {base supply : Nat}

def Composes (ρ σ τ : Renaming) (base : Nat) : Prop :=
  ∀ v : Var, v.id < base → σ.apply (ρ.apply v) = τ.apply v

theorem Composes.pass (composes : Composes ρ σ τ base) (issued : ρ.Issued base supply)
    (le : base ≤ supply) (binder : Var) (next : Nat) :
    Composes ((binder.id, binder.withId supply) :: ρ) ((supply, binder.withId next) :: σ)
      ((binder.id, binder.withId next) :: τ) base := by
  intro v below
  by_cases same : v.id = binder.id
  · rw [apply_cons_self same, apply_cons_self same]
    exact apply_cons_self rfl _ _
  · have old := issued.apply_lt (Nat.lt_of_lt_of_le below le)
    rw [apply_cons_of_ne same, apply_cons_of_ne same, apply_cons_of_ne (Nat.ne_of_lt old)]
    exact composes v below

/-- An identity below all those that a renaming puts in place stands for itself alone. -/
theorem Issued.apply_ne {id : Nat} (issued : ρ.Issued base supply) (lt : id < base) {v : Var}
    (moved : v.id = id → v.id ∈ ρ.old) : (ρ.apply v).id ≠ id := by
  by_cases renamed : v.id ∈ ρ.old
  · obtain ⟨entry, member, result⟩ := exists_apply_of_mem renamed
    rw [result]
    exact Nat.ne_of_gt (Nat.lt_of_lt_of_le lt (issued.above entry member))
  · rw [apply_of_not_mem renamed]
    exact fun same => renamed (moved same)

end Renaming

section Copies

variable {ρ σ τ : Renaming} {base : Nat}

/-- Renaming a copy is renaming the term. -/
theorem renameFrom_renameFrom {t : Term} {first : Nat} (issued : ρ.Issued base first)
    (le : base ≤ first) (below : t.Below base) (composes : ρ.Composes σ τ base) (supply : Nat) :
    (t.renameFrom ρ first).1.renameFrom σ supply = t.renameFrom τ supply := by
  induction t generalizing ρ σ τ first supply with
  | var v => rw [renameFrom, renameFrom, renameFrom, composes v ((below_var _ _).mp below)]
  | abs binder body ih =>
      obtain ⟨_, inBody⟩ := (below_abs _ _ _).mp below
      have inner := ih (issued.pass le binder) (Nat.le_succ_of_le le) inBody
        (composes.pass issued le binder supply) (supply + 1)
      simp only [renameFrom]
      rw [← inner]
      rfl
  | app function argument ihFunction ihArgument =>
      obtain ⟨inFunction, inArgument⟩ := (below_app _ _ _).mp below
      have grown := le_renameFrom ρ function first
      simp only [renameFrom, ihFunction issued le inFunction composes,
        ihArgument (issued.mono grown) (Nat.le_trans le grown) inArgument composes]

/-- An identity that is renamed around a term does not appear in the copy. -/
theorem ne_of_mem_vars_renameFrom {t : Term} {id first : Nat} (issued : ρ.Issued base first)
    (le : base ≤ first) (lt : id < base) (renamed : id ∈ ρ.old) :
    ∀ v ∈ (t.renameFrom ρ first).1.vars, v.id ≠ id := by
  induction t generalizing ρ first with
  | var w =>
      intro v member
      rw [List.mem_singleton.mp member]
      exact issued.apply_ne lt fun same => same ▸ renamed
  | abs binder body ih =>
      intro v member
      rcases List.mem_cons.mp member with rfl | inBody
      · exact Nat.ne_of_gt (Nat.lt_of_lt_of_le lt le)
      · exact ih (issued.pass le binder) (Nat.le_succ_of_le le)
          (List.mem_cons_of_mem _ renamed) v inBody
  | app function argument ihFunction ihArgument =>
      have grown := le_renameFrom ρ function first
      intro v member
      rcases List.mem_append.mp member with inFunction | inArgument
      · exact ihFunction issued le renamed v inFunction
      · exact ihArgument (issued.mono grown) (Nat.le_trans le grown) renamed v inArgument

/-- Substitution for an identity that a term does not have only renames. -/
theorem substituteUnder_of_absent {id : Nat} {replacement t : Term}
    (absent : ∀ v ∈ t.vars, v.id ≠ id) (σ : Renaming) (supply : Nat) :
    substituteUnder id replacement σ t supply = t.renameFrom σ supply := by
  induction t generalizing σ supply with
  | var v =>
      have different : ¬ (v.id == id) = true := by
        rw [beq_iff_eq]
        exact absent v List.mem_cons_self
      rw [substituteUnder, if_neg different, renameFrom]
  | abs binder body ih =>
      have different : ¬ (binder.id == id) = true := by
        rw [beq_iff_eq]
        exact absent binder List.mem_cons_self
      have inBody := ih fun v member => absent v (List.mem_cons_of_mem _ member)
      simp only [substituteUnder, if_neg different, renameFrom, inBody]
  | app function argument ihFunction ihArgument =>
      have inFunction := ihFunction fun v member => absent v (List.mem_append_left _ member)
      have inArgument := ihArgument fun v member => absent v (List.mem_append_right _ member)
      simp only [substituteUnder, renameFrom, inFunction, inArgument]

/-- Substitution in a copy is substitution in the term, below the renaming that made the copy. -/
theorem substituteUnder_renameFrom {id : Nat} {replacement t : Term} {first : Nat}
    (issued : ρ.Issued base first) (le : base ≤ first) (below : t.Below base) (lt : id < base)
    (kept : id ∉ ρ.old) (composes : ρ.Composes σ τ base) (inside : τ.isEmpty = false)
    (supply : Nat) :
    substituteUnder id replacement σ (t.renameFrom ρ first).1 supply =
      substituteUnder id replacement τ t supply := by
  induction t generalizing ρ σ τ first supply with
  | var v =>
      rw [renameFrom, substituteUnder, substituteUnder]
      by_cases same : v.id = id
      · rw [Renaming.apply_of_not_mem (same ▸ kept)]
        simp [same]
      · have different := issued.apply_ne lt fun clash => absurd clash same
        simp [same, different, composes v ((below_var _ _).mp below)]
  | abs binder body ih =>
      obtain ⟨_, inBody⟩ := (below_abs _ _ _).mp below
      have passed := issued.pass le binder
      have composed := composes.pass issued le binder supply
      have fresh : ¬ ((binder.withId first).id == id) = true := by
        rw [beq_iff_eq]
        exact Nat.ne_of_gt (Nat.lt_of_lt_of_le lt le)
      by_cases same : binder.id = id
      · -- The abstraction hides `id`. In the copy its binder is new, and `id` is gone below it.
        have gone := ne_of_mem_vars_renameFrom (t := body) passed (Nat.le_succ_of_le le) lt
          (same ▸ List.mem_cons_self)
        have inner := renameFrom_renameFrom passed (Nat.le_succ_of_le le) inBody composed
          (supply + 1)
        simp only [renameFrom, substituteUnder, if_neg fresh, if_pos (beq_iff_eq.mpr same), inside]
        rw [substituteUnder_of_absent gone]
        simp only [← inner]
        rfl
      · have keptInside : id ∉ Renaming.old ((binder.id, binder.withId first) :: ρ) := by
          rw [Renaming.old, List.map_cons, List.mem_cons, not_or]
          exact ⟨Ne.symm same, kept⟩
        have inner := ih passed (Nat.le_succ_of_le le) inBody keptInside composed rfl (supply + 1)
        have different : ¬ (binder.id == id) = true := by
          rw [beq_iff_eq]
          exact same
        simp only [renameFrom, substituteUnder, if_neg fresh, if_neg different, ← inner]
        rfl
  | app function argument ihFunction ihArgument =>
      obtain ⟨inFunction, inArgument⟩ := (below_app _ _ _).mp below
      have grown := le_renameFrom ρ function first
      simp only [renameFrom, substituteUnder,
        ihFunction issued le inFunction kept composes inside,
        ihArgument (issued.mono grown) (Nat.le_trans le grown) inArgument kept composes inside]

end Copies

/-! ### Renamed supplies -/

/-- A renaming of identities that keeps those below `base`, and takes the identities that `supply`
issues to those that `supply'` issues, one after the other. -/
structure Reissues (base supply supply' : Nat) (f : Nat → Nat) : Prop where
  injective : Function.Injective f
  old : ∀ id < base, f id = id
  next : ∀ issued, f (supply + issued) = supply' + issued

namespace Reissues

variable {base supply supply' supply'' : Nat} {f g : Nat → Nat}

theorem refl (base supply : Nat) : Reissues base supply supply id :=
  ⟨Function.injective_id, fun _ _ => rfl, fun _ => rfl⟩

theorem mono (reissues : Reissues base supply supply' f) {base' : Nat} (le : base' ≤ base) :
    Reissues base' supply supply' f :=
  ⟨reissues.injective, fun id lt => reissues.old id (Nat.lt_of_lt_of_le lt le), reissues.next⟩

theorem trans (first : Reissues base supply supply' f) {base' : Nat} (le : base ≤ base')
    (second : Reissues base' supply' supply'' g) : Reissues base supply supply'' (g ∘ f) where
  injective := second.injective.comp first.injective
  old := fun id lt => by
    rw [Function.comp_apply, first.old id lt, second.old id (Nat.lt_of_lt_of_le lt le)]
  next := fun issued => by rw [Function.comp_apply, first.next, second.next]

/-- The renaming that skips the identities issued in between. -/
theorem skip (le : supply ≤ supply') :
    Reissues supply supply supply' fun id => if id < supply then id else id + (supply' - supply) where
  injective := by
    intro id id' same
    dsimp only at same
    split at same <;> split at same <;> omega
  old := fun id lt => if_pos lt
  next := fun issued => by
    rw [if_neg (by omega)]
    omega

theorem base_le (reissues : Reissues base supply supply' f) (le : base ≤ supply) :
    base ≤ supply' := by
  by_contra small
  have kept := reissues.old supply' (Nat.lt_of_not_le small)
  have moved := reissues.next 0
  have same := reissues.injective (kept.trans moved.symm)
  omega

theorem lt (reissues : Reissues base supply supply' f) {id : Nat} (issued : id < supply) :
    f id < supply' := by
  by_contra large
  have moved := reissues.next (f id - supply')
  have same : supply + (f id - supply') = id := by
    apply reissues.injective
    omega
  omega

theorem biUnique (reissues : Reissues base supply supply' f) :
    Relator.BiUnique fun id id' => f id = id' := by
  constructor
  · intro id id' image same same'
    exact reissues.injective (same.trans same'.symm)
  · intro id image image' same same'
    exact same.symm.trans same'

theorem matches_of_below (reissues : Reissues base supply supply' f) {t : Term}
    (below : t.Below base) : t.Matches (fun id id' => f id = id') t := by
  have matched : t.Matches (fun id id' => f id = id') (t.relabel f) :=
    matches_relabel fun _ _ => rfl
  rwa [relabel_of_below reissues.old below] at matched

theorem matches_single (reissues : Reissues base supply supply' f) {id : Nat} (old : id < base)
    (fresh : Var) (issued : fresh.id < base) :
    Renaming.Matches (fun id id' => f id = id') [(id, fresh)] [(id, fresh)] :=
  .cons ⟨reissues.old id old, rfl, reissues.old fresh.id issued⟩ .nil

end Reissues

/-- Substitution with another supply has the same result but for the identities that it issues. -/
theorem Reissues.substituteUnder {base supply supply' id : Nat} {f : Nat → Nat}
    (reissues : Reissues base supply supply' f) {replacement t : Term} (below : t.Below base)
    (replacementBelow : replacement.Below base) (lt : id < base) {ρ : Renaming}
    (renamings : ρ.Matches (fun id id' => f id = id') ρ) :
    let result := Term.substituteUnder id replacement ρ t supply
    let result' := Term.substituteUnder id replacement ρ t supply'
    Reissues base result.2 result'.2 f ∧ result'.1 = result.1.relabel f := by
  have made := (reissues.matches_of_below below).substituteUnder reissues.biUnique
    (reissues.old id lt) (reissues.matches_of_below replacementBelow) renamings reissues.next
  exact ⟨⟨reissues.injective, reissues.old, made.supply⟩,
    made.term.eq_relabel fun _ _ same => same⟩

def Renewed (base : Nat) (result result' : Term × Nat) : Prop :=
  ∃ f, Reissues base result.2 result'.2 f ∧ result'.1 = result.1.relabel f

namespace Renewed

variable {base base' : Nat} {first second third : Term × Nat}

theorem refl (base : Nat) (result : Term × Nat) : Renewed base result result :=
  ⟨id, .refl base result.2, by rw [relabel_id]; rfl⟩

theorem trans (renewed : Renewed base first second) (le : base ≤ base')
    (again : Renewed base' second third) : Renewed base first third := by
  obtain ⟨f, reissues, result⟩ := renewed
  obtain ⟨g, reissues', result'⟩ := again
  refine ⟨g ∘ f, reissues.trans le reissues', ?_⟩
  rw [result', result, relabel_relabel]

theorem abs (renewed : Renewed base first second) (binder : Var) (old : binder.id < base)
    (le : base' ≤ base) :
    Renewed base' (.abs binder first.1, first.2) (.abs binder second.1, second.2) := by
  obtain ⟨f, reissues, result⟩ := renewed
  refine ⟨f, reissues.mono le, ?_⟩
  rw [result, relabel, reissues.old binder.id old, Var.withId]

/-- The supply of the argument is what the function leaves, so the argument is carried over to the
other supply first. -/
theorem app {left left' right moved right' : Term × Nat} {f : Nat → Nat}
    (function : Reissues base left.2 left'.2 f ∧ left'.1 = left.1.relabel f)
    (below : left.1.Below left.2) (le : base ≤ left'.2)
    (argument : Reissues base right.2 moved.2 f ∧ moved.1 = right.1.relabel f)
    (renewed : Renewed left'.2 moved right') :
    Renewed base (.app left.1 right.1, right.2) (.app left'.1 right'.1, right'.2) := by
  obtain ⟨g, reissues, result⟩ := renewed
  have kept : left'.1.relabel g = left'.1 := by
    apply relabel_of_below reissues.old
    rw [function.2]
    exact relabel_below (fun id => function.1.lt) below
  refine ⟨g ∘ f, argument.1.trans le reissues, ?_⟩
  rw [result, argument.2, relabel, ← relabel_relabel, ← relabel_relabel, ← function.2, kept]

end Renewed

/-! ### Main result -/

theorem substituteStepwise_renewed {id : Nat} {replacement : Term} (t : Term) (supply : Nat)
    (below : t.Below supply) (replacementBelow : replacement.Below supply) (lt : id < supply) :
    Renewed supply (t.substitute id replacement supply)
      (substituteStepwise id replacement t supply) := by
  induction t, supply using substituteStepwise.induct id replacement with
  | case1 v supply same =>
      rw [substituteStepwise, if_pos same, substitute, substituteUnder, if_pos same]
      exact .refl supply _
  | case2 v supply different =>
      rw [substituteStepwise, if_neg different, substitute, substituteUnder, if_neg different]
      exact .refl supply _
  | case3 binder body supply same =>
      rw [substituteStepwise, if_pos same, substitute, substituteUnder, if_pos same]
      exact .refl supply _
  | case4 binder body supply different renamed ih =>
      rw [substituteStepwise, if_neg different, substitute, substituteUnder, if_neg different]
      obtain ⟨binderLt, inBody⟩ := (below_abs _ _ _).mp below
      have up : supply ≤ supply + 1 := Nat.le_succ supply
      have issued := (Renaming.issued_nil supply supply).pass (Nat.le_refl supply) binder
      have grown : supply + 1 ≤ renamed.2.2 := le_renameFrom _ body (supply + 1)
      -- The copy of the body is substituted in as the body itself, below the renaming.
      have merged : renamed.2.1.substitute id replacement renamed.2.2 =
          substituteUnder id replacement [(binder.id, binder.withId supply)] body renamed.2.2 := by
        refine substituteUnder_renameFrom issued up inBody lt ?_ (fun _ _ => rfl) rfl _
        intro member
        rw [List.mem_singleton.mp member] at different
        exact different (beq_self_eq_true _)
      -- The identities of the copy are skipped.
      have skipped := Reissues.skip grown
      have renamings := skipped.matches_single (Nat.lt_succ_of_lt binderLt)
        (binder.withId supply) (Nat.lt_succ_self supply)
      have shifted := skipped.substituteUnder (inBody.mono up) (replacementBelow.mono up)
        (Nat.lt_succ_of_lt lt) renamings
      have inner := ih (renameFrom_below issued up (inBody.mono up))
        ((replacementBelow.mono up).mono grown) (Nat.lt_of_lt_of_le (Nat.lt_succ_of_lt lt) grown)
      rw [merged] at inner
      have whole := Renewed.trans ⟨_, shifted⟩ grown inner
      exact whole.abs (binder.withId supply) (Nat.lt_succ_self supply) up
  | case5 function argument supply left ihFunction ihArgument =>
      obtain ⟨inFunction, inArgument⟩ := (below_app _ _ _).mp below
      have up := le_substitute function id replacement supply
      obtain ⟨f, reissues, result⟩ := ihFunction inFunction replacementBelow lt
      have grown : supply ≤ left.2 := reissues.base_le up
      have renamings : Renaming.Matches (fun id id' => f id = id') [] [] := .nil
      have moved := reissues.substituteUnder inArgument replacementBelow lt renamings
      have inner := ihArgument (inArgument.mono grown) (replacementBelow.mono grown)
        (Nat.lt_of_lt_of_le lt grown)
      rw [substituteStepwise]
      exact .app ⟨reissues, result⟩ (substitute_below id inFunction replacementBelow) grown moved
        inner

/-- Substitution in one pass agrees with substitution that renames each abstraction first. The
results are equal up to a renaming of identities that is one to one and keeps the identities from
before, so they are equal up to bound variables and have the same text. -/
theorem substitution_agrees_with_stepwise {t replacement : Term} {id supply : Nat}
    (below : t.Below supply) (replacementBelow : replacement.Below supply) (lt : id < supply) :
    let once := (t.substitute id replacement supply).1
    let stepwise := (substituteStepwise id replacement t supply).1
    (∃ f : Nat → Nat, Function.Injective f ∧ (∀ old < supply, f old = old) ∧
        stepwise = once.relabel f) ∧
      once.alphaEqual stepwise = true ∧ once.render = stepwise.render := by
  intro once stepwise
  obtain ⟨f, reissues, result⟩ := substituteStepwise_renewed t supply below replacementBelow lt
  have relabelled : stepwise = once.relabel f := result
  have alike : once.Matches (fun id id' => f id = id') stepwise := by
    rw [relabelled]
    exact matches_relabel fun _ _ => rfl
  refine ⟨⟨f, reissues.injective, reissues.old, relabelled⟩, ?_, alike.render reissues.biUnique⟩
  rw [alphaEqual_iff]
  exact alike.namelessByName reissues.biUnique

/-- The identity that is replaced is bound again below an abstraction that is renamed, and the
replacement has a free variable with the name and the identity of that abstraction. -/
theorem stepwise_substitution_below_hidden_identity :
    let x : Var := ⟨"x", 0⟩
    let y : Var := ⟨"y", 1⟩
    let t : Term := .abs y (.app (.app (.var x) (.var y)) (.abs x (.app (.var y) (.var x))))
    t.Below 2 ∧ (Term.var y).Below 2 ∧ 0 < 2 ∧
      (t.substitute 0 (.var y) 2).1.render = (substituteStepwise 0 (.var y) t 2).1.render := by
  intro x y t
  have below : t.Below 2 := by decide
  have replacementBelow : (Term.var y).Below 2 := by decide
  exact ⟨below, replacementBelow, by decide,
    (substitution_agrees_with_stepwise below replacementBelow (by decide)).2.2⟩

end UntypedLambda.Term
