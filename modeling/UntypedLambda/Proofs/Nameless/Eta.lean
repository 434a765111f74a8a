import UntypedLambda.Proofs.Nameless.Parallel

set_option autoImplicit false

/-! Confluence of eta contraction, and of beta and eta contraction together. Two eta contractions
meet after at most one more each. A parallel beta contraction and an eta contraction meet after one
parallel contraction on one side and eta contractions on the other, so the two kinds commute. -/

namespace UntypedLambda.Nameless

open Relation

variable {α : Type}

namespace Eta

/-! ### The shapes of an eta contraction -/

theorem lam_cases {body next : Nameless α} (step : Eta (.lam body) next) :
    body = .app (next.rename Nat.succ) (.bound 0) ∨
      ∃ inner, next = .lam inner ∧ Eta body inner := by
  cases step with
  | root found => exact Or.inl (Nameless.lam.inj ((etaRoot?_eq_some_iff _ _).mp found))
  | lam inBody => exact Or.inr ⟨_, rfl, inBody⟩

theorem app_cases {function argument next : Nameless α} (step : Eta (.app function argument) next) :
    (∃ inner, next = .app inner argument ∧ Eta function inner) ∨
      ∃ inner, next = .app function inner ∧ Eta argument inner := by
  cases step with
  | root found => cases (etaRoot?_eq_some_iff _ _).mp found
  | function _ inFunction => exact Or.inl ⟨_, rfl, inFunction⟩
  | argument _ inArgument => exact Or.inr ⟨_, rfl, inArgument⟩

theorem not_bound {index : Nat} {next : Nameless α} : ¬ Eta (.bound index) next := by
  intro step
  cases step with
  | root found => cases (etaRoot?_eq_some_iff _ _).mp found

theorem not_free {name : α} {next : Nameless α} : ¬ Eta (.free name) next := by
  intro step
  cases step with
  | root found => cases (etaRoot?_eq_some_iff _ _).mp found

/-! ### Renaming and substitution -/

theorem rename {t next : Nameless α} (step : Eta t next) (ρ : Nat → Nat) :
    Eta (t.rename ρ) (next.rename ρ) := by
  induction step generalizing ρ with
  | @root t next found =>
      rw [(etaRoot?_eq_some_iff _ _).mp found]
      simp only [Nameless.rename, rename_succ_rename]
      exact Eta.redex _
  | lam _ ih => exact .lam (ih _)
  | function argument _ ih => exact .function _ (ih ρ)
  | argument function _ ih => exact .argument _ (ih ρ)

theorem subst {t next : Nameless α} (step : Eta t next) (σ : Nat → Nameless α) :
    Eta (t.subst σ) (next.subst σ) := by
  induction step generalizing σ with
  | @root t next found =>
      rw [(etaRoot?_eq_some_iff _ _).mp found]
      simp only [Nameless.subst, rename_succ_subst]
      exact Eta.redex _
  | lam _ ih => exact .lam (ih _)
  | function argument _ ih => exact .function _ (ih σ)
  | argument function _ ih => exact .argument _ (ih σ)

theorem of_rename {ρ : Nat → Nat} {t u : Nameless α} (step : Eta (t.rename ρ) u) :
    ∃ next, u = next.rename ρ ∧ Eta t next := by
  induction t generalizing ρ u with
  | bound index => exact absurd step not_bound
  | free name => exact absurd step not_free
  | lam body ih =>
      rcases lam_cases step with redex | ⟨inner, rfl, inBody⟩
      · cases body with
        | bound index => cases redex
        | free name => cases redex
        | lam body => cases redex
        | app function argument =>
            obtain ⟨sameFunction, sameArgument⟩ := Nameless.app.inj redex
            obtain ⟨next, rfl, rfl⟩ := exists_of_rename_liftIndex sameFunction
            have atZero : argument = .bound 0 := by
              cases argument with
              | bound index =>
                  cases index with
                  | zero => rfl
                  | succ index => cases sameArgument
              | free name => cases sameArgument
              | lam body => cases sameArgument
              | app first second => cases sameArgument
            rw [atZero]
            exact ⟨next, rfl, Eta.redex next⟩
      · obtain ⟨next, rfl, inner⟩ := ih inBody
        exact ⟨.lam next, rfl, .lam inner⟩
  | app function argument ihFunction ihArgument =>
      rcases app_cases step with ⟨inner, rfl, inFunction⟩ | ⟨inner, rfl, inArgument⟩
      · obtain ⟨next, rfl, inner⟩ := ihFunction inFunction
        exact ⟨.app next argument, rfl, .function argument inner⟩
      · obtain ⟨next, rfl, inner⟩ := ihArgument inArgument
        exact ⟨.app function next, rfl, .argument function inner⟩

end Eta

theorem Reduces.eta_rename {t next : Nameless α} (steps : Reduces etaRoot? t next)
    (ρ : Nat → Nat) : Reduces etaRoot? (t.rename ρ) (next.rename ρ) :=
  ReflTransGen.lift (Nameless.rename ρ) (fun _ _ step => Eta.rename step ρ) _ _ steps

/-- Eta reductions of what is substituted are eta reductions of the result. -/
theorem Reduces.eta_subst_pointwise {σ σ' : Nat → Nameless α}
    (steps : ∀ index, Reduces etaRoot? (σ index) (σ' index)) (t : Nameless α) :
    Reduces etaRoot? (t.subst σ) (t.subst σ') := by
  induction t generalizing σ σ' with
  | bound index => exact steps index
  | free name => exact .refl
  | lam body ih =>
      apply Reduces.lam
      apply ih
      intro index
      cases index with
      | zero => exact .refl
      | succ index => exact (steps index).eta_rename Nat.succ
  | app function argument ihFunction ihArgument =>
      exact (ihFunction steps).app (ihArgument steps)

theorem Reduces.eta_instantiate {body body' argument argument' : Nameless α}
    (inBody : Reduces etaRoot? body body') (inArgument : Reduces etaRoot? argument argument') :
    Reduces etaRoot? (body.instantiate 0 argument) (body'.instantiate 0 argument') := by
  rw [instantiate_zero, instantiate_zero]
  have first : Reduces etaRoot? (body.subst (single argument)) (body'.subst (single argument)) :=
    ReflTransGen.lift (Nameless.subst (single argument)) (fun _ _ step => Eta.subst step _) _ _
      inBody
  refine first.trans (Reduces.eta_subst_pointwise ?_ body')
  intro index
  cases index with
  | zero => exact inArgument
  | succ index => exact .refl

/-! ### Eta contraction alone -/

private theorem ReflGen.lift_eta {wrap : Nameless α → Nameless α}
    (compatible : ∀ t next, Eta t next → Eta (wrap t) (wrap next)) {t next : Nameless α}
    (step : ReflGen Eta t next) : ReflGen Eta (wrap t) (wrap next) := by
  cases step with
  | refl => exact .refl
  | single step => exact .single (compatible _ _ step)

/-- A contraction inside an eta redex is undone by contracting the redex itself. -/
private theorem Eta.redex_meets {t inner : Nameless α}
    (step : Eta (.app (t.rename Nat.succ) (.bound 0)) inner) :
    ∃ target, Eta t target ∧ Eta (.lam inner) target := by
  rcases app_cases step with ⟨next, rfl, inFunction⟩ | ⟨next, rfl, inArgument⟩
  · obtain ⟨target, rfl, stepTarget⟩ := of_rename inFunction
    exact ⟨target, stepTarget, Eta.redex target⟩
  · exact absurd inArgument not_bound

/-- Two eta contractions of a term meet after at most one more each. -/
theorem Eta.diamond {t left right : Nameless α} (toLeft : Eta t left) (toRight : Eta t right) :
    ∃ target, ReflGen Eta left target ∧ ReflGen Eta right target := by
  induction t generalizing left right with
  | bound index => exact absurd toLeft not_bound
  | free name => exact absurd toLeft not_free
  | lam body ih =>
      rcases lam_cases toLeft with leftRedex | ⟨leftInner, rfl, leftStep⟩
      · rcases lam_cases toRight with rightRedex | ⟨rightInner, rfl, rightStep⟩
        · rw [leftRedex] at rightRedex
          have same := rename_succ_injective (Nameless.app.inj rightRedex).1
          exact ⟨left, .refl, same ▸ .refl⟩
        · rw [leftRedex] at rightStep
          obtain ⟨target, fromLeft, fromRight⟩ := redex_meets rightStep
          exact ⟨target, .single fromLeft, .single fromRight⟩
      · rcases lam_cases toRight with rightRedex | ⟨rightInner, rfl, rightStep⟩
        · rw [rightRedex] at leftStep
          obtain ⟨target, fromRight, fromLeft⟩ := redex_meets leftStep
          exact ⟨target, .single fromLeft, .single fromRight⟩
        · obtain ⟨target, fromLeft, fromRight⟩ := ih leftStep rightStep
          exact ⟨.lam target, ReflGen.lift_eta (fun _ _ => .lam) fromLeft,
            ReflGen.lift_eta (fun _ _ => .lam) fromRight⟩
  | app function argument ihFunction ihArgument =>
      rcases app_cases toLeft with ⟨leftInner, rfl, leftStep⟩ | ⟨leftInner, rfl, leftStep⟩
      · rcases app_cases toRight with ⟨rightInner, rfl, rightStep⟩ | ⟨rightInner, rfl, rightStep⟩
        · obtain ⟨target, fromLeft, fromRight⟩ := ihFunction leftStep rightStep
          exact ⟨.app target argument,
            ReflGen.lift_eta (fun _ _ => .function argument) fromLeft,
            ReflGen.lift_eta (fun _ _ => .function argument) fromRight⟩
        · exact ⟨.app leftInner rightInner, .single (.argument _ rightStep),
            .single (.function _ leftStep)⟩
      · rcases app_cases toRight with ⟨rightInner, rfl, rightStep⟩ | ⟨rightInner, rfl, rightStep⟩
        · exact ⟨.app rightInner leftInner, .single (.function _ rightStep),
            .single (.argument _ leftStep)⟩
        · obtain ⟨target, fromLeft, fromRight⟩ := ihArgument leftStep rightStep
          exact ⟨.app function target,
            ReflGen.lift_eta (fun _ _ => .argument function) fromLeft,
            ReflGen.lift_eta (fun _ _ => .argument function) fromRight⟩

/-- Two eta reductions of a term can be continued to a common term. -/
theorem eta_confluent {t left right : Nameless α} (toLeft : Reduces etaRoot? t left)
    (toRight : Reduces etaRoot? t right) : Join (Reduces etaRoot?) left right := by
  refine church_rosser ?_ toLeft toRight
  intro start first second toFirst toSecond
  obtain ⟨target, fromFirst, fromSecond⟩ := Eta.diamond toFirst toSecond
  exact ⟨target, fromFirst, fromSecond.to_reflTransGen⟩

/-! ### Both kinds of contraction -/

/-- What a parallel contraction makes of the body of an eta redex: the function contracts inside
it, or it is an abstraction that meets the abstracted variable. -/
private theorem Parallel.eta_body_cases {t inner : Nameless α}
    (step : Parallel (.app (t.rename Nat.succ) (.bound 0)) inner) :
    (∃ target, inner = .app (target.rename Nat.succ) (.bound 0) ∧ Parallel t target) ∨
      ∃ body, t = .lam body ∧ Parallel body inner := by
  generalize source : Nameless.app (t.rename Nat.succ) (.bound 0) = body at step
  cases step with
  | bound index => cases source
  | free name => cases source
  | lam inBody => cases source
  | app inFunction inArgument =>
      cases source
      cases inArgument with
      | bound =>
          obtain ⟨target, rfl, stepTarget⟩ := of_rename inFunction
          exact Or.inl ⟨target, rfl, stepTarget⟩
  | redex inBody inArgument =>
      cases t with
      | bound index => cases source
      | free name => cases source
      | app first second => cases source
      | lam body =>
          cases source
          cases inArgument with
          | bound =>
              obtain ⟨target, rfl, stepTarget⟩ := of_rename inBody
              rw [instantiate_rename_liftIndex]
              exact Or.inr ⟨body, rfl, stepTarget⟩

/-- A parallel contraction and an eta contraction of a term meet. -/
theorem Parallel.meets_eta {t left right : Nameless α} (toLeft : Parallel t left)
    (toRight : Eta t right) :
    ∃ target, Reduces etaRoot? left target ∧ Parallel right target := by
  induction toLeft generalizing right with
  | bound index => exact absurd toRight Eta.not_bound
  | free name => exact absurd toRight Eta.not_free
  | @lam body body' inBody ih =>
      rcases Eta.lam_cases toRight with redex | ⟨inner, rfl, rightStep⟩
      · rw [redex] at inBody
        rcases eta_body_cases inBody with ⟨target, rfl, stepTarget⟩ | ⟨function, rfl, stepBody⟩
        · exact ⟨target, .single (Eta.redex target), stepTarget⟩
        · exact ⟨.lam body', .refl, .lam stepBody⟩
      · obtain ⟨target, fromLeft, fromRight⟩ := ih rightStep
        exact ⟨.lam target, fromLeft.lam, .lam fromRight⟩
  | @app function function' argument argument' inFunction inArgument ihFunction ihArgument =>
      rcases Eta.app_cases toRight with ⟨inner, rfl, rightStep⟩ | ⟨inner, rfl, rightStep⟩
      · obtain ⟨target, fromLeft, fromRight⟩ := ihFunction rightStep
        exact ⟨.app target argument', fromLeft.function argument', .app fromRight inArgument⟩
      · obtain ⟨target, fromLeft, fromRight⟩ := ihArgument rightStep
        exact ⟨.app function' target, fromLeft.argument function', .app inFunction fromRight⟩
  | @redex body body' argument argument' inBody inArgument ihBody ihArgument =>
      rcases Eta.app_cases toRight with ⟨inner, rfl, rightStep⟩ | ⟨inner, rfl, rightStep⟩
      · rcases Eta.lam_cases rightStep with redex | ⟨inner, rfl, bodyStep⟩
        · rw [redex] at inBody
          rcases eta_body_cases inBody with ⟨target, rfl, stepTarget⟩ | ⟨function, rfl, stepBody⟩
          · refine ⟨.app target argument', ?_, .app stepTarget inArgument⟩
            rw [Nameless.instantiate, instantiate_rename_succ, instantiate_bound_zero]
          · exact ⟨body'.instantiate 0 argument', .refl, .redex stepBody inArgument⟩
        · obtain ⟨target, fromLeft, fromRight⟩ := ihBody bodyStep
          exact ⟨target.instantiate 0 argument', fromLeft.eta_instantiate .refl,
            .redex fromRight inArgument⟩
      · obtain ⟨target, fromLeft, fromRight⟩ := ihArgument rightStep
        exact ⟨body'.instantiate 0 target, Reduces.eta_instantiate .refl fromLeft,
          .redex inBody fromRight⟩

theorem Parallel.meets_eta_reduction {t left right : Nameless α} (toLeft : Parallel t left)
    (toRight : Reduces etaRoot? t right) :
    ∃ target, Reduces etaRoot? left target ∧ Parallel right target := by
  induction toRight with
  | refl => exact ⟨left, .refl, toLeft⟩
  | tail _ step ih =>
      obtain ⟨middle, fromLeft, fromMiddle⟩ := ih
      obtain ⟨target, toTarget, fromRight⟩ := fromMiddle.meets_eta step
      exact ⟨target, fromLeft.trans toTarget, fromRight⟩

private def Strip (t next : Nameless α) : Prop :=
  Parallel t next ∨ Reduces etaRoot? t next

private theorem Strip.diamond {t left right : Nameless α} (toLeft : Strip t left)
    (toRight : Strip t right) : ∃ target, Strip left target ∧ Strip right target := by
  rcases toLeft with leftBeta | leftEta
  · rcases toRight with rightBeta | rightEta
    · exact ⟨t.develop, Or.inl leftBeta.develop, Or.inl rightBeta.develop⟩
    · obtain ⟨target, fromLeft, fromRight⟩ := leftBeta.meets_eta_reduction rightEta
      exact ⟨target, Or.inr fromLeft, Or.inl fromRight⟩
  · rcases toRight with rightBeta | rightEta
    · obtain ⟨target, fromRight, fromLeft⟩ := rightBeta.meets_eta_reduction leftEta
      exact ⟨target, Or.inl fromLeft, Or.inr fromRight⟩
    · obtain ⟨target, fromLeft, fromRight⟩ := eta_confluent leftEta rightEta
      exact ⟨target, Or.inr fromLeft, Or.inr fromRight⟩

private theorem reflTransGen_betaEta_iff (t next : Nameless α) :
    ReflTransGen BetaEta t next ↔ ReflTransGen Strip t next := by
  constructor
  · refine ReflTransGen.mono (fun _ _ step => ?_) t next
    rcases step with beta | eta
    · exact Or.inl (Parallel.of_beta beta)
    · exact Or.inr (.single eta)
  · refine reflTransGen_closed (fun _ _ step => ?_) t next
    rcases step with parallel | reduction
    · exact ReflTransGen.mono (fun _ _ step => Or.inl step) _ _ parallel.reduces
    · exact ReflTransGen.mono (fun _ _ step => Or.inr step) _ _ reduction

/-- Two reductions of a term by both kinds of contraction can be continued to a common term. -/
theorem betaEta_confluent {t left right : Nameless α} (toLeft : ReflTransGen BetaEta t left)
    (toRight : ReflTransGen BetaEta t right) : Join (ReflTransGen BetaEta) left right := by
  rw [reflTransGen_betaEta_iff] at toLeft toRight
  have diamond (start first second : Nameless α) (toFirst : Strip start first)
      (toSecond : Strip start second) :
      ∃ target, ReflGen Strip first target ∧ ReflTransGen Strip second target := by
    obtain ⟨target, fromFirst, fromSecond⟩ := toFirst.diamond toSecond
    exact ⟨target, .single fromFirst, .single fromSecond⟩
  obtain ⟨target, fromLeft, fromRight⟩ := church_rosser diamond toLeft toRight
  exact ⟨target, (reflTransGen_betaEta_iff _ _).mpr fromLeft,
    (reflTransGen_betaEta_iff _ _).mpr fromRight⟩

end UntypedLambda.Nameless
