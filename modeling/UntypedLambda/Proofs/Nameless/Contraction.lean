import Mathlib.Logic.Relation
import UntypedLambda.Proofs.Nameless.Substitution

set_option autoImplicit false

/-! Contraction of a redex at any position. The relation is generated by the contraction of a term
that is itself a redex, so that what only depends on positions is proved once for beta and eta. -/

namespace UntypedLambda.Nameless

open Relation

variable {α β : Type} {root? : Nameless α → Option (Nameless α)}

inductive Contracts (root? : Nameless α → Option (Nameless α)) :
    Nameless α → Nameless α → Prop where
  | root {t next : Nameless α} : root? t = some next → Contracts root? t next
  | lam {body next : Nameless α} :
      Contracts root? body next → Contracts root? (.lam body) (.lam next)
  | function {function next : Nameless α} (argument : Nameless α) :
      Contracts root? function next → Contracts root? (.app function argument) (.app next argument)
  | argument (function : Nameless α) {argument next : Nameless α} :
      Contracts root? argument next → Contracts root? (.app function argument) (.app function next)

abbrev Reduces (root? : Nameless α → Option (Nameless α)) : Nameless α → Nameless α → Prop :=
  ReflTransGen (Contracts root?)

abbrev Beta : Nameless α → Nameless α → Prop :=
  Contracts betaRoot?

abbrev Eta : Nameless α → Nameless α → Prop :=
  Contracts etaRoot?

def BetaEta (t next : Nameless α) : Prop :=
  Beta t next ∨ Eta t next

/-! ### Positions -/

/-- What a contraction below the root can be. -/
private theorem contractAt?_cons_cases {t next : Nameless α} {direction : Direction}
    {position : Position} (found : t.contractAt? root? (direction :: position) = some next) :
    (∃ body inner, direction = .body ∧ t = .lam body ∧ next = .lam inner ∧
      body.contractAt? root? position = some inner) ∨
    (∃ function argument inner, direction = .function ∧ t = .app function argument ∧
      next = .app inner argument ∧ function.contractAt? root? position = some inner) ∨
    (∃ function argument inner, direction = .argument ∧ t = .app function argument ∧
      next = .app function inner ∧ argument.contractAt? root? position = some inner) := by
  unfold contractAt? at found
  split at found
  · rename_i same
    cases same
  · rename_i rest body same
    cases same
    obtain ⟨inner, atInner, rfl⟩ := Option.map_eq_some_iff.mp found
    exact Or.inl ⟨body, inner, rfl, rfl, rfl, atInner⟩
  · rename_i rest function argument same
    cases same
    obtain ⟨inner, atInner, rfl⟩ := Option.map_eq_some_iff.mp found
    exact Or.inr (Or.inl ⟨function, argument, inner, rfl, rfl, rfl, atInner⟩)
  · rename_i rest function argument same
    cases same
    obtain ⟨inner, atInner, rfl⟩ := Option.map_eq_some_iff.mp found
    exact Or.inr (Or.inr ⟨function, argument, inner, rfl, rfl, rfl, atInner⟩)
  · cases found

theorem contracts_of_contractAt? {t next : Nameless α} {position : Position}
    (found : t.contractAt? root? position = some next) : Contracts root? t next := by
  induction position generalizing t next with
  | nil =>
      rw [contractAt?] at found
      exact .root found
  | cons direction position ih =>
      rcases contractAt?_cons_cases found with
        ⟨body, inner, _, rfl, rfl, atInner⟩ | ⟨function, argument, inner, _, rfl, rfl, atInner⟩ |
        ⟨function, argument, inner, _, rfl, rfl, atInner⟩
      · exact .lam (ih atInner)
      · exact .function argument (ih atInner)
      · exact .argument function (ih atInner)

theorem exists_contractAt?_of_contracts {t next : Nameless α} (step : Contracts root? t next) :
    ∃ position, t.contractAt? root? position = some next := by
  induction step with
  | root found => exact ⟨[], by rw [contractAt?, found]⟩
  | lam _ ih =>
      obtain ⟨position, found⟩ := ih
      exact ⟨.body :: position, by rw [contractAt?, found]; rfl⟩
  | function argument _ ih =>
      obtain ⟨position, found⟩ := ih
      exact ⟨.function :: position, by rw [contractAt?, found]; rfl⟩
  | argument function _ ih =>
      obtain ⟨position, found⟩ := ih
      exact ⟨.argument :: position, by rw [contractAt?, found]; rfl⟩

/-- Every redex stands at one of the positions of the term. -/
theorem mem_positions_of_contractAt? {t next : Nameless α} {position : Position}
    (found : t.contractAt? root? position = some next) : position ∈ t.positions := by
  induction position generalizing t next with
  | nil => cases t <;> simp [positions]
  | cons direction position ih =>
      rcases contractAt?_cons_cases found with
        ⟨body, inner, rfl, rfl, _, atInner⟩ | ⟨function, argument, inner, rfl, rfl, _, atInner⟩ |
        ⟨function, argument, inner, rfl, rfl, _, atInner⟩
      · simp [positions, ih atInner]
      · simp [positions, ih atInner]
      · simp [positions, ih atInner]

/-- There is no first redex exactly when there is no redex at any position. -/
theorem contractFirst?_eq_none_iff (t : Nameless α) :
    t.contractFirst? root? = none ↔ ∀ position, t.contractAt? root? position = none := by
  rw [contractFirst?, List.findSome?_eq_none_iff]
  constructor
  · intro absent position
    cases found : t.contractAt? root? position with
    | none => rfl
    | some next =>
        rw [absent position (mem_positions_of_contractAt? found)] at found
        cases found
  · intro absent position _
    exact absent position

theorem contracts_of_contractFirst? {t next : Nameless α}
    (found : t.contractFirst? root? = some next) : Contracts root? t next := by
  obtain ⟨position, _, atPosition⟩ := List.exists_of_findSome?_eq_some found
  exact contracts_of_contractAt? atPosition

theorem not_contracts_of_contractFirst? {t next : Nameless α}
    (absent : t.contractFirst? root? = none) : ¬ Contracts root? t next := by
  intro step
  obtain ⟨position, found⟩ := exists_contractAt?_of_contracts step
  rw [(contractFirst?_eq_none_iff t).mp absent position] at found
  cases found

private theorem findSome?_map_map {ι κ γ δ : Type} (items : List ι) (place : ι → κ)
    (f : κ → Option δ) (g : ι → Option γ) (wrap : γ → δ)
    (same : ∀ item, f (place item) = (g item).map wrap) :
    (items.map place).findSome? f = (items.findSome? g).map wrap := by
  induction items with
  | nil => rfl
  | cons item items ih =>
      simp only [List.map_cons, List.findSome?_cons, same, ih]
      cases g item <;> rfl

theorem contractFirst?_bound (index : Nat) :
    (Nameless.bound index).contractFirst? root? = root? (.bound index) := by
  simp only [contractFirst?, positions, List.findSome?_singleton, contractAt?]

theorem contractFirst?_free (name : α) :
    (Nameless.free name).contractFirst? root? = root? (.free name) := by
  simp only [contractFirst?, positions, List.findSome?_singleton, contractAt?]

theorem contractFirst?_lam (body : Nameless α) :
    (Nameless.lam body).contractFirst? root? =
      (root? (.lam body)).or ((body.contractFirst? root?).map .lam) := by
  have inBody := findSome?_map_map body.positions (Direction.body :: ·)
    ((Nameless.lam body).contractAt? root?) (body.contractAt? root?) .lam
    fun position => by rw [contractAt?]
  simp only [contractFirst?, positions, List.findSome?_cons, inBody, contractAt?]
  cases root? (.lam body) <;> rfl

/-- An application is searched before its function, and the function before the argument. -/
theorem contractFirst?_app (function argument : Nameless α) :
    (Nameless.app function argument).contractFirst? root? =
      (root? (.app function argument)).or
        (((function.contractFirst? root?).map fun next => .app next argument).or
          ((argument.contractFirst? root?).map fun next => .app function next)) := by
  have inFunction := findSome?_map_map function.positions (Direction.function :: ·)
    ((Nameless.app function argument).contractAt? root?) (function.contractAt? root?)
    (fun next => .app next argument) fun position => by rw [contractAt?]
  have inArgument := findSome?_map_map argument.positions (Direction.argument :: ·)
    ((Nameless.app function argument).contractAt? root?) (argument.contractAt? root?)
    (fun next => .app function next) fun position => by rw [contractAt?]
  simp only [contractFirst?, positions, List.findSome?_cons, List.findSome?_append, inFunction,
    inArgument, contractAt?]
  cases root? (.app function argument) <;> rfl

/-! ### Reduction inside a term -/

namespace Reduces

theorem lam {body next : Nameless α} (steps : Reduces root? body next) :
    Reduces root? (.lam body) (.lam next) :=
  ReflTransGen.lift Nameless.lam (fun _ _ step => Contracts.lam step) _ _ steps

theorem function {function next : Nameless α} (argument : Nameless α)
    (steps : Reduces root? function next) :
    Reduces root? (.app function argument) (.app next argument) :=
  ReflTransGen.lift (fun t => Nameless.app t argument)
    (fun _ _ step => Contracts.function argument step) _ _ steps

theorem argument (function : Nameless α) {argument next : Nameless α}
    (steps : Reduces root? argument next) :
    Reduces root? (.app function argument) (.app function next) :=
  ReflTransGen.lift (fun t => Nameless.app function t)
    (fun _ _ step => Contracts.argument function step) _ _ steps

theorem app {function function' argument argument' : Nameless α}
    (inFunction : Reduces root? function function')
    (inArgument : Reduces root? argument argument') :
    Reduces root? (.app function argument) (.app function' argument') :=
  (inFunction.function argument).trans (Reduces.argument function' inArgument)

end Reduces

/-! ### The redexes -/

theorem betaRoot?_eq_some_iff (t next : Nameless α) :
    betaRoot? t = some next ↔
      ∃ body argument, t = .app (.lam body) argument ∧ next = body.instantiate 0 argument := by
  constructor
  · intro found
    unfold betaRoot? at found
    split at found
    · rename_i body argument
      exact ⟨body, argument, rfl, (Option.some.inj found).symm⟩
    · cases found
  · rintro ⟨body, argument, rfl, rfl⟩
    rfl

theorem etaRoot?_eq_some_iff (t next : Nameless α) :
    etaRoot? t = some next ↔ t = .lam (.app (next.rename Nat.succ) (.bound 0)) := by
  constructor
  · intro found
    unfold etaRoot? at found
    split at found
    · rename_i function
      split at found
      · cases found
      · rename_i absent
        have lowered := Option.some.inj found
        have raised := shift_lower 0 function (Bool.eq_false_iff.mpr absent)
        rw [← lowered, ← shift_zero_one, raised]
    · cases found
  · rintro rfl
    rw [← shift_zero_one]
    simp only [etaRoot?, mentions_shift, lower_shift, Bool.false_eq_true, if_false]

theorem Beta.redex (body argument : Nameless α) :
    Beta (.app (.lam body) argument) (body.instantiate 0 argument) :=
  .root rfl

theorem Eta.redex (t : Nameless α) : Eta (.lam (.app (t.rename Nat.succ) (.bound 0))) t :=
  .root ((etaRoot?_eq_some_iff _ _).mpr rfl)

/-! ### Renaming of free names -/

theorem map_shift (f : α → β) (cutoff amount : Nat) (t : Nameless α) :
    (t.shift cutoff amount).map f = (t.map f).shift cutoff amount := by
  induction t generalizing cutoff with
  | bound index =>
      simp only [shift, map]
      split <;> rfl
  | free name => rfl
  | lam body ih => simp only [shift, map, ih]
  | app function argument ihFunction ihArgument => simp only [shift, map, ihFunction, ihArgument]

theorem map_instantiate (f : α → β) (depth : Nat) (replacement t : Nameless α) :
    (t.instantiate depth replacement).map f = (t.map f).instantiate depth (replacement.map f) := by
  induction t generalizing depth with
  | bound index =>
      simp only [instantiate, map]
      split
      · rfl
      · split
        · exact map_shift f 0 depth replacement
        · rfl
  | free name => rfl
  | lam body ih => simp only [instantiate, map, ih]
  | app function argument ihFunction ihArgument =>
      simp only [instantiate, map, ihFunction, ihArgument]

theorem map_mentions (f : α → β) (index : Nat) (t : Nameless α) :
    (t.map f).mentions index = t.mentions index := by
  induction t generalizing index with
  | bound other => rfl
  | free name => rfl
  | lam body ih => exact ih (index + 1)
  | app function argument ihFunction ihArgument =>
      simp only [map, mentions, ihFunction, ihArgument]

private theorem map_lower (f : α → β) (cutoff : Nat) (t : Nameless α) :
    (t.lower cutoff).map f = (t.map f).lower cutoff := by
  induction t generalizing cutoff with
  | bound index =>
      simp only [lower, map]
      split <;> rfl
  | free name => rfl
  | lam body ih => simp only [lower, map, ih]
  | app function argument ihFunction ihArgument => simp only [lower, map, ihFunction, ihArgument]

theorem betaRoot?_map (f : α → β) (t : Nameless α) :
    betaRoot? (t.map f) = (betaRoot? t).map (map f) := by
  cases t with
  | bound index => rfl
  | free name => rfl
  | lam body => rfl
  | app function argument =>
      cases function with
      | bound index => rfl
      | free name => rfl
      | app first second => rfl
      | lam body => exact congrArg some (map_instantiate f 0 argument body).symm

theorem etaRoot?_map (f : α → β) (t : Nameless α) :
    etaRoot? (t.map f) = (etaRoot? t).map (map f) := by
  cases t with
  | bound index => rfl
  | free name => rfl
  | app function argument => rfl
  | lam body =>
      cases body with
      | bound index => rfl
      | free name => rfl
      | lam body => rfl
      | app function argument =>
          cases argument with
          | free name => rfl
          | lam body => rfl
          | app first second => rfl
          | bound index =>
              cases index with
              | succ index => rfl
              | zero =>
                  simp only [map, etaRoot?, map_mentions, ← map_lower]
                  split <;> rfl

section Map

variable {rootBeyond? : Nameless β → Option (Nameless β)} {f : α → β}

/-- A contraction does not depend on the free names. -/
theorem Contracts.map (compatible : ∀ t, rootBeyond? (t.map f) = (root? t).map (Nameless.map f))
    {t next : Nameless α} (step : Contracts root? t next) :
    Contracts rootBeyond? (t.map f) (next.map f) := by
  induction step with
  | root found =>
      refine .root ?_
      rw [compatible, found]
      rfl
  | lam _ ih => exact .lam ih
  | function argument _ ih => exact .function _ ih
  | argument function _ ih => exact .argument _ ih

theorem contractFirst?_map
    (compatible : ∀ t, rootBeyond? (t.map f) = (root? t).map (Nameless.map f)) (t : Nameless α) :
    (t.map f).contractFirst? rootBeyond? = (t.contractFirst? root?).map (Nameless.map f) := by
  induction t with
  | bound index =>
      rw [contractFirst?_bound, ← compatible]
      exact contractFirst?_bound index
  | free name =>
      rw [contractFirst?_free, ← compatible]
      exact contractFirst?_free (f name)
  | lam body ih =>
      have atRoot := compatible (.lam body)
      rw [Nameless.map] at atRoot ⊢
      rw [contractFirst?_lam, contractFirst?_lam, ih, atRoot]
      cases root? (.lam body) <;> cases body.contractFirst? root? <;> rfl
  | app function argument ihFunction ihArgument =>
      have atRoot := compatible (.app function argument)
      rw [Nameless.map] at atRoot ⊢
      rw [contractFirst?_app, contractFirst?_app, ihFunction, ihArgument, atRoot]
      cases root? (.app function argument) <;> cases function.contractFirst? root? <;>
        cases argument.contractFirst? root? <;> rfl

end Map

end UntypedLambda.Nameless
