import UntypedLambda.Proofs.Related
import UntypedLambda.Proofs.Term.FreeNames
import UntypedLambda.Term.Reduction.Run

set_option autoImplicit false

/-! Terms that differ only in their identities. The identities correspond one to one, and variables
with corresponding identities have the same name. Copies, steps and runs keep this up as long as
both sides take new identities from supplies that are in step. -/

namespace UntypedLambda

variable {R : Nat → Nat → Prop}

/-- Whether the identities that two supplies issue next correspond, one after the other. -/
def InStep (R : Nat → Nat → Prop) (supply supply' : Nat) : Prop :=
  ∀ amount, R (supply + amount) (supply' + amount)

theorem InStep.next {supply supply' : Nat} (inStep : InStep R supply supply') :
    R supply supply' :=
  inStep 0

theorem InStep.after {supply supply' : Nat} (inStep : InStep R supply supply') (issued : Nat) :
    InStep R (supply + issued) (supply' + issued) := by
  intro amount
  rw [Nat.add_assoc, Nat.add_assoc]
  exact inStep (issued + amount)

theorem beq_eq_of_biUnique (one : Relator.BiUnique R) {first first' second second' : Nat}
    (firsts : R first first') (seconds : R second second') :
    (first == second) = (first' == second') := by
  rw [Bool.eq_iff_iff, beq_iff_eq, beq_iff_eq]
  constructor
  · rintro rfl
    exact one.2 firsts seconds
  · rintro rfl
    exact one.1 firsts seconds

structure Var.Matches (R : Nat → Nat → Prop) (v v' : Var) : Prop where
  name : v.name = v'.name
  id : R v.id v'.id

theorem Var.Matches.withId {v v' : Var} (alike : v.Matches R v') {supply supply' : Nat}
    (new : R supply supply') : (v.withId supply).Matches R (v'.withId supply') :=
  ⟨alike.name, new⟩

namespace Term

/-- The same term but for the identities, which correspond. -/
inductive Matches (R : Nat → Nat → Prop) : Term → Term → Prop where
  | var {v v' : Var} : v.Matches R v' → Matches R (.var v) (.var v')
  | abs {binder binder' : Var} {body body' : Term} : binder.Matches R binder' →
      Matches R body body' → Matches R (.abs binder body) (.abs binder' body')
  | app {function function' argument argument' : Term} : Matches R function function' →
      Matches R argument argument' →
      Matches R (.app function argument) (.app function' argument')

structure Made (R : Nat → Nat → Prop) (made made' : Term × Nat) : Prop where
  term : made.1.Matches R made'.1
  supply : InStep R made.2 made'.2

/-! ### Occurrences -/

section

variable {t t' u u' : Term} {id id' : Nat}

theorem Matches.isVar (one : Relator.BiUnique R) (alike : t.Matches R t') (ids : R id id') :
    t.isVar id = t'.isVar id' := by
  cases alike with
  | var vars => exact beq_eq_of_biUnique one vars.id ids
  | abs _ _ => rfl
  | app _ _ => rfl

theorem Matches.occursFree (one : Relator.BiUnique R) (alike : t.Matches R t') (ids : R id id') :
    t.occursFree id = t'.occursFree id' := by
  induction alike with
  | var vars => exact beq_eq_of_biUnique one vars.id ids
  | abs binders _ ih => rw [Term.occursFree, Term.occursFree, ih, bne, bne,
      beq_eq_of_biUnique one binders.id ids]
  | app _ _ ihFunction ihArgument =>
      rw [Term.occursFree, Term.occursFree, ihFunction, ihArgument]

theorem findIdx?_eq_of_biUnique (one : Relator.BiUnique R) {scope scope' : List Nat}
    (scopes : List.Forall₂ R scope scope') (ids : R id id') :
    scope.findIdx? (fun other => other == id) = scope'.findIdx? (fun other => other == id') := by
  induction scopes with
  | nil => rfl
  | cons first _ ih =>
      rw [List.findIdx?_cons, List.findIdx?_cons, ih, beq_eq_of_biUnique one first ids]

theorem Matches.readUnder (one : Relator.BiUnique R) {scope scope' : List Nat}
    (scopes : List.Forall₂ R scope scope') (alike : t.Matches R t') :
    (t.readUnder scope).map Var.name = (t'.readUnder scope').map Var.name := by
  induction alike generalizing scope scope' with
  | var vars =>
      rw [Term.readUnder, Term.readUnder, readOccurrence, readOccurrence,
        findIdx?_eq_of_biUnique one scopes vars.id]
      split
      · rfl
      · exact congrArg Nameless.free vars.name
  | abs binders _ ih => exact congrArg Nameless.lam (ih (.cons binders.id scopes))
  | app _ _ ihFunction ihArgument =>
      rw [Term.readUnder, Term.readUnder, Nameless.map, Nameless.map, ihFunction scopes,
        ihArgument scopes]

/-- The reading by name forgets the identities. -/
theorem Matches.namelessByName (one : Relator.BiUnique R) (alike : t.Matches R t') :
    t.namelessByName = t'.namelessByName :=
  alike.readUnder one .nil

theorem Matches.freeNames (one : Relator.BiUnique R) (alike : t.Matches R t') :
    t.freeNames = t'.freeNames := by
  rw [freeNames_eq, freeNames_eq, alike.namelessByName one]

theorem Matches.alphaEqual (one : Relator.BiUnique R) (lefts : t.Matches R t')
    (rights : u.Matches R u') : t.alphaEqual u = t'.alphaEqual u' := by
  rw [Bool.eq_iff_iff, alphaEqual_iff, alphaEqual_iff, lefts.namelessByName one,
    rights.namelessByName one]

end

/-! ### Copies -/

namespace Renaming

def Matches (R : Nat → Nat → Prop) (ρ ρ' : Renaming) : Prop :=
  List.Forall₂ (fun entry entry' => R entry.1 entry'.1 ∧ entry.2.Matches R entry'.2) ρ ρ'

variable {ρ ρ' : Renaming}

theorem Matches.pass (renamings : ρ.Matches R ρ') {binder binder' : Var}
    (binders : binder.Matches R binder') {supply supply' : Nat}
    (inStep : InStep R supply supply') :
    Matches R ((binder.id, binder.withId supply) :: ρ)
      ((binder'.id, binder'.withId supply') :: ρ') :=
  .cons ⟨binders.id, binders.withId inStep.next⟩ renamings

theorem Matches.isEmpty (renamings : ρ.Matches R ρ') : ρ.isEmpty = ρ'.isEmpty := by
  cases renamings with
  | nil => rfl
  | cons _ _ => rfl

theorem Matches.apply (one : Relator.BiUnique R) (renamings : ρ.Matches R ρ') {v v' : Var}
    (vars : v.Matches R v') : (ρ.apply v).Matches R (ρ'.apply v') := by
  unfold Renaming.apply
  induction renamings with
  | nil => exact vars
  | cons first _ ih =>
      rw [List.lookup_cons, List.lookup_cons, beq_eq_of_biUnique one vars.id first.1]
      split
      · exact first.2
      · exact ih

end Renaming

variable {t t' : Term} {supply supply' : Nat}

theorem Matches.renameFrom (one : Relator.BiUnique R) {ρ ρ' : Renaming}
    (alike : t.Matches R t') (renamings : ρ.Matches R ρ') (inStep : InStep R supply supply') :
    Made R (t.renameFrom ρ supply) (t'.renameFrom ρ' supply') := by
  induction alike generalizing ρ ρ' supply supply' with
  | var vars => exact ⟨.var (renamings.apply one vars), inStep⟩
  | abs binders _ ih =>
      have body := ih (renamings.pass binders inStep) (inStep.after 1)
      exact ⟨.abs (binders.withId inStep.next) body.term, body.supply⟩
  | app _ _ ihFunction ihArgument =>
      have left := ihFunction renamings inStep
      have right := ihArgument renamings left.supply
      exact ⟨.app left.term right.term, right.supply⟩

theorem Matches.freshCopy (one : Relator.BiUnique R) (alike : t.Matches R t')
    (inStep : InStep R supply supply') : Made R (t.freshCopy supply) (t'.freshCopy supply') :=
  alike.renameFrom one .nil inStep

theorem Matches.substituteUnder (one : Relator.BiUnique R) {id id' : Nat} {u u' : Term}
    {ρ ρ' : Renaming} (alike : t.Matches R t') (ids : R id id') (replacements : u.Matches R u')
    (renamings : ρ.Matches R ρ') (inStep : InStep R supply supply') :
    Made R (substituteUnder id u ρ t supply) (substituteUnder id' u' ρ' t' supply') := by
  induction alike generalizing ρ ρ' supply supply' with
  | var vars =>
      rw [Term.substituteUnder, Term.substituteUnder, beq_eq_of_biUnique one vars.id ids]
      split
      · exact replacements.freshCopy one inStep
      · exact ⟨.var (renamings.apply one vars), inStep⟩
  | abs binders bodies ih =>
      rw [Term.substituteUnder, Term.substituteUnder, beq_eq_of_biUnique one binders.id ids,
        renamings.isEmpty]
      split
      · split
        · exact ⟨.abs binders bodies, inStep⟩
        · exact (Matches.abs binders bodies).renameFrom one renamings inStep
      · have body := ih (renamings.pass binders inStep) (inStep.after 1)
        exact ⟨.abs (binders.withId inStep.next) body.term, body.supply⟩
  | app _ _ ihFunction ihArgument =>
      have left := ihFunction renamings inStep
      have right := ihArgument renamings left.supply
      exact ⟨.app left.term right.term, right.supply⟩

/-! ### Steps -/

theorem Matches.contract? (one : Relator.BiUnique R) {argument argument' : Term}
    (functions : t.Matches R t') (arguments : argument.Matches R argument')
    (inStep : InStep R supply supply') :
    Option.Rel (Made R) (contract? t argument supply) (contract? t' argument' supply') := by
  cases functions with
  | var _ => exact .none
  | abs binders bodies => exact .some (bodies.substituteUnder one binders.id arguments .nil inStep)
  | app _ _ => exact .none

theorem Matches.betaOutermost? (one : Relator.BiUnique R) (alike : t.Matches R t')
    (inStep : InStep R supply supply') :
    Option.Rel (Made R) (betaOutermost? t supply) (betaOutermost? t' supply') := by
  induction alike with
  | var _ => exact .none
  | abs binders _ ih =>
      exact Option.rel_map ih fun _ _ made => ⟨.abs binders made.term, made.supply⟩
  | app functions arguments ihFunction ihArgument =>
      rw [Term.betaOutermost?, Term.betaOutermost?]
      obtain ⟨none, none'⟩ | ⟨_, _, some, some', made⟩ :=
        Option.rel_cases (functions.contract? one arguments inStep)
      · rw [none, none']
        obtain ⟨none, none'⟩ | ⟨_, _, some, some', made⟩ := Option.rel_cases ihFunction
        · rw [none, none']
          exact Option.rel_map ihArgument fun _ _ made => ⟨.app functions made.term, made.supply⟩
        · rw [some, some']
          exact .some ⟨.app made.term arguments, made.supply⟩
      · rw [some, some']
        exact .some made

theorem Matches.betaHead? (one : Relator.BiUnique R) (alike : t.Matches R t')
    (inStep : InStep R supply supply') :
    Option.Rel (Made R) (betaHead? t supply) (betaHead? t' supply') := by
  induction alike with
  | var _ => exact .none
  | abs binders _ ih =>
      exact Option.rel_map ih fun _ _ made => ⟨.abs binders made.term, made.supply⟩
  | app functions arguments ihFunction ihArgument =>
      have inFunction := Option.rel_map ihFunction fun _ _ made =>
        (⟨.app made.term arguments, made.supply⟩ : Made R (_, _) (_, _))
      have inArgument := Option.rel_map ihArgument fun _ _ made =>
        (⟨.app functions made.term, made.supply⟩ : Made R (_, _) (_, _))
      cases functions with
      | abs binders bodies =>
          exact (Matches.abs binders bodies).contract? one arguments inStep
      | app _ _ => exact inFunction
      | var _ =>
          cases arguments with
          | var _ => exact .none
          | abs _ _ => exact .none
          | app _ _ => exact inArgument

theorem Matches.betaStep? (one : Relator.BiUnique R) (strategy : Strategy)
    (alike : t.Matches R t') (inStep : InStep R supply supply') :
    Option.Rel (Made R) (betaStep? strategy t supply) (betaStep? strategy t' supply') := by
  cases strategy with
  | leftmostOutermost => exact alike.betaOutermost? one inStep
  | leftmost => exact alike.betaHead? one inStep

theorem Matches.etaContract? (one : Relator.BiUnique R) {binder binder' : Var}
    (binders : binder.Matches R binder') (alike : t.Matches R t') :
    Option.Rel (Matches R) (etaContract? binder t) (etaContract? binder' t') := by
  cases alike with
  | var _ => exact .none
  | abs _ _ => exact .none
  | app functions arguments =>
      rw [Term.etaContract?, Term.etaContract?, arguments.isVar one binders.id,
        functions.occursFree one binders.id]
      split
      · exact .some functions
      · exact .none

theorem Matches.etaStep? (one : Relator.BiUnique R) (alike : t.Matches R t') :
    Option.Rel (Matches R) (etaStep? t) (etaStep? t') := by
  induction alike with
  | var _ => exact .none
  | abs binders bodies ih =>
      rw [Term.etaStep?, Term.etaStep?]
      obtain ⟨none, none'⟩ | ⟨_, _, some, some', functions⟩ :=
        Option.rel_cases (bodies.etaContract? one binders)
      · rw [none, none']
        exact Option.rel_map ih fun _ _ next => .abs binders next
      · rw [some, some']
        exact .some functions
  | app functions arguments ihFunction ihArgument =>
      rw [Term.etaStep?, Term.etaStep?]
      obtain ⟨none, none'⟩ | ⟨_, _, some, some', next⟩ := Option.rel_cases ihFunction
      · rw [none, none']
        exact Option.rel_map ihArgument fun _ _ next => .app functions next
      · rw [some, some']
        exact .some (.app next arguments)

/-- The same step is made in both terms. -/
theorem Matches.step? (one : Relator.BiUnique R) (mode : Mode) (strategy : Strategy)
    (alike : t.Matches R t') (inStep : InStep R supply supply') :
    Option.Rel (Made R) (step? mode strategy t supply) (step? mode strategy t' supply') := by
  have beta := alike.betaStep? one strategy inStep
  have eta := Option.rel_map (alike.etaStep? one) fun _ _ next =>
    (⟨next, inStep⟩ : Made R (_, supply) (_, supply'))
  cases mode with
  | beta => exact beta
  | eta => exact eta
  | both =>
      rw [Term.step?, Term.step?]
      obtain ⟨none, none'⟩ | ⟨_, _, some, some', made⟩ := Option.rel_cases beta
      · rw [none, none']
        exact eta
      · rw [some, some']
        exact .some made

theorem Matches.kind (alike : t.Matches R t') : t.kind = t'.kind := by
  cases alike with
  | var _ => rfl
  | abs _ _ => rfl
  | app _ _ => rfl

theorem Matches.hasBetaRedex (strategy : Strategy) (alike : t.Matches R t') :
    t.hasBetaRedex strategy = t'.hasBetaRedex strategy := by
  induction alike with
  | var _ => rfl
  | abs _ _ ih => exact ih
  | app functions arguments ihFunction ihArgument =>
      cases functions with
      | abs _ _ => cases strategy <;> rfl
      | var _ =>
          cases strategy with
          | leftmostOutermost => exact ihArgument
          | leftmost => rw [Term.hasBetaRedex, Term.hasBetaRedex, arguments.kind, ihArgument]
      | app _ _ =>
          cases strategy with
          | leftmostOutermost => exact congrArg₂ (· || ·) ihFunction ihArgument
          | leftmost => exact ihFunction

theorem Matches.hasEtaRedex (one : Relator.BiUnique R) (alike : t.Matches R t') :
    t.hasEtaRedex = t'.hasEtaRedex := by
  induction alike with
  | var _ => rfl
  | abs binders bodies ih =>
      rw [Term.hasEtaRedex, Term.hasEtaRedex, ih]
      obtain ⟨none, none'⟩ | ⟨_, _, some, some', _⟩ :=
        Option.rel_cases (bodies.etaContract? one binders)
      · rw [none, none']
      · rw [some, some']
        rfl
  | app _ _ ihFunction ihArgument =>
      rw [Term.hasEtaRedex, Term.hasEtaRedex, ihFunction, ihArgument]

theorem Matches.isNormal (one : Relator.BiUnique R) (mode : Mode) (strategy : Strategy)
    (alike : t.Matches R t') : t.isNormal mode strategy = t'.isNormal mode strategy := by
  unfold Term.isNormal
  rw [alike.hasBetaRedex strategy, alike.hasEtaRedex one]

/-! ### Runs -/

structure Reduction.Matches (R : Nat → Nat → Prop) (reduction reduction' : Reduction) : Prop where
  term : reduction.term.Matches R reduction'.term
  steps : reduction.steps = reduction'.steps
  exhausted : reduction.exhausted = reduction'.exhausted
  supply : InStep R reduction.supply reduction'.supply

/-- Both runs make the same steps, and what observers of matching terms have seen corresponds. -/
theorem Matches.runFrom (one : Relator.BiUnique R) {σ σ' : Type} {S : σ → σ' → Prop}
    {observe : σ → Nat → Term → σ} {observe' : σ' → Nat → Term → σ'}
    (observed : ∀ seen seen' steps t t', S seen seen' → t.Matches R t' →
      S (observe seen steps t) (observe' seen' steps t'))
    (mode : Mode) (strategy : Strategy) (limit steps : Nat) (alike : t.Matches R t')
    (inStep : InStep R supply supply') {seen : σ} {seen' : σ'} (before : S seen seen') :
    let run := runFrom mode strategy observe limit steps t supply seen
    let run' := runFrom mode strategy observe' limit steps t' supply' seen'
    run.1.Matches R run'.1 ∧ S run.2 run'.2 := by
  induction limit generalizing steps t t' supply supply' seen seen' with
  | zero =>
      have same := congrArg (!·) (alike.isNormal one mode strategy)
      exact ⟨⟨alike, rfl, same, inStep⟩, before⟩
  | succ limit ih =>
      simp only [Term.runFrom]
      obtain ⟨none, none'⟩ | ⟨_, _, some, some', made⟩ :=
        Option.rel_cases (alike.step? one mode strategy inStep)
      · rw [none, none']
        exact ⟨⟨alike, rfl, rfl, inStep⟩, before⟩
      · rw [some, some']
        exact ih (steps + 1) made.term made.supply
          (observed seen seen' (steps + 1) _ _ before made.term)

theorem Matches.reduceWith (one : Relator.BiUnique R) {σ σ' : Type} {S : σ → σ' → Prop}
    {observe : σ → Nat → Term → σ} {observe' : σ' → Nat → Term → σ'}
    (observed : ∀ seen seen' steps t t', S seen seen' → t.Matches R t' →
      S (observe seen steps t) (observe' seen' steps t'))
    (mode : Mode) (strategy : Strategy) (limit : Nat) (alike : t.Matches R t')
    (inStep : InStep R supply supply') {seen : σ} {seen' : σ'} (before : S seen seen') :
    let run := reduceWith mode strategy limit t supply observe seen
    let run' := reduceWith mode strategy limit t' supply' observe' seen'
    run.1.Matches R run'.1 ∧ S run.2 run'.2 :=
  alike.runFrom one observed mode strategy limit 0 inStep
    (observed seen seen' 0 t t' before alike)

theorem Matches.reduce (one : Relator.BiUnique R) (mode : Mode) (strategy : Strategy)
    (limit : Nat) (alike : t.Matches R t') (inStep : InStep R supply supply') :
    (reduce mode strategy limit t supply).Matches R (reduce mode strategy limit t' supply') :=
  (alike.reduceWith one (fun _ _ _ _ _ same _ => same) mode strategy limit inStep
    (rfl : () = ())).1

end Term

end UntypedLambda
