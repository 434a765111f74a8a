import UntypedLambda.Proofs.Matching.Term
import UntypedLambda.Resolution

set_option autoImplicit false

/-! Resolution in contexts that match. The same names are found, and what is built differs in its
identities only. -/

namespace UntypedLambda

open Surface

variable {R : Nat → Nat → Prop} {supply supply' : Nat}

namespace Term

theorem matches_abstractions {binders binders' : List Var} {body body' : Term}
    (vars : List.Forall₂ (Var.Matches R) binders binders') (bodies : body.Matches R body') :
    (abstractions binders body).Matches R (abstractions binders' body') := by
  induction vars with
  | nil => exact bodies
  | cons first _ ih => exact .abs first ih

theorem matches_applications {head head' : Term} {arguments arguments' : List Term}
    (heads : head.Matches R head') (rest : List.Forall₂ (Matches R) arguments arguments') :
    (applications head arguments).Matches R (applications head' arguments') := by
  induction rest generalizing head head' with
  | nil => exact heads
  | cons first _ ih => exact ih (.app heads first)

end Term

/-! ### Encodings -/

namespace Encoding

open Term

theorem issued_matches (inStep : InStep R supply supply') (name : String) (issued : Nat) :
    Var.Matches R ⟨name, supply + issued⟩ ⟨name, supply' + issued⟩ :=
  ⟨rfl, inStep issued⟩

theorem iterated_matches {f f' : Var} (fs : f.Matches R f') {t t' : Term}
    (alike : t.Matches R t') (n : Nat) : (iterated f t n).Matches R (iterated f' t' n) := by
  induction n generalizing t t' with
  | zero => exact alike
  | succ n ih => exact ih (.app (.var fs) alike)

theorem numeral_made (inStep : InStep R supply supply') (n : Nat) :
    Made R (numeral n supply) (numeral n supply') := by
  have f := issued_matches inStep "f" 0
  have x := issued_matches inStep "x" 1
  exact ⟨.abs f (.abs x (iterated_matches f (.var x) n)), inStep.after 2⟩

theorem tuple_made (inStep : InStep R supply supply') {elements elements' : List Term}
    (alike : List.Forall₂ (Matches R) elements elements') :
    Made R (tuple elements supply) (tuple elements' supply') := by
  have p := issued_matches inStep "p" 0
  exact ⟨.abs p (matches_applications (.var p) alike), inStep.after 1⟩

theorem nil_made (inStep : InStep R supply supply') : Made R (nil supply) (nil supply') := by
  have x := issued_matches inStep "x" 0
  have y := issued_matches inStep "y" 1
  exact ⟨.abs x (.abs y (.var y)), inStep.after 2⟩

theorem cons_made (inStep : InStep R supply supply') {head head' tail tail' : Term}
    (heads : head.Matches R head') (tails : tail.Matches R tail') :
    Made R (cons head tail supply) (cons head' tail' supply') := by
  have x := issued_matches inStep "x" 0
  have y := issued_matches inStep "y" 1
  exact ⟨.abs x (.abs y (.app (.app (.var x) heads) tails)), inStep.after 2⟩

theorem list_made (inStep : InStep R supply supply') {elements elements' : List Term}
    (alike : List.Forall₂ (Matches R) elements elements') :
    Made R (list elements supply) (list elements' supply') := by
  induction alike with
  | nil => exact nil_made inStep
  | cons first _ ih => exact cons_made ih.supply first ih.term

theorem turingHalf_matches (inStep : InStep R supply supply') :
    (turingHalf supply).Matches R (turingHalf supply') := by
  have x := issued_matches inStep "x" 0
  have y := issued_matches inStep "y" 1
  exact .abs x (.abs y (.app (.var y) (.app (.app (.var x) (.var x)) (.var y))))

theorem curryHalf_matches {f f' : Var} (fs : f.Matches R f') (inStep : InStep R supply supply') :
    (curryHalf f supply).Matches R (curryHalf f' supply') := by
  have x := issued_matches inStep "x" 0
  exact .abs x (.app (.var fs) (.app (.var x) (.var x)))

theorem combinator_made (inStep : InStep R supply supply') (combinator : Combinator) :
    Made R (combinator.term supply) (combinator.term supply') := by
  cases combinator with
  | turing =>
      have second := turingHalf_matches (inStep.after 2)
      exact ⟨.app (turingHalf_matches inStep) second, inStep.after 4⟩
  | curry =>
      have f := issued_matches inStep "f" 0
      have first := curryHalf_matches f (inStep.after 1)
      exact ⟨.abs f (.app first (curryHalf_matches f (inStep.after 2))), inStep.after 3⟩

theorem fix_made (inStep : InStep R supply supply') (combinator : Combinator) {self self' : Var}
    (selves : self.Matches R self') {body body' : Term} (bodies : body.Matches R body') :
    Made R (combinator.fix self body supply) (combinator.fix self' body' supply') := by
  have knot := combinator_made inStep combinator
  exact ⟨.app knot.term (.abs selves bodies), knot.supply⟩

end Encoding

/-! ### Contexts -/

def Context.Matches (R : Nat → Nat → Prop) (context context' : Context) : Prop :=
  ∀ name, Option.Rel (Term.Matches R) (context.find? name) (context'.find? name)

namespace Context.Matches

open Term

variable {context context' : Context}

theorem define (contexts : context.Matches R context') (name : String) {t t' : Term}
    (alike : t.Matches R t') : (context.define name t).Matches R (context'.define name t') := by
  intro other
  rw [find?_define, find?_define]
  split
  · exact .some alike
  · exact contexts other

theorem lookup? (one : Relator.BiUnique R) (contexts : context.Matches R context')
    (inStep : InStep R supply supply') (name : String) :
    Option.Rel (Made R) (context.lookup? name supply) (context'.lookup? name supply') :=
  Option.rel_map (contexts name) fun _ _ alike => alike.freshCopy one inStep

end Context.Matches

/-! ### Expressions -/

namespace Resolution

open Term

variable {context context' : Context} {scope scope' : List Var}

theorem freshBinders_matches (binders : List Name) (inStep : InStep R supply supply') :
    List.Forall₂ (Var.Matches R) (freshBinders binders supply) (freshBinders binders supply') := by
  induction binders generalizing supply supply' with
  | nil => exact .nil
  | cons binder binders ih => exact .cons ⟨rfl, inStep.next⟩ (ih (inStep.after 1))

theorem find?_rel (scopes : List.Forall₂ (Var.Matches R) scope scope') (name : String) :
    Option.Rel (Var.Matches R) (scope.find? fun v => v.name == name)
      (scope'.find? fun v => v.name == name) := by
  induction scopes with
  | nil => exact .none
  | cons first _ ih =>
      rw [List.find?_cons, List.find?_cons, first.name]
      split
      · exact .some first
      · exact ih

theorem resolveName_rel (one : Relator.BiUnique R) (contexts : context.Matches R context')
    (strict : Bool) (scopes : List.Forall₂ (Var.Matches R) scope scope') (name : Name)
    (inStep : InStep R supply supply') :
    Except.Rel (Made R) (resolveName context strict scope name supply)
      (resolveName context' strict scope' name supply') := by
  unfold resolveName
  obtain ⟨none, none'⟩ | ⟨_, _, some, some', vars⟩ :=
    Option.rel_cases (find?_rel scopes name.value)
  · rw [none, none']
    dsimp only
    obtain ⟨none, none'⟩ | ⟨_, _, some, some', made⟩ :=
      Option.rel_cases (contexts.lookup? one inStep name.value)
    · rw [none, none']
      dsimp only
      split
      · exact .error _
      · exact .ok ⟨.var ⟨rfl, inStep.next⟩, inStep.after 1⟩
    · rw [some, some']
      exact .ok made
  · rw [some, some']
    exact .ok ⟨.var vars, inStep⟩

mutual

/-- The same expression is refused in both contexts, or resolved to matching terms in both. -/
theorem resolve_rel (one : Relator.BiUnique R) (contexts : context.Matches R context')
    (strict : Bool) {scope scope' : List Var}
    (scopes : List.Forall₂ (Var.Matches R) scope scope') (e : Expr) {supply supply' : Nat}
    (inStep : InStep R supply supply') :
    Except.Rel (Made R) (resolve context strict scope e supply)
      (resolve context' strict scope' e supply') := by
  match e with
  | .var _ name => exact resolveName_rel one contexts strict scopes name inStep
  | .nat _ value => exact .ok (Encoding.numeral_made inStep value)
  | .lam _ binders body =>
      have vars := freshBinders_matches binders inStep
      have inner := List.rel_append (List.rel_reverse vars) scopes
      have after : InStep R (supply + (freshBinders binders supply).length)
          (supply' + (freshBinders binders supply').length) := by
        rw [vars.length_eq]
        exact inStep.after _
      rw [resolve, resolve]
      refine (resolve_rel one contexts strict inner body after).bind fun _ _ made => .ok ?_
      exact ⟨matches_abstractions vars made.term, made.supply⟩
  | .app _ function argument =>
      rw [resolve, resolve]
      refine (resolve_rel one contexts strict scopes function inStep).bind fun _ _ left => ?_
      refine (resolve_rel one contexts strict scopes argument left.supply).bind
        fun _ _ right => .ok ?_
      exact ⟨.app left.term right.term, right.supply⟩
  | .tuple _ elements =>
      rw [resolve, resolve]
      refine (resolveAll_rel one contexts strict scopes elements inStep).bind
        fun _ _ parts => .ok ?_
      exact Encoding.tuple_made parts.2 parts.1
  | .list _ elements =>
      rw [resolve, resolve]
      refine (resolveAll_rel one contexts strict scopes elements inStep).bind
        fun _ _ parts => .ok ?_
      exact Encoding.list_made parts.2 parts.1
  | .cons _ head tail =>
      rw [resolve, resolve]
      refine (resolve_rel one contexts strict scopes head inStep).bind fun _ _ left => ?_
      refine (resolve_rel one contexts strict scopes tail left.supply).bind
        fun _ _ right => .ok ?_
      exact Encoding.cons_made right.supply left.term right.term

theorem resolveAll_rel (one : Relator.BiUnique R) (contexts : context.Matches R context')
    (strict : Bool) {scope scope' : List Var}
    (scopes : List.Forall₂ (Var.Matches R) scope scope') (elements : List Expr)
    {supply supply' : Nat} (inStep : InStep R supply supply') :
    Except.Rel (fun parts parts' => List.Forall₂ (Matches R) parts.1 parts'.1 ∧
        InStep R parts.2 parts'.2)
      (resolveAll context strict scope elements supply)
      (resolveAll context' strict scope' elements supply') := by
  match elements with
  | [] => exact .ok ⟨.nil, inStep⟩
  | element :: rest =>
      rw [resolveAll, resolveAll]
      refine (resolve_rel one contexts strict scopes element inStep).bind fun _ _ first => ?_
      refine (resolveAll_rel one contexts strict scopes rest first.supply).bind
        fun _ _ others => .ok ?_
      exact ⟨.cons first.term others.1, others.2⟩

end

end Resolution

open Term

variable {context context' : Context}

theorem resolveTerm_rel (one : Relator.BiUnique R) (contexts : context.Matches R context')
    (settings : Settings) (e : Expr) (inStep : InStep R supply supply') :
    Except.Rel (Made R) (resolveTerm context settings e supply)
      (resolveTerm context' settings e supply') :=
  Resolution.resolve_rel one contexts settings.strict .nil e inStep

theorem resolveDefinition_rel (one : Relator.BiUnique R) (contexts : context.Matches R context')
    (settings : Settings) (name : String) (body : Expr) (inStep : InStep R supply supply') :
    Except.Rel (Made R) (resolveDefinition context settings name body supply)
      (resolveDefinition context' settings name body supply') := by
  unfold resolveDefinition
  split
  · have self : Var.Matches R ⟨name, supply⟩ ⟨name, supply'⟩ := ⟨rfl, inStep.next⟩
    have scopes := List.Forall₂.cons self .nil
    refine (Resolution.resolve_rel one contexts settings.strict scopes body
      (inStep.after 1)).bind fun _ _ inner => .ok ?_
    exact Encoding.fix_made inner.supply settings.fixpoint self inner.term
  · exact resolveTerm_rel one contexts settings body inStep

end UntypedLambda
