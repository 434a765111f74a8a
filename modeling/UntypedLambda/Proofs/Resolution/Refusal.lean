import UntypedLambda.Proofs.Resolution.Undefined
import UntypedLambda.Proofs.Surface.SourceOrder

set_option autoImplicit false

/-! Which name an expression is refused for. With strict settings it is the undefined one that comes
first in the source, and with others no expression is refused. In the body of a definition the name
that is defined counts as bound. -/

namespace UntypedLambda

open Surface

/-- Some occurrence of the name is bound by none of the binders around it, and the name is none of
`bound` and has no definition. -/
def Undefined (context : Context) (bound : List String) (e : Expr) (name : Name) : Prop :=
  e.FreelyHas name ∧ name.value ∉ bound ∧ context.contains name.value = false

/-- The result is an error exactly if there are such names, and then it is the error for the one of
them that comes first in the source. -/
structure FailsAtFirst {α : Type} (source : String) (names : Name → Prop)
    (result : Except SourceError α) : Prop where
  fails_iff : (∃ error, result = .error error) ↔ ∃ name, names name
  first : ∀ error, result = .error error → ∃ name, names name ∧
    (∀ other, names other → other = name ∨ name.span.start < other.span.start) ∧
    error = .undefinedVariable name ∧ error.message = "Undefined variable " ++ name.value ∧
    error.span.textIn source = name.value

namespace Resolution

variable {context : Context} {strict : Bool}

theorem isUndefined_iff (scope : List Var) (name : Name) :
    isUndefined context scope name = true ↔
      name.value ∉ scope.map Var.name ∧ context.contains name.value = false := by
  rw [isUndefined, Bool.and_eq_true, Bool.not_eq_true', Bool.not_eq_true', List.any_eq_false]
  refine and_congr ?_ Iff.rfl
  constructor
  · intro unbound member
    obtain ⟨v, inScope, same⟩ := List.mem_map.mp member
    exact unbound v inScope (beq_iff_eq.mpr same)
  · intro absent v inScope same
    exact absent (List.mem_map.mpr ⟨v, inScope, beq_iff_eq.mp same⟩)

theorem undefined_iff (scope : List Var) (e : Expr) (name : Name) :
    Undefined context (scope.map Var.name) e name ↔
      name ∈ e.occurrences ∧ isUndefined context scope name = true := by
  rw [Undefined, isUndefined_iff, Expr.mem_occurrences_iff]

/-- What refuses the first undefined occurrence fails at the first undefined name. -/
theorem failsAtFirst_of_refusal {α : Type} {result : Except SourceError α} {source : String}
    {e : Expr} (read : e.ReadFrom source) {scope : List Var}
    (refused : Except.error? result = refusal? context strict scope e.occurrences) :
    FailsAtFirst source
      (fun name => strict = true ∧ Undefined context (scope.map Var.name) e name) result := by
  have failed {error : SourceError} (failure : result = .error error) :
      strict = true ∧
        (e.occurrences.find? (isUndefined context scope)).map .undefinedVariable = some error := by
    rw [failure, refusal?] at refused
    cases strict with
    | false => cases refused
    | true => exact ⟨rfl, refused.symm⟩
  constructor
  · constructor
    · rintro ⟨error, failure⟩
      obtain ⟨isStrict, found⟩ := failed failure
      obtain ⟨name, first, _⟩ := Option.map_eq_some_iff.mp found
      refine ⟨name, isStrict, (undefined_iff scope e name).mpr ⟨?_, List.find?_some first⟩⟩
      exact List.mem_of_find?_eq_some first
    · rintro ⟨name, isStrict, undefined⟩
      obtain ⟨member, inNeither⟩ := (undefined_iff scope e name).mp undefined
      by_contra succeeds
      have none : Except.error? result = none := by
        cases result with
        | ok value => rfl
        | error error => exact absurd ⟨error, rfl⟩ succeeds
      rw [none, refusal?, if_pos isStrict, eq_comm, Option.map_eq_none_iff,
        List.find?_eq_none] at refused
      exact refused name member inNeither
  · intro error failure
    obtain ⟨isStrict, found⟩ := failed failure
    obtain ⟨name, first, rfl⟩ := Option.map_eq_some_iff.mp found
    obtain ⟨inNeither, before, after, split, others⟩ := List.find?_eq_some_iff_append.mp first
    have member : name ∈ e.occurrences := List.mem_of_find?_eq_some first
    refine ⟨name, ⟨isStrict, (undefined_iff scope e name).mpr ⟨member, inNeither⟩⟩, ?_, rfl, rfl,
      read.textIn_occurrence member⟩
    rintro other ⟨_, undefined⟩
    obtain ⟨otherMember, otherUndefined⟩ := (undefined_iff scope e other).mp undefined
    have ordered := read.pairwise_occurrences
    rw [split, List.pairwise_append] at ordered
    rw [split, List.mem_append, List.mem_cons] at otherMember
    rcases otherMember with inBefore | same | inAfter
    · have defined := others other inBefore
      rw [otherUndefined] at defined
      cases defined
    · exact Or.inl same
    · exact Or.inr ((List.pairwise_cons.mp ordered.2.1).1 other inAfter)

/-- The name of a definition is bound in its body, also when the body does not mention it. -/
theorem resolveDefinition_error? (settings : Settings) (x : String) (e : Expr) (supply : Nat) :
    Except.error? (resolveDefinition context settings x e supply) =
      refusal? context settings.strict [⟨x, supply⟩] e.occurrences := by
  rw [resolveDefinition]
  split
  · rw [Except.error?_map, resolve_error?]
  · rename_i absent
    rw [resolveTerm, resolve_error?]
    have same : e.occurrences.find? (isUndefined context []) =
        e.occurrences.find? (isUndefined context [⟨x, supply⟩]) := by
      rw [← List.head?_filter, ← List.head?_filter]
      refine congrArg List.head? (List.filter_congr fun name member => ?_)
      have different : (x == name.value) = false := by
        rw [beq_eq_false_iff_ne]
        rintro rfl
        refine absent ?_
        rw [Expr.mentions_eq, List.any_eq_true]
        exact ⟨name, member, beq_self_eq_true _⟩
      simp [isUndefined, different]
    rw [refusal?, refusal?, same]

end Resolution

open Resolution

/-- With strict settings an expression that is read from a source is refused exactly if one of its
names is neither bound around it nor defined, and then for the one of these that starts first. The
same is true of the body of a definition, where the name that is defined counts as bound. -/
theorem strict_refusal_is_leftmost {source : String} {e : Expr} (read : e.ReadFrom source)
    (context : Context) (settings : Settings) (supply : Nat) :
    FailsAtFirst source (fun name => settings.strict = true ∧ Undefined context [] e name)
      (resolveTerm context settings e supply) ∧
    ∀ x, FailsAtFirst source (fun name => settings.strict = true ∧ Undefined context [x] e name)
      (resolveDefinition context settings x e supply) :=
  ⟨failsAtFirst_of_refusal read (resolve_error? e [] supply),
    fun x => failsAtFirst_of_refusal read (resolveDefinition_error? settings x e supply)⟩

/-- As a definition of `r` the body is refused for `g`, and as a term for `r`, which comes before. -/
theorem refusal_of_recursive_body :
    let context := Context.empty.define "f" (.var ⟨"f", 0⟩)
    let settings : Settings := { strict := true }
    let place : Name := ⟨"g", ⟨18, 19⟩⟩
    ∃ name e, parseProgram "r := λx.f x r (λu.g u) h" = .ok [.define name e] ∧
      resolveDefinition context settings "r" e 1 = .error (.undefinedVariable place) ∧
      (∀ other, Undefined context ["r"] e other → other = place ∨ 18 < other.span.start) ∧
      resolveTerm context settings e 1 = .error (.undefinedVariable ⟨"r", ⟨12, 13⟩⟩) ∧
      ∀ other, Undefined context [] e other → other = ⟨"r", ⟨12, 13⟩⟩ ∨ 12 < other.span.start := by
  intro context settings place
  obtain ⟨name, e, parsed⟩ :
      ∃ name e, parseProgram "r := λx.f x r (λu.g u) h" = .ok [.define name e] := ⟨_, _, rfl⟩
  have read : e.ReadFrom "r := λx.f x r (λu.g u) h" := .statement parsed List.mem_cons_self
  have refused : resolveDefinition context settings "r" e 1 = .error (.undefinedVariable place) ∧
      resolveTerm context settings e 1 = .error (.undefinedVariable ⟨"r", ⟨12, 13⟩⟩) := by
    cases parsed
    exact ⟨rfl, rfl⟩
  obtain ⟨asTerm, asDefinition⟩ := strict_refusal_is_leftmost read context settings 1
  obtain ⟨_, _, firstInBody, same, _⟩ := (asDefinition "r").first _ refused.1
  cases same
  obtain ⟨_, _, firstInTerm, same, _⟩ := asTerm.first _ refused.2
  cases same
  exact ⟨name, e, parsed, refused.1, fun other undefined => firstInBody other ⟨rfl, undefined⟩,
    refused.2, fun other undefined => firstInTerm other ⟨rfl, undefined⟩⟩

end UntypedLambda
