import UntypedLambda.Surface.Expr

set_option autoImplicit false

/-! The free occurrences of names in an expression: those outside every abstraction that binds their
name. -/

namespace UntypedLambda.Surface

def unboundBy (binders : List Name) (occurrence : Name) : Bool :=
  binders.all fun binder => binder.value != occurrence.value

namespace Expr

mutual

def occurrences : Expr → List Name
  | .var _ name => [name]
  | .nat _ _ => []
  | .lam _ binders body => body.occurrences.filter (unboundBy binders)
  | .app _ function argument => function.occurrences ++ argument.occurrences
  | .tuple _ elements => allOccurrences elements
  | .list _ elements => allOccurrences elements
  | .cons _ head tail => head.occurrences ++ tail.occurrences

def allOccurrences : List Expr → List Name
  | [] => []
  | element :: elements => element.occurrences ++ allOccurrences elements

end

private theorem any_filter_unboundBy (binders occurrences : List Name) (name : String) :
    (occurrences.filter (unboundBy binders)).any (fun occurrence => occurrence.value == name) =
      (binders.all (fun binder => binder.value != name) &&
        occurrences.any fun occurrence => occurrence.value == name) := by
  rw [Bool.eq_iff_iff, Bool.and_eq_true]
  simp only [List.any_eq_true, List.mem_filter, beq_iff_eq]
  constructor
  · rintro ⟨occurrence, ⟨member, unbound⟩, rfl⟩
    exact ⟨unbound, occurrence, member, rfl⟩
  · rintro ⟨unbound, occurrence, member, rfl⟩
    exact ⟨occurrence, ⟨member, unbound⟩, rfl⟩

mutual

/-- An expression mentions the names of its free occurrences. -/
theorem mentions_eq (name : String) (e : Expr) :
    e.mentions name = e.occurrences.any fun occurrence => occurrence.value == name := by
  match e with
  | .var _ occurrence => simp [mentions, occurrences]
  | .nat _ _ => rfl
  | .lam _ binders body => rw [mentions, occurrences, any_filter_unboundBy, mentions_eq name body]
  | .app _ function argument =>
      rw [mentions, occurrences, List.any_append, mentions_eq name function,
        mentions_eq name argument]
  | .tuple _ elements => exact anyMentions_eq name elements
  | .list _ elements => exact anyMentions_eq name elements
  | .cons _ head tail =>
      rw [mentions, occurrences, List.any_append, mentions_eq name head, mentions_eq name tail]

theorem anyMentions_eq (name : String) (elements : List Expr) :
    anyMentions name elements =
      (allOccurrences elements).any fun occurrence => occurrence.value == name := by
  match elements with
  | [] => rfl
  | element :: rest =>
      rw [anyMentions, allOccurrences, List.any_append, mentions_eq name element,
        anyMentions_eq name rest]

end

end Expr

end UntypedLambda.Surface
