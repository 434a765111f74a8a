import UntypedLambda.Surface.Error
import UntypedLambda.Surface.Expr

set_option autoImplicit false

/-! Surface syntax without its places. Two expressions are written alike, wherever they stand, when
they are the same once every span is forgotten. -/

namespace UntypedLambda.Surface

def Name.bare (name : Name) : Name :=
  ⟨name.value, default⟩

namespace Expr

mutual

def bare : Expr → Expr
  | .var _ name => .var default name.bare
  | .nat _ value => .nat default value
  | .lam _ binders body => .lam default (binders.map Name.bare) body.bare
  | .app _ function argument => .app default function.bare argument.bare
  | .tuple _ elements => .tuple default (bareAll elements)
  | .list _ elements => .list default (bareAll elements)
  | .cons _ head tail => .cons default head.bare tail.bare

def bareAll : List Expr → List Expr
  | [] => []
  | element :: elements => element.bare :: bareAll elements

end

theorem bare_withSpan (span : Span) (e : Expr) : (e.withSpan span).bare = e.bare := by
  cases e <;> rfl

theorem length_bareAll (elements : List Expr) : (bareAll elements).length = elements.length := by
  induction elements with
  | nil => rfl
  | cons element elements ih => rw [bareAll, List.length_cons, ih, List.length_cons]

mutual

/-- What an expression mentions does not depend on its places. -/
theorem mentions_bare (name : String) (e : Expr) : e.bare.mentions name = e.mentions name := by
  match e with
  | .var _ _ => rfl
  | .nat _ _ => rfl
  | .lam _ binders body => rw [bare, mentions, List.all_map, mentions_bare name body]; rfl
  | .app _ function argument =>
      rw [bare, mentions, mentions_bare name function, mentions_bare name argument, mentions]
  | .tuple _ elements => rw [bare, mentions, anyMentions_bareAll name elements, mentions]
  | .list _ elements => rw [bare, mentions, anyMentions_bareAll name elements, mentions]
  | .cons _ head tail =>
      rw [bare, mentions, mentions_bare name head, mentions_bare name tail, mentions]

theorem anyMentions_bareAll (name : String) (elements : List Expr) :
    anyMentions name (bareAll elements) = anyMentions name elements := by
  match elements with
  | [] => rfl
  | element :: rest =>
      rw [bareAll, anyMentions, mentions_bare name element, anyMentions_bareAll name rest,
        anyMentions]

end

end Expr

def Statement.bare : Statement → Statement
  | .term body => .term body.bare
  | .define name body => .define name.bare body.bare

def SourceError.bare : SourceError → SourceError
  | .undefinedVariable name => .undefinedVariable name.bare
  | error => error

theorem SourceError.message_bare (error : SourceError) : error.bare.message = error.message := by
  cases error <;> rfl

end UntypedLambda.Surface
