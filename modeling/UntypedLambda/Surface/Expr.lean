import UntypedLambda.Surface.Token

set_option autoImplicit false

/-! Surface syntax: what is written, before names are resolved. Every node knows its place in the
source, and so does every identifier. -/

namespace UntypedLambda.Surface

inductive Expr where
  | var (span : Span) (name : Name)
  | nat (span : Span) (value : Nat)
  /-- The abstraction of the binders in the order of the source. -/
  | lam (span : Span) (binders : List Name) (body : Expr)
  | app (span : Span) (function argument : Expr)
  | tuple (span : Span) (elements : List Expr)
  | list (span : Span) (elements : List Expr)
  | cons (span : Span) (head tail : Expr)
  deriving Repr

namespace Expr

def span : Expr → Span
  | .var span _ => span
  | .nat span _ => span
  | .lam span _ _ => span
  | .app span _ _ => span
  | .tuple span _ => span
  | .list span _ => span
  | .cons span _ _ => span

/-- The same expression at another place; the parts stay where they are. -/
def withSpan (span : Span) : Expr → Expr
  | .var _ name => .var span name
  | .nat _ value => .nat span value
  | .lam _ binders body => .lam span binders body
  | .app _ function argument => .app span function argument
  | .tuple _ elements => .tuple span elements
  | .list _ elements => .list span elements
  | .cons _ head tail => .cons span head tail

mutual

/-- Whether a name occurs outside every abstraction that binds it. -/
def mentions (name : String) : Expr → Bool
  | .var _ occurrence => occurrence.value == name
  | .nat _ _ => false
  | .lam _ binders body => binders.all (fun binder => binder.value != name) && body.mentions name
  | .app _ function argument => function.mentions name || argument.mentions name
  | .tuple _ elements => anyMentions name elements
  | .list _ elements => anyMentions name elements
  | .cons _ head tail => head.mentions name || tail.mentions name

def anyMentions (name : String) : List Expr → Bool
  | [] => false
  | element :: elements => element.mentions name || anyMentions name elements

end

def bindersOnto : List Name → List Char → List Char
  | [], rest => rest
  | [binder], rest => binder.value.toList ++ rest
  | binder :: binders, rest => binder.value.toList ++ ' ' :: bindersOnto binders rest

mutual

/-- Puts the text of an expression in front of `rest`. Abstractions, applications and `::` are
written in parentheses, so any text can stand wherever an expression can. -/
def renderOnto : Expr → List Char → List Char
  | .var _ name, rest => name.value.toList ++ rest
  | .nat _ value, rest => (toString value).toList ++ rest
  | .lam _ binders body, rest =>
      '(' :: 'λ' :: bindersOnto binders ('.' :: ' ' :: renderOnto body (')' :: rest))
  | .app _ function argument, rest =>
      '(' :: renderOnto function (' ' :: renderOnto argument (')' :: rest))
  | .tuple _ elements, rest => '<' :: renderAllOnto elements ('>' :: rest)
  | .list _ elements, rest => '[' :: renderAllOnto elements (']' :: rest)
  | .cons _ head tail, rest =>
      '(' :: renderOnto head (' ' :: ':' :: ':' :: ' ' :: renderOnto tail (')' :: rest))

def renderAllOnto : List Expr → List Char → List Char
  | [], rest => rest
  | [element], rest => renderOnto element rest
  | element :: elements, rest =>
      renderOnto element (',' :: ' ' :: renderAllOnto elements rest)

end

def render (e : Expr) : String :=
  String.ofList (e.renderOnto [])

end Expr

inductive Statement where
  | term (body : Expr)
  | define (name : Name) (body : Expr)
  deriving Repr

def Statement.render : Statement → String
  | .term body => body.render
  | .define name body => name.value ++ " := " ++ body.render

end UntypedLambda.Surface
