import Mathlib.Order.MinMax
import UntypedLambda.Proofs.Surface.Lexemes
import UntypedLambda.Proofs.Surface.Program

set_option autoImplicit false

/-! Texts elsewhere in a source. The same text has the same tokens there, and they are the same
expressions and statements, with every place moved. -/

namespace UntypedLambda.Surface

namespace Span

def moved (move : Nat → Nat) (span : Span) : Span :=
  ⟨move span.start, move span.stop⟩

theorem cover_moved {move : Nat → Nat} (monotone : Monotone move) (left right : Span) :
    (left.cover right).moved move = (left.moved move).cover (right.moved move) := by
  simp only [cover, moved, monotone.map_min, monotone.map_max]

end Span

namespace Located

variable {α : Type}

def moved (move : Nat → Nat) (located : Located α) : Located α :=
  ⟨located.value, located.span.moved move⟩

end Located

namespace Expr

mutual

def moved (move : Nat → Nat) : Expr → Expr
  | .var span name => .var (span.moved move) (name.moved move)
  | .nat span value => .nat (span.moved move) value
  | .lam span binders body =>
      .lam (span.moved move) (binders.map (Located.moved move)) (body.moved move)
  | .app span function argument =>
      .app (span.moved move) (function.moved move) (argument.moved move)
  | .tuple span elements => .tuple (span.moved move) (allMoved move elements)
  | .list span elements => .list (span.moved move) (allMoved move elements)
  | .cons span head tail => .cons (span.moved move) (head.moved move) (tail.moved move)

def allMoved (move : Nat → Nat) : List Expr → List Expr
  | [] => []
  | element :: elements => element.moved move :: allMoved move elements

end

theorem span_moved (move : Nat → Nat) (e : Expr) : (e.moved move).span = e.span.moved move := by
  cases e <;> rfl

theorem withSpan_moved (move : Nat → Nat) (span : Span) (e : Expr) :
    (e.withSpan span).moved move = (e.moved move).withSpan (span.moved move) := by
  cases e <;> rfl

end Expr

def Statement.moved (move : Nat → Nat) : Statement → Statement
  | .term body => .term (body.moved move)
  | .define name body => .define (name.moved move) (body.moved move)

/-! ### Tokens -/

/-- The same text elsewhere in a source. -/
theorem Lexed.moved {offset : Nat} {text after : List Char} {tokens : List (Located Token)}
    (lexed : Lexed offset text after tokens) (move : Nat → Nat)
    (shifts : ∀ length, move (offset + length) = move offset + length) :
    Lexed (move offset) text after (tokens.map (Located.moved move)) := by
  have beyond {offset : Nat} (length : Nat)
      (shifts : ∀ length, move (offset + length) = move offset + length) (more : Nat) :
      move (offset + length + more) = move (offset + length) + more := by
    rw [Nat.add_assoc, shifts, shifts, Nat.add_assoc]
  induction lexed with
  | nothing => exact .nothing
  | @skip offset gap rest after tokens skipped _ ih =>
      have later := ih (beyond gap.length shifts)
      rw [shifts gap.length] at later
      exact .skip skipped later
  | @token offset value text rest after tokens lexeme _ ih =>
      have later := ih (beyond text.length shifts)
      rw [shifts text.length] at later
      rw [List.map_cons, Located.moved, Span.moved, shifts text.length]
      exact .token lexeme later

/-! ### Expressions and statements -/

section Grammar

variable {move : Nat → Nat}

mutual

theorem Closed.moved (monotone : Monotone move) {tokens : List (Located Token)} {e : Expr}
    (closed : Closed tokens e) :
    Closed (tokens.map (Located.moved move)) (e.moved move) := by
  match closed with
  | .ident name => exact .ident (name.moved move)
  | .nat value span => exact .nat value (span.moved move)
  | .group first last phrase =>
      have inner := Closed.group (first.moved move) (last.moved move) (phrase.moved monotone)
      rw [Expr.withSpan_moved, List.map_cons, List.map_append]
      exact inner
  | .tuple first last elements =>
      have inner := Closed.tuple (first.moved move) (last.moved move) (elements.moved monotone)
      rw [List.map_cons, List.map_append]
      exact inner
  | .empty first last => exact .empty (first.moved move) (last.moved move)
  | .list first last elements =>
      have inner := Closed.list (first.moved move) (last.moved move) (elements.moved monotone)
      rw [List.map_cons, List.map_append]
      exact inner

theorem Application.moved (monotone : Monotone move) {tokens : List (Located Token)} {e : Expr}
    (application : Application tokens e) :
    Application (tokens.map (Located.moved move)) (e.moved move) := by
  match application with
  | .head closed => exact .head (closed.moved monotone)
  | .apply function argument =>
      have whole := Application.apply (function.moved monotone) (argument.moved monotone)
      rw [Expr.span_moved, Expr.span_moved, ← Span.cover_moved monotone] at whole
      rw [List.map_append]
      exact whole

theorem Abstraction.moved (monotone : Monotone move) {tokens : List (Located Token)} {e : Expr}
    (abstraction : Abstraction tokens e) :
    Abstraction (tokens.map (Located.moved move)) (e.moved move) := by
  match abstraction with
  | .over first dot binder binders phrase =>
      have whole := Abstraction.over (first.moved move) (dot.moved move) (binder.moved move)
        (binders.map (Located.moved move)) (phrase.moved monotone)
      rw [Expr.span_moved] at whole
      have names : (binders.map (Located.moved move)).map Name.token =
          (binders.map Name.token).map (Located.moved move) := by
        rw [List.map_map, List.map_map]
        rfl
      rw [List.map_cons, names] at whole
      rw [List.map_cons, List.map_append, List.map_cons]
      exact whole

theorem Phrase.moved (monotone : Monotone move) {tokens : List (Located Token)} {e : Expr}
    (phrase : Phrase tokens e) :
    Phrase (tokens.map (Located.moved move)) (e.moved move) := by
  match phrase with
  | .application application => exact .application (application.moved monotone)
  | .abstraction abstraction => exact .abstraction (abstraction.moved monotone)
  | .apply function argument =>
      have whole := Phrase.apply (function.moved monotone) (argument.moved monotone)
      rw [Expr.span_moved, Expr.span_moved, ← Span.cover_moved monotone] at whole
      rw [List.map_append]
      exact whole
  | .cons span head tail =>
      have whole := Phrase.cons (span.moved move) (head.moved monotone) (tail.moved monotone)
      rw [Expr.span_moved, Expr.span_moved, ← Span.cover_moved monotone] at whole
      rw [List.map_append, List.map_cons]
      exact whole

theorem Elements.moved (monotone : Monotone move) {tokens : List (Located Token)}
    {elements : List Expr}
    (derived : Elements tokens elements) :
    Elements (tokens.map (Located.moved move)) (Expr.allMoved move elements) := by
  match derived with
  | .last phrase => exact .last (phrase.moved monotone)
  | .next span phrase rest =>
      have whole := Elements.next (span.moved move) (phrase.moved monotone) (rest.moved monotone)
      rw [List.map_append, List.map_cons]
      exact whole

end

open Grammar (phrases)

theorem Grammar.Sentence.moved (monotone : Monotone move) {tokens after : List (Located Token)}
    {statement : Statement} (sentence : Sentence phrases tokens after statement)
    (other : List (Located Token)) :
    Sentence phrases (tokens.map (Located.moved move)) other (statement.moved move) := by
  cases sentence with
  | term phrase => exact .term (Phrase.moved monotone phrase)
  | define name sign phrase =>
      exact .define (name.moved move) (sign.moved move) (Phrase.moved monotone phrase)

theorem Grammar.Sentences.moved (monotone : Monotone move) {tokens after : List (Located Token)}
    {statements : List Statement} (sentences : Sentences phrases tokens after statements)
    (other : List (Located Token)) :
    Sentences phrases (tokens.map (Located.moved move)) other
      (statements.map (Statement.moved move)) := by
  induction sentences with
  | one sentence => exact .one (sentence.moved monotone other)
  | more span sentence _ ih =>
      rw [List.map_append, List.map_cons]
      exact .more (span.moved move) (sentence.moved monotone _) ih

theorem Grammar.Program.moved (monotone : Monotone move) {tokens : List (Located Token)}
    {statements : List Statement} (program : Program phrases tokens statements) :
    Program phrases (tokens.map (Located.moved move)) (statements.map (Statement.moved move)) := by
  cases program with
  | empty => exact .empty
  | sentences sentences => exact .sentences (sentences.moved monotone [])
  | trailing span sentences =>
      rw [List.map_append]
      exact .trailing (span.moved move) (sentences.moved monotone _)

end Grammar

end UntypedLambda.Surface
