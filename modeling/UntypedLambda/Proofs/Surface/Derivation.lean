import UntypedLambda.Proofs.Surface.Grammar

set_option autoImplicit false

/-! The documented grammar of expressions. An abstraction is an atom like any other there, so a text
can have several derivations, which differ in where the bodies of abstractions end. What it derives
is what the grammar without this ambiguity derives, and the derivations of the latter are those in
which every body extends as far right as possible. -/

namespace UntypedLambda.Surface.Grammar

/-- Where the body of an abstraction may end, given its tokens and those that follow it. -/
abbrev Ending := List (Located Token) → List (Located Token) → Prop

mutual

/-- The tokens of an atom, and those that follow it. -/
inductive Atom (ends : Ending) : List (Located Token) → List (Located Token) → Expr → Prop where
  | ident {after : List (Located Token)} (name : Name) :
      Atom ends [name.token] after (.var name.span name)
  | nat {after : List (Located Token)} (value : Nat) (span : Span) :
      Atom ends [⟨.nat value, span⟩] after (.nat span value)
  | group {tokens after : List (Located Token)} {e : Expr} (first last : Span) :
      Term ends tokens (Symbol.rightParen.at last :: after) e →
      Atom ends (Symbol.leftParen.at first :: (tokens ++ [Symbol.rightParen.at last])) after
        (e.withSpan ⟨first.start, last.stop⟩)
  | abstraction {tokens after : List (Located Token)} {body : Expr} (first dot : Span)
      (binder : Name) (binders : List Name) :
      Term ends tokens after body → ends tokens after →
      Atom ends
        (Symbol.lambda.at first ::
          ((binder :: binders).map Name.token ++ Symbol.dot.at dot :: tokens))
        after (.lam ⟨first.start, body.span.stop⟩ (binder :: binders) body)
  | tuple {tokens after : List (Located Token)} {element other : Expr} {elements : List Expr}
      (first last : Span) :
      Elements ends tokens (Symbol.rightAngle.at last :: after) (element :: other :: elements) →
      Atom ends (Symbol.leftAngle.at first :: (tokens ++ [Symbol.rightAngle.at last])) after
        (.tuple ⟨first.start, last.stop⟩ (element :: other :: elements))
  | empty {after : List (Located Token)} (first last : Span) :
      Atom ends [Symbol.leftBracket.at first, Symbol.rightBracket.at last] after
        (.list ⟨first.start, last.stop⟩ [])
  | list {tokens after : List (Located Token)} {elements : List Expr} (first last : Span) :
      Elements ends tokens (Symbol.rightBracket.at last :: after) elements →
      Atom ends (Symbol.leftBracket.at first :: (tokens ++ [Symbol.rightBracket.at last])) after
        (.list ⟨first.start, last.stop⟩ elements)

inductive Application (ends : Ending) :
    List (Located Token) → List (Located Token) → Expr → Prop where
  | head {tokens after : List (Located Token)} {e : Expr} :
      Atom ends tokens after e → Application ends tokens after e
  | apply {tokens rest after : List (Located Token)} {function argument : Expr} :
      Application ends tokens (rest ++ after) function → Atom ends rest after argument →
      Application ends (tokens ++ rest) after
        (.app (function.span.cover argument.span) function argument)

inductive Term (ends : Ending) : List (Located Token) → List (Located Token) → Expr → Prop where
  | application {tokens after : List (Located Token)} {e : Expr} :
      Application ends tokens after e → Term ends tokens after e
  | cons {tokens rest after : List (Located Token)} {head tail : Expr} (span : Span) :
      Application ends tokens (Symbol.cons.at span :: rest ++ after) head →
      Term ends rest after tail →
      Term ends (tokens ++ Symbol.cons.at span :: rest) after
        (.cons (head.span.cover tail.span) head tail)

inductive Elements (ends : Ending) :
    List (Located Token) → List (Located Token) → List Expr → Prop where
  | last {tokens after : List (Located Token)} {e : Expr} :
      Term ends tokens after e → Elements ends tokens after [e]
  | next {tokens rest after : List (Located Token)} {e : Expr} {elements : List Expr}
      (span : Span) :
      Term ends tokens (Symbol.comma.at span :: rest ++ after) e →
      Elements ends rest after elements →
      Elements ends (tokens ++ Symbol.comma.at span :: rest) after (e :: elements)

end

/-- The grammar as it is documented: a body may end wherever it is a term. -/
def anywhere : Ending :=
  fun _ _ => True

/-- A body extends as far right as possible: with any more of the tokens that follow it would not
be a term. -/
def asFarAsPossible : Ending :=
  fun body after => ∀ more rest, after = more ++ rest → more ≠ [] →
    ¬ ∃ e, Term anywhere (body ++ more) rest e

/-! ### Longer phrases -/

theorem exists_application_append {tokens rest : List (Located Token)} {e e' : Expr}
    (first : Surface.Application tokens e) (second : Surface.Application rest e') :
    ∃ whole, Surface.Application (tokens ++ rest) whole := by
  cases second with
  | head closed => exact ⟨_, .apply first closed⟩
  | apply function argument =>
      obtain ⟨whole, application⟩ := exists_application_append first function
      rw [← List.append_assoc]
      exact ⟨_, .apply application argument⟩

mutual

theorem exists_abstraction_append {rest : List (Located Token)}
    (continues : ∀ tokens e, Surface.Application tokens e → ∃ whole, Phrase (tokens ++ rest) whole)
    {tokens : List (Located Token)} {e : Expr} (abstraction : Abstraction tokens e) :
    ∃ whole, Abstraction (tokens ++ rest) whole := by
  match abstraction with
  | .over first dot binder binders phrase =>
      obtain ⟨body, longer⟩ := exists_phrase_append continues phrase
      have whole := Abstraction.over first dot binder binders longer
      rw [List.cons_append, List.append_assoc, List.cons_append]
      exact ⟨_, whole⟩

/-- What continues an application continues a phrase, because a phrase that is no application ends
with a phrase. -/
theorem exists_phrase_append {rest : List (Located Token)}
    (continues : ∀ tokens e, Surface.Application tokens e → ∃ whole, Phrase (tokens ++ rest) whole)
    {tokens : List (Located Token)} {e : Expr} (phrase : Phrase tokens e) :
    ∃ whole, Phrase (tokens ++ rest) whole := by
  match phrase with
  | .application application => exact continues _ _ application
  | .abstraction abstraction =>
      obtain ⟨whole, longer⟩ := exists_abstraction_append continues abstraction
      exact ⟨whole, .abstraction longer⟩
  | .apply function abstraction =>
      obtain ⟨whole, longer⟩ := exists_abstraction_append continues abstraction
      rw [List.append_assoc]
      exact ⟨_, .apply function longer⟩
  | .cons span head tail =>
      obtain ⟨whole, longer⟩ := exists_phrase_append continues tail
      rw [List.append_assoc, List.cons_append]
      exact ⟨_, .cons span head longer⟩

end

/-- An application is continued by a phrase. -/
theorem exists_phrase_of_application {rest : List (Located Token)} {e' : Expr}
    (phrase : Phrase rest e') (tokens : List (Located Token)) (e : Expr)
    (application : Surface.Application tokens e) : ∃ whole, Phrase (tokens ++ rest) whole := by
  cases phrase with
  | application second =>
      obtain ⟨whole, longer⟩ := exists_application_append application second
      exact ⟨whole, .application longer⟩
  | abstraction abstraction => exact ⟨_, .apply application abstraction⟩
  | apply function abstraction =>
      obtain ⟨whole, longer⟩ := exists_application_append application function
      rw [← List.append_assoc]
      exact ⟨_, .apply longer abstraction⟩
  | cons span head tail =>
      obtain ⟨whole, longer⟩ := exists_application_append application head
      rw [← List.append_assoc]
      exact ⟨_, .cons span longer tail⟩

/-! ### Every derivation gives a phrase -/

section Phrases

variable {ends : Ending}

mutual

theorem Atom.exists_phrase {tokens after : List (Located Token)} {e : Expr}
    (atom : Atom ends tokens after e) : ∃ e', Phrase tokens e' := by
  match atom with
  | .ident name => exact ⟨_, .application (.head (.ident name))⟩
  | .nat value span => exact ⟨_, .application (.head (.nat value span))⟩
  | .group first last term =>
      obtain ⟨inner, phrase⟩ := term.exists_phrase
      exact ⟨_, .application (.head (.group first last phrase))⟩
  | .abstraction first dot binder binders term _ =>
      obtain ⟨body, phrase⟩ := term.exists_phrase
      exact ⟨_, .abstraction (.over first dot binder binders phrase)⟩
  | .tuple first last elements =>
      obtain ⟨others, derived, sameLength⟩ := elements.exists_elements
      match others, sameLength with
      | one :: other :: others, _ => exact ⟨_, .application (.head (.tuple first last derived))⟩
  | .empty first last => exact ⟨_, .application (.head (.empty first last))⟩
  | .list first last elements =>
      obtain ⟨others, derived, _⟩ := elements.exists_elements
      exact ⟨_, .application (.head (.list first last derived))⟩

theorem Application.exists_phrase {tokens after : List (Located Token)} {e : Expr}
    (application : Application ends tokens after e) : ∃ e', Phrase tokens e' := by
  match application with
  | .head atom => exact atom.exists_phrase
  | .apply function argument =>
      obtain ⟨first, phrase⟩ := function.exists_phrase
      obtain ⟨second, phrase'⟩ := argument.exists_phrase
      exact exists_phrase_append (exists_phrase_of_application phrase') phrase

theorem Term.exists_phrase {tokens after : List (Located Token)} {e : Expr}
    (term : Term ends tokens after e) : ∃ e', Phrase tokens e' := by
  match term with
  | .application application => exact application.exists_phrase
  | .cons span head tail =>
      obtain ⟨first, phrase⟩ := head.exists_phrase
      obtain ⟨second, phrase'⟩ := tail.exists_phrase
      exact exists_phrase_append (fun _ _ application => ⟨_, .cons span application phrase'⟩) phrase

theorem Elements.exists_elements {tokens after : List (Located Token)} {elements : List Expr}
    (derived : Elements ends tokens after elements) :
    ∃ others, Surface.Elements tokens others ∧ others.length = elements.length := by
  match derived with
  | .last term =>
      obtain ⟨e, phrase⟩ := term.exists_phrase
      exact ⟨[e], .last phrase, rfl⟩
  | .next span term rest =>
      obtain ⟨e, phrase⟩ := term.exists_phrase
      obtain ⟨others, derived, sameLength⟩ := rest.exists_elements
      exact ⟨e :: others, .next span phrase derived, congrArg Nat.succ sameLength⟩

end

end Phrases

/-! ### Every phrase is derived -/

def closers : List Symbol :=
  [.rightParen, .rightAngle, .rightBracket, .comma, .semicolon]

/-- Bodies that are phrases may end before the tokens in `follows`, those after a whole term among
them. -/
structure Permits (ends : Ending) (follows : List (Located Token) → Prop) : Prop where
  bodies : ∀ body e after, Phrase body e → follows after → ends body after
  closers : ∀ symbol ∈ closers, ∀ span after, follows (Symbol.at symbol span :: after)

section Derivations

variable {ends : Ending} {follows : List (Located Token) → Prop}

mutual

theorem atom_of_closed (permits : Permits ends follows) {tokens : List (Located Token)}
    {e : Expr} (derived : Closed tokens e) (after : List (Located Token)) : Atom ends tokens after e := by
  match derived with
  | .ident name => exact .ident name
  | .nat value span => exact .nat value span
  | .group first last phrase =>
      exact .group first last
        (term_of_phrase permits phrase (permits.closers .rightParen (by decide) last after))
  | .tuple first last elements =>
      exact .tuple first last
        (elements_of_elements permits elements (permits.closers .rightAngle (by decide) last after))
  | .empty first last => exact .empty first last
  | .list first last elements =>
      exact .list first last
        (elements_of_elements permits elements
          (permits.closers .rightBracket (by decide) last after))

theorem application_of_application (permits : Permits ends follows)
    {tokens : List (Located Token)} {e : Expr} (derived : Surface.Application tokens e)
    (after : List (Located Token)) : Application ends tokens after e := by
  match derived with
  | .head closed => exact .head (atom_of_closed permits closed after)
  | .apply function argument =>
      exact .apply (application_of_application permits function _)
        (atom_of_closed permits argument after)

theorem atom_of_abstraction (permits : Permits ends follows)
    {tokens after : List (Located Token)} {e : Expr} (derived : Abstraction tokens e)
    (following : follows after) : Atom ends tokens after e := by
  match derived with
  | .over first dot binder binders phrase =>
      exact .abstraction first dot binder binders (term_of_phrase permits phrase following)
        (permits.bodies _ _ after phrase following)

theorem term_of_phrase (permits : Permits ends follows) {tokens after : List (Located Token)}
    {e : Expr} (derived : Phrase tokens e) (following : follows after) :
    Term ends tokens after e := by
  match derived with
  | .application application =>
      exact .application (application_of_application permits application after)
  | .abstraction abstraction =>
      exact .application (.head (atom_of_abstraction permits abstraction following))
  | .apply function argument =>
      exact .application
        (.apply (application_of_application permits function _)
          (atom_of_abstraction permits argument following))
  | .cons span head tail =>
      exact .cons span (application_of_application permits head _)
        (term_of_phrase permits tail following)

theorem elements_of_elements (permits : Permits ends follows)
    {tokens after : List (Located Token)} {elements : List Expr}
    (derived : Surface.Elements tokens elements) (following : follows after) :
    Elements ends tokens after elements := by
  match derived with
  | .last phrase => exact .last (term_of_phrase permits phrase following)
  | .next span phrase rest =>
      exact .next span (term_of_phrase permits phrase (permits.closers .comma (by decide) span _))
        (elements_of_elements permits rest following)

end

end Derivations

theorem anywhere_of_phrase {tokens : List (Located Token)} {e : Expr} (phrase : Phrase tokens e)
    (after : List (Located Token)) : Term anywhere tokens after e := by
  have permits : Permits anywhere fun _ => True := by
    constructor
    · exact fun _ _ _ _ _ => trivial
    · exact fun _ _ _ _ => trivial
  exact term_of_phrase permits phrase trivial

/-! ### The longest bodies -/

def Stops (after : List (Located Token)) : Prop :=
  ∀ token rest, after = token :: rest → ∃ symbol ∈ closers, ∃ span, token = Symbol.at symbol span

theorem stops_nil : Stops [] :=
  fun _ _ none => nomatch none

theorem stops_cons {symbol : Symbol} (closing : symbol ∈ closers) (span : Span)
    (after : List (Located Token)) : Stops (Symbol.at symbol span :: after) := by
  intro token rest same
  cases same
  exact ⟨symbol, closing, span, rfl⟩

/-- A reading without open brackets refuses every closer at the end of an expression. -/
theorem take?_closer {reading : Reading} {e : Expr} (completes : reading.Completes [] e)
    {symbol : Symbol} (closing : symbol ∈ closers) (span : Span) :
    reading.take? (Symbol.at symbol span) = none := by
  by_cases semicolon : symbol = .semicolon
  · exact reading.take?_separator (Or.inl semicolon) span
  · have bracket : symbol = .rightParen ∨ symbol = .rightAngle ∨ symbol = .rightBracket ∨
        symbol = .comma := by
      simpa [closers, semicolon] using closing
    rw [completes.take?_close bracket]
    rcases bracket with rfl | rfl | rfl | rfl <;> rfl

theorem asFarAsPossible_of_phrase {body after : List (Located Token)} {e : Expr}
    (phrase : Phrase body e) (stops : Stops after) : asFarAsPossible body after := by
  intro more rest split several
  rintro ⟨e', longer⟩
  cases more with
  | nil => exact several rfl
  | cons token more =>
      -- The longer body would be read, but after the body the closer is refused.
      obtain ⟨symbol, closing, span, rfl⟩ := stops token (more ++ rest) split
      obtain ⟨whole, derived⟩ := longer.exists_phrase
      obtain ⟨final, reads, _⟩ := derived.reads []
      obtain ⟨next, readsBody, completes⟩ := phrase.reads []
      rw [Reading.takeAll?_append, readsBody, Option.bind_some, Reading.takeAll?_cons,
        take?_closer completes closing span] at reads
      cases reads

theorem permits_asFarAsPossible : Permits asFarAsPossible Stops where
  bodies := fun _ _ _ phrase stops => asFarAsPossible_of_phrase phrase stops
  closers := fun _ closing span after => stops_cons closing span after

def FollowsBody (after : List (Located Token)) : Prop :=
  ∃ body e, Phrase body e ∧ asFarAsPossible body after

/-- What would continue an application cannot follow such a body, which it would continue as
well. -/
theorem FollowsBody.not_continued {more after : List (Located Token)}
    (followsBody : FollowsBody (more ++ after)) (several : more ≠ [])
    (continues : ∀ tokens e, Surface.Application tokens e → ∃ whole, Phrase (tokens ++ more) whole) :
    False := by
  obtain ⟨body, e, phrase, far⟩ := followsBody
  obtain ⟨whole, longer⟩ := exists_phrase_append continues phrase
  exact far more after rfl several ⟨whole, anywhere_of_phrase longer after⟩

theorem Atom.ne_nil {ends : Ending} {tokens after : List (Located Token)} {e : Expr}
    (atom : Atom ends tokens after e) : tokens ≠ [] := by
  cases atom <;> exact List.cons_ne_nil _ _

mutual

theorem Atom.closed_or_abstraction {tokens after : List (Located Token)} {e : Expr}
    (atom : Atom asFarAsPossible tokens after e) :
    Closed tokens e ∨ Abstraction tokens e ∧ FollowsBody after := by
  match atom with
  | .ident name => exact Or.inl (.ident name)
  | .nat value span => exact Or.inl (.nat value span)
  | .group first last term => exact Or.inl (.group first last term.phrase)
  | .abstraction first dot binder binders term far =>
      exact Or.inr ⟨.over first dot binder binders term.phrase, _, _, term.phrase, far⟩
  | .tuple first last elements => exact Or.inl (.tuple first last elements.elements)
  | .empty first last => exact Or.inl (.empty first last)
  | .list first last elements => exact Or.inl (.list first last elements.elements)

theorem Application.application_or_phrase {tokens after : List (Located Token)} {e : Expr}
    (application : Application asFarAsPossible tokens after e) :
    Surface.Application tokens e ∨ Phrase tokens e ∧ FollowsBody after := by
  match application with
  | .head atom =>
      rcases atom.closed_or_abstraction with closed | ⟨abstraction, followsBody⟩
      · exact Or.inl (.head closed)
      · exact Or.inr ⟨.abstraction abstraction, followsBody⟩
  | .apply function argument =>
      rcases function.application_or_phrase with first | ⟨_, followsBody⟩
      · rcases argument.closed_or_abstraction with closed | ⟨abstraction, followsBody⟩
        · exact Or.inl (.apply first closed)
        · exact Or.inr ⟨.apply first abstraction, followsBody⟩
      · -- The argument would have gone on with the body at the end of the function.
        obtain ⟨e', phrase⟩ := argument.exists_phrase
        exact (followsBody.not_continued argument.ne_nil (exists_phrase_of_application phrase)).elim

/-- With the longest bodies, an abstraction ends the application that it stands in. -/
theorem Term.phrase {tokens after : List (Located Token)} {e : Expr}
    (term : Term asFarAsPossible tokens after e) : Phrase tokens e := by
  match term with
  | .application application =>
      rcases application.application_or_phrase with first | ⟨phrase, _⟩
      · exact .application first
      · exact phrase
  | .cons span head tail =>
      rcases head.application_or_phrase with first | ⟨_, followsBody⟩
      · exact .cons span first tail.phrase
      · have continues (tokens : List (Located Token)) (e : Expr)
            (application : Surface.Application tokens e) :=
          Exists.intro _ (Phrase.cons span application tail.phrase)
        exact (followsBody.not_continued (List.cons_ne_nil _ _) continues).elim

theorem Elements.elements {tokens after : List (Located Token)} {elements : List Expr}
    (derived : Elements asFarAsPossible tokens after elements) :
    Surface.Elements tokens elements := by
  match derived with
  | .last term => exact .last term.phrase
  | .next span term rest => exact .next span term.phrase rest.elements

end

end UntypedLambda.Surface.Grammar
