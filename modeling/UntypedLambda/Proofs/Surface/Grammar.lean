import UntypedLambda.Proofs.Except
import UntypedLambda.Surface.Reading.Term

set_option autoImplicit false

/-! The grammar of expressions, and that what it derives is read. An abstraction ends the
application that it stands in, so every text has one derivation: the body of an abstraction and the
tail of `::` extend as far as they can. -/

namespace UntypedLambda.Surface

def Name.token (name : Name) : Located Token :=
  ⟨.ident name.value, name.span⟩

def Symbol.at (symbol : Symbol) (span : Span) : Located Token :=
  ⟨.symbol symbol, span⟩

mutual

/-- The tokens of an expression that ends with its last token, whatever follows. -/
inductive Closed : List (Located Token) → Expr → Prop where
  | ident (name : Name) : Closed [name.token] (.var name.span name)
  | nat (value : Nat) (span : Span) : Closed [⟨.nat value, span⟩] (.nat span value)
  | group {tokens : List (Located Token)} {e : Expr} (first last : Span) : Phrase tokens e →
      Closed (Symbol.leftParen.at first :: (tokens ++ [Symbol.rightParen.at last]))
        (e.withSpan ⟨first.start, last.stop⟩)
  | tuple {tokens : List (Located Token)} {element other : Expr} {elements : List Expr}
      (first last : Span) : Elements tokens (element :: other :: elements) →
      Closed (Symbol.leftAngle.at first :: (tokens ++ [Symbol.rightAngle.at last]))
        (.tuple ⟨first.start, last.stop⟩ (element :: other :: elements))
  | empty (first last : Span) :
      Closed [Symbol.leftBracket.at first, Symbol.rightBracket.at last]
        (.list ⟨first.start, last.stop⟩ [])
  | list {tokens : List (Located Token)} {elements : List Expr} (first last : Span) :
      Elements tokens elements →
      Closed (Symbol.leftBracket.at first :: (tokens ++ [Symbol.rightBracket.at last]))
        (.list ⟨first.start, last.stop⟩ elements)

inductive Application : List (Located Token) → Expr → Prop where
  | head {tokens : List (Located Token)} {e : Expr} : Closed tokens e → Application tokens e
  | apply {tokens rest : List (Located Token)} {function argument : Expr} :
      Application tokens function → Closed rest argument →
      Application (tokens ++ rest) (.app (function.span.cover argument.span) function argument)

inductive Abstraction : List (Located Token) → Expr → Prop where
  | over {tokens : List (Located Token)} {body : Expr} (first dot : Span) (binder : Name)
      (binders : List Name) : Phrase tokens body →
      Abstraction
        (Symbol.lambda.at first ::
          ((binder :: binders).map Name.token ++ Symbol.dot.at dot :: tokens))
        (.lam ⟨first.start, body.span.stop⟩ (binder :: binders) body)

/-- The tokens of an expression that extends as far as it can. -/
inductive Phrase : List (Located Token) → Expr → Prop where
  | application {tokens : List (Located Token)} {e : Expr} :
      Application tokens e → Phrase tokens e
  | abstraction {tokens : List (Located Token)} {e : Expr} :
      Abstraction tokens e → Phrase tokens e
  | apply {tokens rest : List (Located Token)} {function argument : Expr} :
      Application tokens function → Abstraction rest argument →
      Phrase (tokens ++ rest) (.app (function.span.cover argument.span) function argument)
  | cons {tokens rest : List (Located Token)} {head tail : Expr} (span : Span) :
      Application tokens head → Phrase rest tail →
      Phrase (tokens ++ Symbol.cons.at span :: rest)
        (.cons (head.span.cover tail.span) head tail)

inductive Elements : List (Located Token) → List Expr → Prop where
  | last {tokens : List (Located Token)} {e : Expr} : Phrase tokens e → Elements tokens [e]
  | next {tokens rest : List (Located Token)} {e : Expr} {elements : List Expr} (span : Span) :
      Phrase tokens e → Elements rest elements →
      Elements (tokens ++ Symbol.comma.at span :: rest) (e :: elements)

end

/-! ### Derived tokens are read -/

namespace Reading

def takeAll? (reading : Reading) (tokens : List (Located Token)) : Option Reading :=
  tokens.foldlM take? reading

theorem takeAll?_append (reading : Reading) (tokens rest : List (Located Token)) :
    reading.takeAll? (tokens ++ rest) =
      (reading.takeAll? tokens).bind fun next => next.takeAll? rest := by
  rw [takeAll?, List.foldlM_append]
  rfl

theorem takeAll?_cons (reading : Reading) (token : Located Token) (rest : List (Located Token)) :
    reading.takeAll? (token :: rest) =
      (reading.take? token).bind fun next => next.takeAll? rest := by
  rw [takeAll?, List.foldlM_cons]
  rfl

/-- The expression `e` has been read inside `frames`, when the abstractions and the `::` that are
still open end here. -/
def Completes (reading : Reading) (frames : List Frame) (e : Expr) : Prop :=
  ∃ last, reading.focus = .term (some last) ∧
    Frame.complete reading.frames last = Frame.complete frames e

theorem completes_argument (frames : List Frame) (read : Option Expr) (e : Expr) :
    (argument frames read e).Completes frames (attach read e) :=
  ⟨attach read e, rfl, rfl⟩

/-- A closing symbol looks only at what the reading completes. -/
theorem Completes.take?_close {reading : Reading} {frames : List Frame} {e : Expr}
    (completes : reading.Completes frames e) {symbol : Symbol}
    (closing : symbol = .rightParen ∨ symbol = .rightAngle ∨ symbol = .rightBracket ∨
      symbol = .comma) (span : Span) :
    reading.take? (symbol.at span) = closeBracket? symbol span.stop frames e := by
  obtain ⟨inner, focus⟩ := reading
  obtain ⟨last, rfl, same⟩ := completes
  have closes : take? ⟨inner, .term (some last)⟩ (symbol.at span) =
      closeBracket? symbol span.stop inner last := by
    rcases closing with rfl | rfl | rfl | rfl <;> rfl
  change Frame.complete inner last = _ at same
  rw [closes]
  unfold closeBracket?
  rw [same]

/-- No expression has a semicolon or the sign of a definition in it. -/
theorem take?_separator (reading : Reading) {symbol : Symbol}
    (separator : symbol = .semicolon ∨ symbol = .define) (span : Span) :
    reading.take? (symbol.at span) = none := by
  obtain ⟨frames, focus⟩ := reading
  cases focus with
  | binders outer first names => rcases separator with rfl | rfl <;> cases names <;> rfl
  | term read =>
      cases read with
      | none => rcases separator with rfl | rfl <;> rfl
      | some last =>
          have closes : take? ⟨frames, .term (some last)⟩ (symbol.at span) =
              closeBracket? symbol span.stop frames last := by
            rcases separator with rfl | rfl <;> rfl
          rw [closes]
          rcases separator with rfl | rfl <;> simp [closeBracket?]

theorem takeAll?_close {tokens : List (Located Token)} {start next : Reading}
    {frames : List Frame} {e : Expr} (reads : start.takeAll? tokens = some next)
    (completes : next.Completes frames e) {symbol : Symbol}
    (closing : symbol = .rightParen ∨ symbol = .rightAngle ∨ symbol = .rightBracket ∨
      symbol = .comma) (span : Span) (rest : List (Located Token)) :
    start.takeAll? (tokens ++ symbol.at span :: rest) =
      (closeBracket? symbol span.stop frames e).bind fun after => after.takeAll? rest := by
  rw [takeAll?_append, reads, Option.bind_some, takeAll?_cons, completes.take?_close closing]

theorem takeAll?_binders (frames : List Frame) (outer : Option Expr) (first : Nat)
    (binders names : List Name) :
    takeAll? ⟨frames, .binders outer first names⟩ (binders.map Name.token) =
      some ⟨frames, .binders outer first (binders.reverse ++ names)⟩ := by
  induction binders generalizing names with
  | nil => rfl
  | cons binder binders ih =>
      rw [List.map_cons, takeAll?_cons, List.reverse_cons, List.append_assoc]
      exact ih (binder :: names)

theorem take?_dot (frames : List Frame) (outer : Option Expr) (first : Nat) (binder : Name)
    (binders : List Name) (span : Span) :
    take? ⟨frames, .binders outer first (binder :: binders).reverse⟩ (Symbol.dot.at span) =
      some (inside (.body outer first (binder :: binders)) frames) := by
  cases turned : (binder :: binders).reverse with
  | nil => simp at turned
  | cons name names =>
      rw [← List.reverse_reverse (binder :: binders), turned]
      rfl

theorem closeBracket?_tuple {elements others : List Expr} {last : Expr}
    (split : elements.reverse = last :: others) (several : others ≠ []) (stop first : Nat)
    (frames : List Frame) (outer : Option Expr) :
    closeBracket? .rightAngle stop (.tuple outer first others :: frames) last =
      some (argument frames outer (.tuple ⟨first, stop⟩ elements)) := by
  rw [← List.reverse_reverse elements, split]
  cases others with
  | nil => exact absurd rfl several
  | cons other others => rfl

theorem closeBracket?_list {elements others : List Expr} {last : Expr}
    (split : elements.reverse = last :: others) (stop first : Nat) (frames : List Frame)
    (outer : Option Expr) :
    closeBracket? .rightBracket stop (.list outer first others :: frames) last =
      some (argument frames outer (.list ⟨first, stop⟩ elements)) := by
  rw [← List.reverse_reverse elements, split]
  rfl

end Reading

open Reading

mutual

theorem Closed.reads {tokens : List (Located Token)} {e : Expr} (closed : Closed tokens e) :
    ∀ frames read, takeAll? ⟨frames, .term read⟩ tokens = some (argument frames read e) := by
  intro frames read
  match closed with
  | .ident name => rfl
  | .nat value span => rfl
  | .group first last phrase =>
      obtain ⟨next, reads, completes⟩ := phrase.reads (.group read first.start :: frames)
      exact takeAll?_close reads completes (by simp) last []
  | .tuple first last elements =>
      obtain ⟨next, final, others, split, reads, completes⟩ :=
        elements.reads frames (.tuple read first.start) (Or.inl ⟨_, _, rfl⟩) []
      have several : others ≠ [] := by
        rintro rfl
        simpa using congrArg List.length split
      refine (takeAll?_close reads completes (by simp) last []).trans ?_
      rw [List.append_nil] at split
      rw [closeBracket?_tuple split several]
      rfl
  | .empty first last => rfl
  | .list first last elements =>
      obtain ⟨next, final, others, split, reads, completes⟩ :=
        elements.reads frames (.list read first.start) (Or.inr ⟨_, _, rfl⟩) []
      refine (takeAll?_close reads completes (by simp) last []).trans ?_
      rw [List.append_nil] at split
      rw [closeBracket?_list split]
      rfl

theorem Application.reads {tokens : List (Located Token)} {e : Expr}
    (application : Application tokens e) :
    ∀ frames, takeAll? ⟨frames, .term none⟩ tokens = some ⟨frames, .term (some e)⟩ := by
  intro frames
  match application with
  | .head closed => exact closed.reads frames none
  | .apply function argument =>
      rw [takeAll?_append, function.reads frames, Option.bind_some, argument.reads]
      rfl

theorem Abstraction.reads {tokens : List (Located Token)} {e : Expr}
    (abstraction : Abstraction tokens e) :
    ∀ frames read, ∃ next, takeAll? ⟨frames, .term read⟩ tokens = some next ∧
      next.Completes frames (attach read e) := by
  intro frames read
  match abstraction with
  | .over first dot binder binders phrase =>
      obtain ⟨next, reads, last, focus, completes⟩ :=
        phrase.reads (.body read first.start (binder :: binders) :: frames)
      refine ⟨next, ?_, last, focus, completes⟩
      change takeAll? ⟨frames, .binders read first.start []⟩ _ = _
      rw [takeAll?_append, takeAll?_binders, Option.bind_some, takeAll?_cons, List.append_nil,
        take?_dot]
      exact reads

theorem Phrase.reads {tokens : List (Located Token)} {e : Expr} (phrase : Phrase tokens e) :
    ∀ frames, ∃ next, takeAll? ⟨frames, .term none⟩ tokens = some next ∧
      next.Completes frames e := by
  intro frames
  match phrase with
  | .application application =>
      exact ⟨_, application.reads frames, completes_argument frames none _⟩
  | .abstraction abstraction => exact abstraction.reads frames none
  | .apply function argument =>
      rw [takeAll?_append, function.reads frames, Option.bind_some]
      exact argument.reads frames (some _)
  | .cons span head tail =>
      obtain ⟨next, reads, last, focus, completes⟩ := tail.reads (.tail _ :: frames)
      refine ⟨next, ?_, last, focus, completes⟩
      rw [takeAll?_append, head.reads frames]
      exact reads

theorem Elements.reads {tokens : List (Located Token)} {elements : List Expr}
    (derived : Elements tokens elements) :
    ∀ frames (bracket : List Expr → Frame),
      ((∃ outer first, bracket = .tuple outer first) ∨
        ∃ outer first, bracket = .list outer first) →
      ∀ earlier, ∃ next last others, elements.reverse ++ earlier = last :: others ∧
        takeAll? ⟨bracket earlier :: frames, .term none⟩ tokens = some next ∧
        next.Completes (bracket others :: frames) last := by
  intro frames bracket kind earlier
  match derived with
  | .last phrase =>
      obtain ⟨next, reads, completes⟩ := phrase.reads (bracket earlier :: frames)
      exact ⟨next, _, earlier, rfl, reads, completes⟩
  | @Elements.next _ _ e elements span phrase rest =>
      obtain ⟨next, reads, completes⟩ := phrase.reads (bracket earlier :: frames)
      obtain ⟨after, last, others, split, readsRest, completesRest⟩ :=
        rest.reads frames bracket kind (e :: earlier)
      refine ⟨after, last, others, ?_, ?_, completesRest⟩
      · rw [List.reverse_cons, List.append_assoc]
        exact split
      · rw [takeAll?_close reads completes (by simp)]
        rcases kind with ⟨outer, first, rfl⟩ | ⟨outer, first, rfl⟩
        · exact readsRest
        · exact readsRest

end

theorem Reading.take_eq_ok_iff (reading : Reading) (token : Located Token) (next : Reading) :
    reading.take token = .ok next ↔ reading.take? token = some next := by
  rw [take]
  cases reading.take? token <;> simp

theorem Reading.foldlM_take_eq_ok_iff (reading next : Reading) (tokens : List (Located Token)) :
    tokens.foldlM take reading = .ok next ↔ reading.takeAll? tokens = some next :=
  Except.foldlM_eq_ok_iff take_eq_ok_iff reading next tokens

theorem Phrase.finishes {tokens : List (Located Token)} {e : Expr} (phrase : Phrase tokens e) :
    ∃ reading, start.takeAll? tokens = some reading ∧ reading.finish? = some e := by
  obtain ⟨⟨frames, focus⟩, reads, last, rfl, completes⟩ := phrase.reads []
  refine ⟨⟨frames, .term (some last)⟩, reads, ?_⟩
  change Frame.complete frames last = ([], e) at completes
  simp only [finish?, completes]

/-- What the grammar derives is read. -/
theorem Phrase.readExpr {tokens : List (Located Token)} {e : Expr} (phrase : Phrase tokens e)
    (stop : Span) : readExpr tokens stop = .ok e := by
  obtain ⟨reading, reads, finished⟩ := phrase.finishes
  have taken := (foldlM_take_eq_ok_iff start reading tokens).mpr reads
  simp only [Surface.readExpr, taken, bind, Except.bind, finished]
  rfl

end UntypedLambda.Surface
