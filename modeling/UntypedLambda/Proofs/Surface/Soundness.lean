import UntypedLambda.Proofs.Surface.Grammar

set_option autoImplicit false

/-! What is read is derived. The tokens that a reading has taken are those that opened its frames,
from the outermost to the innermost, and those of the expression at the end. -/

namespace UntypedLambda.Surface

/-- The run lemma of a reading in steps: what each step says of the tokens taken so far holds after
any number of them. -/
theorem runs_of_step {σ : Type} {take? : σ → Located Token → Option σ}
    {Taken : List (Located Token) → σ → Prop}
    (step : ∀ taken state token next, Taken taken state → take? state token = some next →
      Taken (taken ++ [token]) next)
    {taken rest : List (Located Token)} {state next : σ} (sofar : Taken taken state)
    (steps : rest.foldlM take? state = some next) : Taken (taken ++ rest) next := by
  induction rest generalizing taken state with
  | nil =>
      cases steps
      rwa [List.append_nil]
  | cons token rest ih =>
      rw [List.foldlM_cons] at steps
      obtain ⟨between, first, later⟩ := Option.bind_eq_some_iff.mp steps
      have whole := ih (step _ _ _ _ sofar first) later
      rwa [List.append_assoc] at whole

inductive Waiting : List (Located Token) → Option Expr → Prop where
  | nothing : Waiting [] none
  | application {tokens : List (Located Token)} {e : Expr} :
      Application tokens e → Waiting tokens (some e)

namespace Waiting

variable {tokens rest : List (Located Token)} {outer : Option Expr} {e : Expr}

theorem attach (waiting : Waiting tokens outer) (closed : Closed rest e) :
    Application (tokens ++ rest) (Surface.attach outer e) := by
  cases waiting with
  | nothing => exact .head closed
  | application function => exact .apply function closed

theorem attach_abstraction (waiting : Waiting tokens outer) (abstraction : Abstraction rest e) :
    Phrase (tokens ++ rest) (Surface.attach outer e) := by
  cases waiting with
  | nothing => exact .abstraction abstraction
  | application function => exact .apply function abstraction

end Waiting

/-- The tokens of complete elements, each with the comma after it. The elements come latest
first. -/
inductive Earlier : List (Located Token) → List Expr → Prop where
  | nothing : Earlier [] []
  | next {tokens rest : List (Located Token)} {e : Expr} {elements : List Expr} (span : Span) :
      Earlier tokens elements → Phrase rest e →
      Earlier (tokens ++ (rest ++ [Symbol.comma.at span])) (e :: elements)

theorem Earlier.elements {tokens rest : List (Located Token)} {earlier elements : List Expr}
    (before : Earlier tokens earlier) (derived : Elements rest elements) :
    Elements (tokens ++ rest) (earlier.reverse ++ elements) := by
  induction before generalizing rest elements with
  | nothing => exact derived
  | next span _ phrase ih =>
      have joined := ih (.next span phrase derived)
      simpa using joined

/-- The tokens that have opened frames, the innermost last. -/
inductive Opens : List (Located Token) → List Frame → Prop where
  | nothing : Opens [] []
  | group {before tokens : List (Located Token)} {frames : List Frame} {outer : Option Expr}
      (first : Span) : Opens before frames → Waiting tokens outer →
      Opens (before ++ (tokens ++ [Symbol.leftParen.at first]))
        (.group outer first.start :: frames)
  | tuple {before tokens inner : List (Located Token)} {frames : List Frame}
      {outer : Option Expr} {elements : List Expr} (first : Span) :
      Opens before frames → Waiting tokens outer → Earlier inner elements →
      Opens (before ++ (tokens ++ Symbol.leftAngle.at first :: inner))
        (.tuple outer first.start elements :: frames)
  | list {before tokens inner : List (Located Token)} {frames : List Frame}
      {outer : Option Expr} {elements : List Expr} (first : Span) :
      Opens before frames → Waiting tokens outer → Earlier inner elements →
      Opens (before ++ (tokens ++ Symbol.leftBracket.at first :: inner))
        (.list outer first.start elements :: frames)
  | body {before tokens : List (Located Token)} {frames : List Frame} {outer : Option Expr}
      (first dot : Span) (binder : Name) (binders : List Name) :
      Opens before frames → Waiting tokens outer →
      Opens (before ++ (tokens ++ Symbol.lambda.at first ::
          ((binder :: binders).map Name.token ++ [Symbol.dot.at dot])))
        (.body outer first.start (binder :: binders) :: frames)
  | tail {before tokens : List (Located Token)} {frames : List Frame} {head : Expr}
      (span : Span) : Opens before frames → Application tokens head →
      Opens (before ++ (tokens ++ [Symbol.cons.at span])) (.tail head :: frames)

/-- The abstractions and the `::` that end after an expression make a longer one. -/
theorem Opens.complete {tokens rest : List (Located Token)} {frames : List Frame} {last : Expr}
    (opens : Opens tokens frames) (phrase : Phrase rest last) :
    ∃ before inner, tokens ++ rest = before ++ inner ∧
      Opens before (Frame.complete frames last).1 ∧
      Phrase inner (Frame.complete frames last).2 := by
  -- An open bracket stops the completion. The body of an abstraction and the tail of `::` end here,
  -- and what they belong to is the expression that the frames further out may end with.
  induction opens generalizing rest last with
  | nothing => exact ⟨[], rest, rfl, .nothing, phrase⟩
  | group first opens waiting => exact ⟨_, rest, rfl, .group first opens waiting, phrase⟩
  | tuple first opens waiting earlier =>
      exact ⟨_, rest, rfl, .tuple first opens waiting earlier, phrase⟩
  | list first opens waiting earlier =>
      exact ⟨_, rest, rfl, .list first opens waiting earlier, phrase⟩
  | body first dot binder binders _ waiting ih =>
      have abstraction := Abstraction.over first dot binder binders phrase
      obtain ⟨before, inner, split, opens, whole⟩ := ih (waiting.attach_abstraction abstraction)
      refine ⟨before, inner, ?_, opens, whole⟩
      rw [← split]
      simp
  | tail span _ head ih =>
      obtain ⟨before, inner, split, opens, whole⟩ := ih (.cons span head phrase)
      refine ⟨before, inner, ?_, opens, whole⟩
      rw [← split]
      simp

inductive Taken : List (Located Token) → Reading → Prop where
  | term {before tokens : List (Located Token)} {frames : List Frame} {read : Option Expr} :
      Opens before frames → Waiting tokens read → Taken (before ++ tokens) ⟨frames, .term read⟩
  | binders {before tokens : List (Located Token)} {frames : List Frame} {outer : Option Expr}
      (first : Span) (names : List Name) : Opens before frames → Waiting tokens outer →
      Taken (before ++ (tokens ++ Symbol.lambda.at first :: names.reverse.map Name.token))
        ⟨frames, .binders outer first.start names⟩

namespace Taken

variable {before tokens : List (Located Token)} {frames : List Frame} {outer read : Option Expr}

/-! ### What a step adds -/

theorem argument (opens : Opens before frames) (waiting : Waiting tokens outer)
    {rest : List (Located Token)} {e : Expr} (closed : Closed rest e) :
    Taken (before ++ (tokens ++ rest)) (.argument frames outer e) :=
  .term opens (.application (waiting.attach closed))

theorem inside {frame : Frame} (opens : Opens before (frame :: frames)) :
    Taken before (.inside frame frames) := by
  have begun := Taken.term opens .nothing
  rwa [List.append_nil] at begun

theorem closed_tuple {inner : List (Located Token)} {e element : Expr} {elements : List Expr}
    (first last : Span) (derived : Elements inner (e :: element :: elements).reverse) :
    Closed (Symbol.leftAngle.at first :: (inner ++ [Symbol.rightAngle.at last]))
      (.tuple ⟨first.start, last.stop⟩ (e :: element :: elements).reverse) := by
  cases turned : (e :: element :: elements).reverse with
  | nil => simp at turned
  | cons one others =>
      cases others with
      | nil => simpa using congrArg List.length turned
      | cons other others =>
          rw [turned] at derived
          exact .tuple first last derived

theorem closeBracket? {symbol : Symbol} {span : Span} {last : Expr} {next : Reading}
    (opens : Opens before frames) (phrase : Phrase tokens last)
    (closed : Reading.closeBracket? symbol span.stop frames last = some next) :
    Taken (before ++ tokens ++ [symbol.at span]) next := by
  obtain ⟨outside, inner, split, opens, phrase⟩ := opens.complete phrase
  rw [split]
  unfold Reading.closeBracket? at closed
  split at closed
  · rename_i same
    rw [same] at opens phrase
    cases closed
    cases opens with
    | group first opens waiting =>
        simpa using argument opens waiting (.group first span phrase)
  · rename_i same
    rw [same] at opens phrase
    cases closed
    cases opens with
    | tuple first opens waiting earlier =>
        have elements := earlier.elements (.last phrase)
        rw [← List.reverse_cons] at elements
        simpa using argument opens waiting (closed_tuple first span elements)
  · rename_i same
    rw [same] at opens phrase
    cases closed
    cases opens with
    | list first opens waiting earlier =>
        have elements := earlier.elements (.last phrase)
        rw [← List.reverse_cons] at elements
        simpa using argument opens waiting (.list first span elements)
  · rename_i same
    rw [same] at opens phrase
    cases closed
    cases opens with
    | tuple first opens waiting earlier =>
        simpa using inside (.tuple first opens waiting (earlier.next span phrase))
  · rename_i same
    rw [same] at opens phrase
    cases closed
    cases opens with
    | list first opens waiting earlier =>
        simpa using inside (.list first opens waiting (earlier.next span phrase))
  · cases closed

theorem takeSymbol? {symbol : Symbol} {span : Span} {next : Reading}
    (opens : Opens before frames) (waiting : Waiting tokens read)
    (taken : Reading.takeSymbol? frames read symbol span = some next) :
    Taken (before ++ tokens ++ [symbol.at span]) next := by
  unfold Reading.takeSymbol? at taken
  split at taken
  · cases taken
    simpa using inside (.group span opens waiting)
  · cases taken
    simpa using inside (.tuple span opens waiting .nothing)
  · cases taken
    simpa using inside (.list span opens waiting .nothing)
  · cases taken
    simpa using Taken.binders span [] opens waiting
  · cases taken
    cases waiting with
    | application head => simpa using inside (.tail span opens head)
  · split at taken
    · cases taken
      cases waiting with
      | nothing =>
          cases opens with
          | list first opens waiting earlier =>
              cases earlier with
              | nothing => simpa using argument opens waiting (.empty first span)
    · cases taken
  · cases waiting with
    | application phrase => exact closeBracket? opens (.application phrase) taken
  · cases taken

/-- Only a dot is taken among binders, and only after one of them. -/
theorem take?_dot {first span : Span} {names : List Name} {symbol : Symbol} {next : Reading}
    (opens : Opens before frames) (waiting : Waiting tokens outer)
    (step : Reading.take? ⟨frames, .binders outer first.start names⟩ (symbol.at span) =
      some next) :
    Taken (before ++ (tokens ++ Symbol.lambda.at first :: names.reverse.map Name.token) ++
      [symbol.at span]) next := by
  have onlyDot : symbol = .dot ∧ names ≠ [] := by
    cases names with
    | nil => cases symbol <;> cases step
    | cons name names =>
        cases symbol with
        | dot => exact ⟨rfl, List.cons_ne_nil name names⟩
        | _ => cases step
  obtain ⟨rfl, several⟩ := onlyDot
  obtain ⟨binder, binders, order⟩ :=
    List.exists_cons_of_ne_nil (List.reverse_ne_nil_iff.mpr several)
  rw [← List.reverse_reverse names, order, Reading.take?_dot] at step
  cases step
  rw [order]
  simpa using inside (.body first span binder binders opens waiting)

/-- The step lemma: a token that is taken comes to the end of the tokens of the reading. -/
theorem take? {taken : List (Located Token)} {reading next : Reading} {token : Located Token}
    (sofar : Taken taken reading) (step : reading.take? token = some next) :
    Taken (taken ++ [token]) next := by
  obtain ⟨value, span⟩ := token
  cases sofar with
  | @term before tokens frames read opens waiting =>
      cases value with
      | ident name =>
          cases step
          have taken := argument opens waiting (.ident ⟨name, span⟩)
          rwa [← List.append_assoc] at taken
      | nat value =>
          cases step
          simpa using argument opens waiting (.nat value span)
      | symbol symbol => exact takeSymbol? opens waiting step
  | @binders before tokens frames outer first names opens waiting =>
      cases value with
      | ident name =>
          cases step
          have taken := Taken.binders first (⟨name, span⟩ :: names) opens waiting
          simpa [Name.token] using taken
      | nat value => cases step
      | symbol symbol => exact take?_dot opens waiting step

theorem takeAll? {taken rest : List (Located Token)} {reading next : Reading}
    (sofar : Taken taken reading) (steps : reading.takeAll? rest = some next) :
    Taken (taken ++ rest) next :=
  runs_of_step (fun _ _ _ _ => take?) sofar steps

theorem phrase_of_finish? {taken : List (Located Token)} {reading : Reading} {e : Expr}
    (all : Taken taken reading) (finished : reading.finish? = some e) : Phrase taken e := by
  cases all with
  | @term before tokens frames read opens waiting =>
      cases waiting with
      | nothing => cases finished
      | @application _ last application =>
          obtain ⟨outside, inner, split, opens, phrase⟩ := opens.complete (.application application)
          simp only [Reading.finish?] at finished
          split at finished
          · rename_i same
            cases finished
            rw [same] at opens phrase
            cases opens
            rw [split]
            exact phrase
          · cases finished
  | binders first names opens waiting => cases finished

end Taken

/-- The tokens that are read from the start up to the end of an expression derive it. -/
theorem phrase_of_takeAll? {tokens : List (Located Token)} {reading : Reading} {e : Expr}
    (steps : Reading.start.takeAll? tokens = some reading) (finished : reading.finish? = some e) :
    Phrase tokens e := by
  have nothing : Taken [] Reading.start := .term .nothing .nothing
  exact (nothing.takeAll? steps).phrase_of_finish? finished

/-- What is read is what the tokens derive. -/
theorem readExpr_eq_ok_iff (tokens : List (Located Token)) (stop : Span) (e : Expr) :
    readExpr tokens stop = .ok e ↔ Phrase tokens e := by
  constructor
  · intro read
    obtain ⟨reading, taken, ended⟩ := Except.exists_of_bind read
    have steps := (Reading.foldlM_take_eq_ok_iff _ _ _).mp taken
    cases finished : reading.finish? with
    | none =>
        rw [finished] at ended
        cases ended
    | some last =>
        rw [finished] at ended
        cases ended
        exact phrase_of_takeAll? steps finished
  · exact fun phrase => phrase.readExpr stop

end UntypedLambda.Surface
