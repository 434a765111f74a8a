import UntypedLambda.Proofs.Except
import UntypedLambda.Proofs.Surface.Derivation
import UntypedLambda.Proofs.Surface.Soundness
import UntypedLambda.Surface.Reading.Program

set_option autoImplicit false

/-! The grammar of programs. A program that is read is one that the documented grammar derives, and
what is read is the derivation with the longest bodies. -/

namespace UntypedLambda.Surface

namespace Grammar

abbrev Body := List (Located Token) → List (Located Token) → Expr → Prop

inductive Sentence (body : Body) : List (Located Token) → List (Located Token) → Statement → Prop
  where
  | term {tokens after : List (Located Token)} {e : Expr} :
      body tokens after e → Sentence body tokens after (.term e)
  | define {tokens after : List (Located Token)} {e : Expr} (name : Name) (sign : Span) :
      body tokens after e →
      Sentence body (name.token :: Symbol.define.at sign :: tokens) after (.define name e)

inductive Sentences (body : Body) :
    List (Located Token) → List (Located Token) → List Statement → Prop where
  | one {tokens after : List (Located Token)} {statement : Statement} :
      Sentence body tokens after statement → Sentences body tokens after [statement]
  | more {tokens rest after : List (Located Token)} {statement : Statement}
      {statements : List Statement} (span : Span) :
      Sentence body tokens (Symbol.semicolon.at span :: rest ++ after) statement →
      Sentences body rest after statements →
      Sentences body (tokens ++ Symbol.semicolon.at span :: rest) after (statement :: statements)

/-- A program: nothing, or statements, which one more semicolon may follow. -/
inductive Program (body : Body) : List (Located Token) → List Statement → Prop where
  | empty : Program body [] []
  | sentences {tokens : List (Located Token)} {statements : List Statement} :
      Sentences body tokens [] statements → Program body tokens statements
  | trailing {tokens : List (Located Token)} {statements : List Statement} (span : Span) :
      Sentences body tokens [Symbol.semicolon.at span] statements →
      Program body (tokens ++ [Symbol.semicolon.at span]) statements

/-! ### Other bodies -/

section Bodies

variable {body body' : Body}

theorem Sentence.mono (sub : ∀ tokens after e, Stops after → body tokens after e →
      body' tokens after e)
    {tokens after : List (Located Token)} {statement : Statement} (stops : Stops after)
    (sentence : Sentence body tokens after statement) : Sentence body' tokens after statement := by
  cases sentence with
  | term inBody => exact .term (sub _ _ _ stops inBody)
  | define name sign inBody => exact .define name sign (sub _ _ _ stops inBody)

theorem Sentences.mono (sub : ∀ tokens after e, Stops after → body tokens after e →
      body' tokens after e)
    {tokens after : List (Located Token)} {statements : List Statement} (stops : Stops after)
    (sentences : Sentences body tokens after statements) :
    Sentences body' tokens after statements := by
  induction sentences with
  | one sentence => exact .one (sentence.mono sub stops)
  | more span sentence _ ih =>
      exact .more span (sentence.mono sub (stops_cons (by decide) span _)) (ih stops)

/-- What the body of a statement is matters only in front of the tokens that can follow it. -/
theorem Program.mono (sub : ∀ tokens after e, Stops after → body tokens after e →
      body' tokens after e)
    {tokens : List (Located Token)} {statements : List Statement}
    (program : Program body tokens statements) : Program body' tokens statements := by
  cases program with
  | empty => exact .empty
  | sentences sentences => exact .sentences (sentences.mono sub stops_nil)
  | trailing span sentences =>
      exact .trailing span (sentences.mono sub (stops_cons (by decide) span []))

theorem Sentence.exists (change : ∀ tokens after e, Stops after → body tokens after e →
      ∃ e', body' tokens after e')
    {tokens after : List (Located Token)} {statement : Statement} (stops : Stops after)
    (sentence : Sentence body tokens after statement) :
    ∃ statement', Sentence body' tokens after statement' := by
  cases sentence with
  | term inBody =>
      obtain ⟨e', changed⟩ := change _ _ _ stops inBody
      exact ⟨_, .term changed⟩
  | define name sign inBody =>
      obtain ⟨e', changed⟩ := change _ _ _ stops inBody
      exact ⟨_, .define name sign changed⟩

theorem Sentences.exists (change : ∀ tokens after e, Stops after → body tokens after e →
      ∃ e', body' tokens after e')
    {tokens after : List (Located Token)} {statements : List Statement} (stops : Stops after)
    (sentences : Sentences body tokens after statements) :
    ∃ statements', Sentences body' tokens after statements' := by
  induction sentences with
  | one sentence =>
      obtain ⟨statement', changed⟩ := sentence.exists change stops
      exact ⟨_, .one changed⟩
  | more span sentence _ ih =>
      obtain ⟨statement', changed⟩ := sentence.exists change (stops_cons (by decide) span _)
      obtain ⟨statements', others⟩ := ih stops
      exact ⟨_, .more span changed others⟩

/-- A program stays one when its bodies become others, in front of tokens that can follow them. -/
theorem Program.exists (change : ∀ tokens after e, Stops after → body tokens after e →
      ∃ e', body' tokens after e')
    {tokens : List (Located Token)} {statements : List Statement}
    (program : Program body tokens statements) : ∃ statements', Program body' tokens statements' := by
  cases program with
  | empty => exact ⟨[], .empty⟩
  | sentences sentences =>
      obtain ⟨statements', changed⟩ := sentences.exists change stops_nil
      exact ⟨statements', .sentences changed⟩
  | trailing span sentences =>
      obtain ⟨statements', changed⟩ := sentences.exists change (stops_cons (by decide) span [])
      exact ⟨statements', .trailing span changed⟩

end Bodies

def phrases : Body :=
  fun tokens _ e => Phrase tokens e

theorem Sentence.before {tokens after : List (Located Token)} {statement : Statement}
    (sentence : Sentence phrases tokens after statement) (other : List (Located Token)) :
    Sentence phrases tokens other statement := by
  cases sentence with
  | term phrase => exact .term phrase
  | define name sign phrase => exact .define name sign phrase

end Grammar

/-! ### Programs are read -/

namespace ProgramReading

open Reading

def takeAll? (reading : ProgramReading) (tokens : List (Located Token)) : Option ProgramReading :=
  tokens.foldlM take? reading

theorem takeAll?_append (reading : ProgramReading) (tokens rest : List (Located Token)) :
    reading.takeAll? (tokens ++ rest) =
      (reading.takeAll? tokens).bind fun next => next.takeAll? rest := by
  rw [takeAll?, List.foldlM_append]
  rfl

theorem takeAll?_cons (reading : ProgramReading) (token : Located Token)
    (rest : List (Located Token)) :
    reading.takeAll? (token :: rest) =
      (reading.take? token).bind fun next => next.takeAll? rest := by
  rw [takeAll?, List.foldlM_cons]
  rfl

theorem takeAll?_semicolon {start reading : ProgramReading} {tokens : List (Located Token)}
    {statements : List Statement} (takes : start.takeAll? tokens = some reading)
    (ended : reading.ended? = some statements) (span : Span) (rest : List (Located Token)) :
    start.takeAll? (tokens ++ Symbol.semicolon.at span :: rest) =
      (between statements).takeAll? rest := by
  have separated : reading.take? (Symbol.semicolon.at span) = some (between statements) := by
    change reading.ended?.map between = _
    rw [ended]
    rfl
  rw [takeAll?_append, takes, Option.bind_some, takeAll?_cons, separated, Option.bind_some]

theorem take_eq_ok_iff (reading : ProgramReading) (token : Located Token)
    (next : ProgramReading) : reading.take token = .ok next ↔ reading.take? token = some next := by
  rw [take]
  cases reading.take? token <;> simp

theorem foldlM_take_eq_ok_iff (reading next : ProgramReading) (tokens : List (Located Token)) :
    tokens.foldlM take reading = .ok next ↔ reading.takeAll? tokens = some next :=
  Except.foldlM_eq_ok_iff take_eq_ok_iff reading next tokens

theorem take?_body {statements : List Statement} {lead : Lead} {body next : Reading}
    {token : Located Token} (taken : body.take? token = some next) :
    take? ⟨statements, lead, body⟩ token = some ⟨statements, leadAfter lead token next, next⟩ := by
  obtain ⟨value, span⟩ := token
  have inBody : (body.take? ⟨value, span⟩).map (fun body =>
      (⟨statements, leadAfter lead ⟨value, span⟩ body, body⟩ : ProgramReading)) =
        some ⟨statements, leadAfter lead ⟨value, span⟩ next, next⟩ := by
    rw [taken]
    rfl
  cases value with
  | ident name => exact inBody
  | nat value => exact inBody
  | symbol symbol =>
      cases symbol with
      | semicolon =>
          have refused := body.take?_separator (Or.inl rfl) span
          rw [Symbol.at, taken] at refused
          cases refused
      | define =>
          have refused := body.take?_separator (Or.inr rfl) span
          rw [Symbol.at, taken] at refused
          cases refused
      | _ => exact inBody

theorem statement_leadAfter (lead : Lead) (token : Located Token) (body : Reading) (e : Expr) :
    statement (leadAfter lead token body) e = statement lead e := by
  cases lead with
  | nothing => cases value : token.value <;> simp [leadAfter, value, statement]
  | identifier name => rfl
  | term => rfl
  | definition name sign hasBegun => rfl

theorem leadAfter_ne_nothing (lead : Lead) (token : Located Token) (body : Reading) :
    leadAfter lead token body ≠ .nothing := by
  unfold leadAfter
  split <;> simp

theorem takeAll?_body {statements : List Statement} {lead : Lead} {body next : Reading}
    {tokens : List (Located Token)} (taken : body.takeAll? tokens = some next) :
    ∃ last, takeAll? ⟨statements, lead, body⟩ tokens = some ⟨statements, last, next⟩ ∧
      (∀ e, statement last e = statement lead e) ∧
      (lead ≠ .nothing ∨ tokens ≠ [] → last ≠ .nothing) := by
  induction tokens generalizing lead body with
  | nil =>
      cases taken
      refine ⟨lead, rfl, fun e => rfl, ?_⟩
      rintro (different | several)
      · exact different
      · exact absurd rfl several
  | cons token tokens ih =>
      rw [Reading.takeAll?_cons] at taken
      obtain ⟨between, first, rest⟩ := Option.bind_eq_some_iff.mp taken
      obtain ⟨last, takes, same, begun⟩ := @ih (leadAfter lead token between) _ rest
      refine ⟨last, ?_, fun e => ?_, fun _ => begun (Or.inl (leadAfter_ne_nothing _ _ _))⟩
      · rw [takeAll?_cons, take?_body first]
        exact takes
      · rw [same, statement_leadAfter]

end ProgramReading

open ProgramReading in
theorem Grammar.Sentence.reads {tokens after : List (Located Token)} {statement : Statement}
    (sentence : Sentence phrases tokens after statement) (statements : List Statement) :
    ∃ reading, (between statements).takeAll? tokens = some reading ∧ reading.lead ≠ .nothing ∧
      reading.ended? = some (statement :: statements) := by
  cases sentence with
  | @term _ _ e phrase =>
      obtain ⟨body, reads, finished⟩ := Phrase.finishes phrase
      have several : tokens ≠ [] := by
        rintro rfl
        cases reads
        cases finished
      obtain ⟨lead, takes, same, begun⟩ := @takeAll?_body statements .nothing _ _ _ reads
      refine ⟨⟨statements, lead, body⟩, takes, begun (Or.inr several), ?_⟩
      rw [ended?, finished, Option.map_some, same]
      rfl
  | @define tokens _ e name sign phrase =>
      obtain ⟨body, reads, finished⟩ := Phrase.finishes phrase
      obtain ⟨lead, takes, same, begun⟩ :=
        @takeAll?_body statements (.definition name sign false) _ _ _ reads
      refine ⟨⟨statements, lead, body⟩, takes, begun (Or.inl (by simp)), ?_⟩
      rw [ended?, finished, Option.map_some, same]
      rfl

open ProgramReading in
theorem Grammar.Sentences.reads {tokens after : List (Located Token)} {new : List Statement}
    (sentences : Sentences phrases tokens after new) (statements : List Statement) :
    ∃ reading, (between statements).takeAll? tokens = some reading ∧ reading.lead ≠ .nothing ∧
      reading.ended? = some (new.reverse ++ statements) := by
  induction sentences generalizing statements with
  | one sentence => exact sentence.reads statements
  | @more tokens rest after statement others span sentence _ ih =>
      obtain ⟨middle, takes, _, ended⟩ := sentence.reads statements
      obtain ⟨last, takesRest, begun, endedRest⟩ := ih (statement :: statements)
      refine ⟨last, ?_, begun, ?_⟩
      · rw [takeAll?_semicolon takes ended]
        exact takesRest
      · rw [endedRest, List.reverse_cons, List.append_assoc]
        rfl

open ProgramReading in
theorem Grammar.Program.reads {tokens : List (Located Token)} {statements : List Statement}
    (program : Grammar.Program Grammar.phrases tokens statements) :
    ∃ reading, ProgramReading.start.takeAll? tokens = some reading ∧
      reading.finish? = some statements := by
  cases program with
  | empty => exact ⟨.start, rfl, rfl⟩
  | sentences sentences =>
      obtain ⟨⟨earlier, lead, body⟩, takes, begun, ended⟩ := sentences.reads []
      refine ⟨_, takes, ?_⟩
      have whole : finish? ⟨earlier, lead, body⟩ =
          (ended? ⟨earlier, lead, body⟩).map List.reverse := by
        cases lead with
        | nothing => exact absurd rfl begun
        | _ => rfl
      rw [whole, ended]
      simp
  | trailing span sentences =>
      obtain ⟨middle, takes, _, ended⟩ := sentences.reads []
      refine ⟨between (statements.reverse ++ []), takeAll?_semicolon takes ended span [], ?_⟩
      simp [finish?, between]

/-! ### What is read is a program -/

/-- Complete statements, each with the semicolon after it. The statements come latest first. -/
inductive Ended : List (Located Token) → List Statement → Prop where
  | nothing : Ended [] []
  | next {tokens rest : List (Located Token)} {statement : Statement}
      {statements : List Statement} (span : Span) : Ended tokens statements →
      Grammar.Sentence Grammar.phrases rest [] statement →
      Ended (tokens ++ (rest ++ [Symbol.semicolon.at span])) (statement :: statements)

theorem Ended.sentences {tokens rest after : List (Located Token)}
    {statements others : List Statement} (before : Ended tokens statements)
    (sentences : Grammar.Sentences Grammar.phrases rest after others) :
    Grammar.Sentences Grammar.phrases (tokens ++ rest) after (statements.reverse ++ others) := by
  induction before generalizing rest others with
  | nothing => exact sentences
  | next span _ sentence ih =>
      have joined := ih (.more span (sentence.before _) sentences)
      simpa using joined

theorem Ended.program {tokens : List (Located Token)} {statements : List Statement}
    (ended : Ended tokens statements) :
    Grammar.Program Grammar.phrases tokens statements.reverse := by
  cases ended with
  | nothing => exact .empty
  | next span earlier sentence =>
      have sentences := earlier.sentences (.one (sentence.before [Symbol.semicolon.at span]))
      rw [← List.append_assoc, List.reverse_cons]
      exact .trailing span sentences

inductive Front : Lead → List (Located Token) → Reading → Prop where
  | nothing : Front .nothing [] .start
  | identifier (name : Name) :
      Front (.identifier name) [name.token] (.argument [] none (.var name.span name))
  | term {tokens : List (Located Token)} {body : Reading} :
      Reading.start.takeAll? tokens = some body → Front .term tokens body
  | definition {tokens : List (Located Token)} {body : Reading} (name : Name) (sign : Span)
      (hasBegun : Bool) : Reading.start.takeAll? tokens = some body →
      Front (.definition name sign hasBegun)
        (name.token :: Symbol.define.at sign :: tokens) body

theorem Reading.takeAll?_concat {reading between next : Reading} {tokens : List (Located Token)}
    {token : Located Token} (first : reading.takeAll? tokens = some between)
    (last : between.take? token = some next) : reading.takeAll? (tokens ++ [token]) = some next := by
  rw [takeAll?_append, first, Option.bind_some, takeAll?_cons, last]
  rfl

namespace Front

variable {lead : Lead} {tokens : List (Located Token)} {body next : Reading}

theorem leadAfter (front : Front lead tokens body) {token : Located Token}
    (taken : body.take? token = some next) :
    Front (ProgramReading.leadAfter lead token next) (tokens ++ [token]) next := by
  obtain ⟨value, span⟩ := token
  cases front with
  | nothing =>
      cases value with
      | ident name =>
          cases taken
          exact .identifier ⟨name, span⟩
      | nat value => exact .term (Reading.takeAll?_concat rfl taken)
      | symbol symbol => exact .term (Reading.takeAll?_concat rfl taken)
  | identifier name =>
      have first : Reading.start.takeAll? [name.token] =
          some (.argument [] none (.var name.span name)) := rfl
      exact .term (Reading.takeAll?_concat first taken)
  | term steps => exact .term (Reading.takeAll?_concat steps taken)
  | definition name sign hasBegun steps =>
      exact .definition name sign _ (Reading.takeAll?_concat steps taken)

theorem sentence (front : Front lead tokens body) {e : Expr} (finished : body.finish? = some e) :
    Grammar.Sentence Grammar.phrases tokens [] (ProgramReading.statement lead e) := by
  cases front with
  | nothing => cases finished
  | identifier name =>
      cases finished
      exact .term (.application (.head (.ident name)))
  | term steps => exact .term (phrase_of_takeAll? steps finished)
  | definition name sign hasBegun steps =>
      exact .define name sign (phrase_of_takeAll? steps finished)

end Front

inductive ProgramTaken : List (Located Token) → ProgramReading → Prop where
  | intro {before tokens : List (Located Token)} {statements : List Statement} {lead : Lead}
      {body : Reading} : Ended before statements → Front lead tokens body →
      ProgramTaken (before ++ tokens) ⟨statements, lead, body⟩

/-- All that a step can be: the end of a statement, the sign of a definition, or a token of a
body. -/
theorem ProgramReading.take?_cases {reading next : ProgramReading} {token : Located Token}
    (step : reading.take? token = some next) :
    (∃ span statements, token = Symbol.semicolon.at span ∧ reading.ended? = some statements ∧
      next = between statements) ∨
    (∃ span name, token = Symbol.define.at span ∧ reading.lead = .identifier name ∧
      next = ⟨reading.statements, .definition name span false, .start⟩) ∨
    (∃ body, reading.body.take? token = some body ∧
      next = ⟨reading.statements, leadAfter reading.lead token body, body⟩) := by
  obtain ⟨value, span⟩ := token
  unfold take? at step
  split at step
  · rename_i same
    obtain ⟨statements, ended, rfl⟩ := Option.map_eq_some_iff.mp step
    cases same
    exact Or.inl ⟨span, statements, rfl, ended, rfl⟩
  · rename_i same
    cases same
    split at step
    · rename_i name identifier
      cases step
      exact Or.inr (Or.inl ⟨span, name, rfl, identifier, rfl⟩)
    · cases step
  · obtain ⟨body, taken, rfl⟩ := Option.map_eq_some_iff.mp step
    exact Or.inr (Or.inr ⟨body, taken, rfl⟩)

namespace ProgramTaken

variable {taken : List (Located Token)} {reading next : ProgramReading}

theorem take? {token : Located Token} (sofar : ProgramTaken taken reading)
    (step : reading.take? token = some next) : ProgramTaken (taken ++ [token]) next := by
  obtain ⟨earlier, front⟩ := sofar
  rcases ProgramReading.take?_cases step with
    ⟨span, all, rfl, ended, rfl⟩ | ⟨span, name, rfl, identifier, rfl⟩ | ⟨body, inBody, rfl⟩
  · obtain ⟨e, finished, rfl⟩ := Option.map_eq_some_iff.mp ended
    have complete := ProgramTaken.intro (earlier.next span (front.sentence finished)) .nothing
    rw [List.append_nil, ← List.append_assoc] at complete
    exact complete
  · cases identifier
    cases front with
    | identifier name =>
        have begun := Front.definition name span false (rfl : Reading.start.takeAll? [] = _)
        rw [List.append_assoc]
        exact .intro earlier begun
  · rw [List.append_assoc]
    exact .intro earlier (front.leadAfter inBody)

theorem takeAll? {rest : List (Located Token)} (sofar : ProgramTaken taken reading)
    (steps : reading.takeAll? rest = some next) : ProgramTaken (taken ++ rest) next :=
  runs_of_step (fun _ _ _ _ => take?) sofar steps

theorem program {statements : List Statement} (all : ProgramTaken taken reading)
    (finished : reading.finish? = some statements) :
    Grammar.Program Grammar.phrases taken statements := by
  obtain ⟨earlier, front⟩ := all
  unfold ProgramReading.finish? at finished
  split at finished
  · rename_i nothing
    cases nothing
    cases front
    cases finished
    rw [List.append_nil]
    exact earlier.program
  · obtain ⟨whole, ended, rfl⟩ := Option.map_eq_some_iff.mp finished
    obtain ⟨e, read, rfl⟩ := Option.map_eq_some_iff.mp ended
    rw [List.reverse_cons]
    exact .sentences (earlier.sentences (.one (front.sentence read)))

end ProgramTaken

/-- What is read is what the grammar without ambiguity derives. -/
theorem readProgram_eq_ok_iff (tokens : List (Located Token)) (stop : Span)
    (statements : List Statement) :
    readProgram tokens stop = .ok statements ↔
      Grammar.Program Grammar.phrases tokens statements := by
  constructor
  · intro read
    obtain ⟨reading, taken, ended⟩ := Except.exists_of_bind read
    have finished : reading.finish? = some statements := by
      cases found : reading.finish? with
      | none =>
          rw [found] at ended
          cases ended
      | some all =>
          rw [found] at ended
          cases ended
          rfl
    have steps := (ProgramReading.foldlM_take_eq_ok_iff _ _ _).mp taken
    have nothing : ProgramTaken [] .start := .intro .nothing .nothing
    exact (nothing.takeAll? steps).program finished
  · intro program
    obtain ⟨reading, takes, finished⟩ := program.reads
    have taken := (ProgramReading.foldlM_take_eq_ok_iff _ _ _).mpr takes
    simp only [readProgram, taken, bind, Except.bind, finished]
    rfl

/-- The programs that are parsed are those of the documented grammar. What is parsed is the
derivation in which application associates to the left, `::` to the right, and the body of every
abstraction extends as far right as possible. -/
theorem program_is_longest_derivation {source : String} {tokens : List (Located Token)}
    (tokenized : tokenize source = .ok tokens) :
    ((∃ statements, parseProgram source = .ok statements) ↔
      ∃ statements, Grammar.Program (Grammar.Term Grammar.anywhere) tokens statements) ∧
    ∀ statements, parseProgram source = .ok statements ↔
      Grammar.Program (Grammar.Term Grammar.asFarAsPossible) tokens statements := by
  have parsed (statements : List Statement) : parseProgram source = .ok statements ↔
      Grammar.Program Grammar.phrases tokens statements := by
    rw [← readProgram_eq_ok_iff tokens (endSpan source), parseProgram, tokenized]
    rfl
  simp only [parsed]
  refine ⟨⟨?_, ?_⟩, fun statements => ⟨?_, ?_⟩⟩
  · rintro ⟨statements, program⟩
    exact ⟨statements, program.mono fun _ after _ _ phrase =>
      Grammar.anywhere_of_phrase phrase after⟩
  · rintro ⟨statements, program⟩
    exact program.exists fun _ _ _ _ term => term.exists_phrase
  · intro program
    exact program.mono fun _ _ _ stops phrase =>
      Grammar.term_of_phrase Grammar.permits_asFarAsPossible phrase stops
  · intro program
    exact program.mono fun _ _ _ _ term => term.phrase

/-- The body of the abstraction takes the `::`, and one more semicolon ends the program. -/
theorem program_with_a_long_body :
    let name (text : String) (start : Nat) : Name := ⟨text, .single start⟩
    let occurrence (text : String) (start : Nat) : Expr := .var (.single start) (name text start)
    let statements : List Statement :=
      [.define (name "f" 0) (.lam ⟨5, 14⟩ [name "x" 6]
          (.cons ⟨8, 14⟩ (occurrence "x" 8) (occurrence "y" 13))),
        .term (.app ⟨16, 19⟩ (occurrence "f" 16) (.nat (.single 18) 1))]
    ∃ tokens, tokenize "f := λx.x :: y; f 1;" = .ok tokens ∧
      parseProgram "f := λx.x :: y; f 1;" = .ok statements ∧
      Grammar.Program (Grammar.Term Grammar.asFarAsPossible) tokens statements := by
  intro name occurrence statements
  obtain ⟨tokens, tokenized⟩ : ∃ tokens, tokenize "f := λx.x :: y; f 1;" = .ok tokens := ⟨_, rfl⟩
  have parsed : parseProgram "f := λx.x :: y; f 1;" = .ok statements := rfl
  have derivations := program_is_longest_derivation tokenized
  exact ⟨tokens, tokenized, parsed, (derivations.2 statements).mp parsed⟩

end UntypedLambda.Surface
