import UntypedLambda.Proofs.Resolution.Bare
import UntypedLambda.Proofs.Session.Relabeling
import UntypedLambda.Proofs.Surface.Printing

set_option autoImplicit false

/-! Programs statement by statement. A program is evaluated as the texts of its statements are, one
after another, and an error leaves what the statements before it have done. -/

namespace UntypedLambda

open Surface

/-! ### Transcripts -/

namespace Transcript

theorem empty_append (transcript : Transcript) : ({} : Transcript) ++ transcript = transcript := by
  obtain ⟨out, err⟩ := transcript
  change Transcript.mk ("" ++ out) ("" ++ err) = ⟨out, err⟩
  rw [String.empty_append, String.empty_append]

theorem append_empty (transcript : Transcript) : transcript ++ ({} : Transcript) = transcript := by
  obtain ⟨out, err⟩ := transcript
  change Transcript.mk (out ++ "") (err ++ "") = ⟨out, err⟩
  rw [String.append_empty, String.append_empty]

theorem append_assoc (first second third : Transcript) :
    first ++ second ++ third = first ++ (second ++ third) := by
  change Transcript.mk (first.out ++ second.out ++ third.out) (first.err ++ second.err ++ third.err)
    = ⟨first.out ++ (second.out ++ third.out), first.err ++ (second.err ++ third.err)⟩
  rw [String.append_assoc, String.append_assoc]

theorem foldl_append (first : Transcript) (others : List Transcript) :
    others.foldl (· ++ ·) first = first ++ others.foldl (· ++ ·) {} := by
  induction others generalizing first with
  | nil => exact first.append_empty.symm
  | cons second others ih =>
      rw [List.foldl_cons, ih, List.foldl_cons, ih ({} ++ second), empty_append, append_assoc]

end Transcript

theorem Progress.transcript_cons (session : Session) (outcome : Outcome) (outcomes : List Outcome)
    (error : Option SourceError) :
    Progress.transcript ⟨session, outcome :: outcomes, error⟩ =
      outcome.transcript ++ Progress.transcript ⟨session, outcomes, error⟩ := by
  rw [Progress.transcript, List.map_cons, List.foldl_cons, Transcript.foldl_append,
    Transcript.empty_append]
  rfl

namespace Session

/-! ### Whole programs -/

theorem runAll_settings (session : Session) (statements : List Statement) :
    (session.runAll statements).session.settings = session.settings :=
  (session.runAll_history statements).atEnd

theorem runAll_of_error {session : Session} {statement : Statement} {error : SourceError}
    (failed : session.run statement = .error error) (statements : List Statement) :
    session.runAll (statement :: statements) = ⟨session, [], some error⟩ := by
  rw [runAll, failed]

theorem runAll_of_ok {session next : Session} {statement : Statement} {outcome : Outcome}
    (ran : session.run statement = .ok (next, outcome)) (statements : List Statement) :
    let rest := next.runAll statements
    session.runAll (statement :: statements) =
      ⟨rest.session, outcome :: rest.outcomes, rest.error⟩ := by
  rw [runAll, ran]

/-- All statements are run, or those before the first that fails. -/
theorem runAll_cases (session : Session) (statements : List Statement) :
    (session.runAll statements).error = none ∨
    ∃ before failing after error, statements = before ++ failing :: after ∧
      (session.runAll before).error = none ∧
      (session.runAll before).session.run failing = .error error ∧
      session.runAll statements =
        ⟨(session.runAll before).session, (session.runAll before).outcomes, some error⟩ := by
  induction statements generalizing session with
  | nil => exact Or.inl rfl
  | cons statement statements ih =>
      cases ran : session.run statement with
      | error error =>
          exact Or.inr ⟨[], statement, statements, error, rfl, rfl, ran, runAll_of_error ran _⟩
      | ok result =>
          obtain completed | ⟨before, failing, after, error, rfl, completed, failed, stopped⟩ :=
            ih result.1
          · rw [runAll_of_ok ran]
            exact Or.inl completed
          · refine Or.inr ⟨statement :: before, failing, after, error, rfl, ?_⟩
            rw [runAll_of_ok ran, runAll_of_ok ran, stopped]
            exact ⟨completed, failed, rfl⟩

/-! ### One statement -/

theorem run_bare (session : Session) (statement : Statement) :
    session.run statement.bare = (session.run statement).mapError SourceError.bare := by
  cases statement with
  | term body =>
      rw [Statement.bare, run, run, reduceExpr, reduceExpr, resolveTerm_bare]
      simp only [Except.mapError_bind]
      rfl
  | define name body =>
      rw [Statement.bare, run, run]
      simp only [Except.mapError_bind, ← resolveDefinition_bare]
      rfl

/-- The text of a statement is evaluated as the statement is run. An error has another place. -/
theorem evaluate_render (session : Session) {statement : Statement}
    (writable : statement.isWritable = true) :
    (∃ next outcome, session.run statement = .ok (next, outcome) ∧
      session.evaluate statement.render = .goOn next outcome.transcript) ∨
    ∃ error error', session.run statement = .error error ∧
      session.evaluate statement.render = .fail session {} statement.render error' ∧
      error.message = error'.message := by
  obtain ⟨statement', parsed, alike⟩ := statement.parseProgram_render writable
  have same : (session.run statement).mapError SourceError.bare =
      (session.run statement').mapError SourceError.bare := by
    rw [← run_bare, ← run_bare, alike]
  rw [evaluate_of_parsed session parsed]
  obtain ⟨⟨next, outcome⟩, ran, ran'⟩ | ⟨error, error', failed, failed', bare⟩ :=
    Except.mapError_cases same
  · refine Or.inl ⟨next, outcome, ran, ?_⟩
    rw [runAll_of_ok ran', Progress.reply, Progress.transcript_cons]
    exact congrArg (Reply.goOn next) outcome.transcript.append_empty
  · refine Or.inr ⟨error, error', failed, ?_, ?_⟩
    · rw [runAll_of_error failed']
      rfl
    · rw [← error.message_bare, bare, error'.message_bare]

/-! ### One statement after another -/

def evaluateEach (session : Session) : List String → Reply
  | [] => .goOn session {}
  | text :: texts =>
      let reply := session.evaluate text
      match reply.ending with
      | .failed _ _ => reply
      | _ =>
          let rest := evaluateEach reply.session texts
          { rest with transcript := reply.transcript ++ rest.transcript }

/-- Statements that are run come to the same one after another, and what follows goes on from
there. -/
theorem evaluateEach_append (session : Session) {statements : List Statement}
    (writable : ∀ statement ∈ statements, statement.isWritable = true)
    (completed : (session.runAll statements).error = none) (texts : List String) :
    let progress := session.runAll statements
    let rest := progress.session.evaluateEach texts
    session.evaluateEach (statements.map Statement.render ++ texts) =
      { rest with transcript := progress.transcript ++ rest.transcript } := by
  induction statements generalizing session with
  | nil => exact congrArg (Reply.mk _ · _) (Transcript.empty_append _).symm
  | cons statement statements ih =>
      have others := fun other member => writable other (List.mem_cons_of_mem statement member)
      obtain ⟨next, outcome, ran, evaluated⟩ | ⟨_, _, failed, _⟩ :=
        session.evaluate_render (writable statement List.mem_cons_self)
      · rw [runAll_of_ok ran] at completed ⊢
        rw [List.map_cons, List.cons_append, evaluateEach, evaluated]
        dsimp only [Reply.goOn]
        rw [ih next others completed, Progress.transcript_cons, Transcript.append_assoc]
      · rw [runAll_of_error failed] at completed
        cases completed

theorem evaluateEach_completed (session : Session) {statements : List Statement}
    (writable : ∀ statement ∈ statements, statement.isWritable = true)
    (completed : (session.runAll statements).error = none) :
    let progress := session.runAll statements
    session.evaluateEach (statements.map Statement.render) =
      .goOn progress.session progress.transcript := by
  have whole := session.evaluateEach_append writable completed []
  rw [List.append_nil] at whole
  exact whole.trans (congrArg (Reply.mk _ · _) (Transcript.append_empty _))

/-- A statement that fails ends the evaluation where the statements before it have led. -/
theorem evaluateEach_stopped (session : Session) {before after : List Statement}
    {failing : Statement} {error : SourceError}
    (writable : ∀ statement ∈ before ++ failing :: after, statement.isWritable = true)
    (completed : (session.runAll before).error = none)
    (failed : (session.runAll before).session.run failing = .error error) :
    let progress := session.runAll before
    ∃ error', error.message = error'.message ∧
      session.evaluateEach ((before ++ failing :: after).map Statement.render) =
        .fail progress.session progress.transcript failing.render error' := by
  have inBefore := fun other member => writable other (List.mem_append_left _ member)
  have whole := session.evaluateEach_append inBefore completed
    ((failing :: after).map Statement.render)
  obtain ⟨_, _, ran, _⟩ | ⟨error₀, error', refused, evaluated, message⟩ :=
    (session.runAll before).session.evaluate_render
      (writable failing (List.mem_append_right _ List.mem_cons_self))
  · rw [failed] at ran
    cases ran
  · rw [failed] at refused
    cases refused
    refine ⟨error', message, ?_⟩
    rw [List.map_append, whole, List.map_cons, evaluateEach, evaluated]
    exact congrArg (Reply.mk _ · _) (Transcript.append_empty _)

/-- Definitions that match are equal up to bound variables. -/
theorem definitions_alphaEqual {R : Nat → Nat → Prop} (one : Relator.BiUnique R)
    {context context' : Context} (contexts : context.Matches R context') (name : String) :
    Option.Rel (fun t t' => t.alphaEqual t' = true) (context.find? name)
      (context'.find? name) := by
  obtain ⟨none, none'⟩ | ⟨_, _, some, some', terms⟩ := Option.rel_cases (contexts name)
  · rw [none, none']
    exact .none
  · rw [some, some']
    exact .some ((Term.alphaEqual_iff _ _).mpr (terms.namelessByName one))

/-- Evaluating a program is evaluating the texts of its statements one after another, with whatever
supply. The same is written, and definitions that are equal up to bound variables are left behind.
The first statement with an error ends both with the same message, after exactly the statements
before it. A text that is no program has no effect. -/
theorem evaluation_is_statement_by_statement {session : Session}
    (below : session.context.Below session.supply) {supply : Nat}
    (otherBelow : session.context.Below supply) (source : String) :
    (∀ error, parseProgram source = .error error →
      session.evaluate source = .fail session {} source error) ∧
    ∀ statements, parseProgram source = .ok statements →
      let other : Session := { session with supply := supply }
      let whole := session.evaluate source
      let each := other.evaluateEach (statements.map Statement.render)
      whole.transcript = each.transcript ∧
      whole.session.settings = session.settings ∧ each.session.settings = session.settings ∧
      (∀ name, Option.Rel (fun t t' => t.alphaEqual t' = true)
        (whole.session.context.find? name) (each.session.context.find? name)) ∧
      ((whole.ending = .next ∧ each.ending = .next) ∨
        ∃ before failing after error error', statements = before ++ failing :: after ∧
          whole.ending = .failed source error ∧ each.ending = .failed failing.render error' ∧
          error.message = error'.message ∧
          let completed := other.evaluateEach (before.map Statement.render)
          completed.ending = .next ∧ each.session = completed.session ∧
          each.transcript = completed.transcript) := by
  refine ⟨fun error parsed => by rw [evaluate, parsed], fun statements parsed => ?_⟩
  intro other whole each
  have writable := isWritable_of_parseProgram parsed
  have evaluated : whole = _ := session.evaluate_of_parsed parsed
  obtain ⟨R, one, sessions⟩ := (alike_of_supply below otherBelow).exists_matches
  have progress : (session.runAll statements).Matches R (other.runAll statements) :=
    sessions.runAll one statements
  -- What both runs share, given what the statements have come to one after another.
  have shared (sameSession : each.session = (other.runAll statements).session)
      (sameTranscript : each.transcript = (other.runAll statements).transcript) :
      whole.transcript = each.transcript ∧
      whole.session.settings = session.settings ∧ each.session.settings = session.settings ∧
      ∀ name, Option.Rel (fun t t' => t.alphaEqual t' = true)
        (whole.session.context.find? name) (each.session.context.find? name) := by
    rw [evaluated, sameSession, sameTranscript]
    refine ⟨progress.transcript one, session.runAll_settings statements,
      other.runAll_settings statements, definitions_alphaEqual one progress.session.context⟩
  have wholeEnding : whole.ending = (other.runAll statements).ending source := by
    rw [evaluated]
    exact (progress.reply one source).ending
  obtain completed | ⟨before, failing, after, error, rfl, completed, failed, stopped⟩ :=
    other.runAll_cases statements
  · have one := other.evaluateEach_completed writable completed
    obtain ⟨transcripts, settings, settings', definitions⟩ :=
      shared (congrArg Reply.session one) (congrArg Reply.transcript one)
    refine ⟨transcripts, settings, settings', definitions, Or.inl ⟨?_, congrArg Reply.ending one⟩⟩
    rw [wholeEnding, Progress.ending, completed]
  · have inBefore := fun other member => writable other (List.mem_append_left _ member)
    have earlier := other.evaluateEach_completed inBefore completed
    obtain ⟨error', message, one⟩ := other.evaluateEach_stopped writable completed failed
    obtain ⟨transcripts, settings, settings', definitions⟩ := shared
      ((congrArg Reply.session one).trans (congrArg Progress.session stopped).symm)
      ((congrArg Reply.transcript one).trans (congrArg Progress.transcript stopped).symm)
    refine ⟨transcripts, settings, settings', definitions, Or.inr ⟨before, failing, after, error,
      error', rfl, ?_, congrArg Reply.ending one, message, congrArg Reply.ending earlier, ?_, ?_⟩⟩
    · rw [wholeEnding, stopped]
      rfl
    · exact (congrArg Reply.session one).trans (congrArg Reply.session earlier).symm
    · exact (congrArg Reply.transcript one).trans (congrArg Reply.transcript earlier).symm

/-- The second statement has an undefined name, so the third is not run. -/
theorem program_with_an_undefined_name :
    let session : Session := initial { strict := true }
    let other : Session := { session with supply := 5 }
    let whole := session.evaluate "i := λx.x; k := λx.i y; j := i"
    let each := other.evaluateEach ["i := (λx. x)", "k := (λx. (i y))", "j := i"]
    whole.transcript = each.transcript ∧ whole.ending ≠ .next ∧ each.ending ≠ .next ∧
      ∀ name, Option.Rel (fun t t' => t.alphaEqual t' = true)
        (whole.session.context.find? name) (each.session.context.find? name) := by
  intro session other whole each
  obtain ⟨statements, parsed, texts⟩ : ∃ statements,
      parseProgram "i := λx.x; k := λx.i y; j := i" = .ok statements ∧
      statements.map Statement.render = ["i := (λx. x)", "k := (λx. (i y))", "j := i"] :=
    ⟨_, rfl, by decide⟩
  have below : session.context.Below session.supply := by decide
  have otherBelow : session.context.Below 5 := by decide
  have equal := (evaluation_is_statement_by_statement below otherBelow _).2 statements parsed
  rw [texts] at equal
  obtain ⟨transcripts, _, _, definitions, endings⟩ := equal
  have failed : whole.ending = .failed "i := λx.x; k := λx.i y; j := i"
      (.undefinedVariable ⟨"y", .single 21⟩) := rfl
  refine ⟨transcripts, ?_, ?_, definitions⟩
  · rw [failed]
    exact nofun
  · obtain ⟨next, _⟩ | ⟨_, _, _, _, _, _, _, eachEnding, _⟩ := endings
    · cases failed.symm.trans next
    · exact fun next => nomatch eachEnding.symm.trans next

end Session

end UntypedLambda
