import UntypedLambda.Proofs.Resolution.Scope
import UntypedLambda.Proofs.Term.Conversion
import UntypedLambda.Shell.Run

set_option autoImplicit false

/-! What a session builds. Every input comes to requests of a few kinds, each made with the supply
that the one before has left. A history lists the terms that they build. For an input these are the
terms that the statements, the step or the comparison that answers it begin with. -/

namespace UntypedLambda

open Surface Term Relation Text

/-! ### What commands build -/

def Outcome.built : Outcome → Term
  | .reduced course => course.start
  | .defined _ t => t

def Progress.built (progress : Progress) : List Term :=
  progress.outcomes.map Outcome.built

namespace Comparison

def session : Comparison → Session
  | .leftRefused session _ => session
  | .rightRefused session _ _ => session
  | .made session _ _ => session

def courses : Comparison → List Course
  | .leftRefused _ _ => []
  | .rightRefused _ left _ => [left]
  | .made _ left right => [left, right]

def built (comparison : Comparison) : List Term :=
  comparison.courses.map Course.start

theorem reply_session (comparison : Comparison) (source : String) (left right : Expr) :
    (comparison.reply source left right).session = comparison.session := by
  cases comparison <;> rfl

end Comparison

namespace Session

/-- The terms that a session builds for a command, before it reduces any of them. -/
def builds (session : Session) (command : Command) (argument : String) : List Term :=
  match command with
  | .evaluate =>
      match parseProgram argument with
      | .ok statements => (session.runAll statements).built
      | .error _ => []
  | .step =>
      match parseTerm argument >>= session.stepExpr with
      | .ok (_, stepping) => [stepping.start]
      | .error _ => []
  | .equal =>
      match parseProgram argument with
      | .ok [.term left, .term right] => (session.compareExprs left right).built
      | _ => []
  | _ => []

/-! ### Requests -/

inductive Request (session : Session) : List Term → Session → Prop where
  | definition {name : String} {body : Expr} {t : Term} {left : Nat} :
      resolveDefinition session.context session.settings name body session.supply =
        .ok (t, left) →
      Request session [t]
        { session with context := session.context.define name t, supply := left }
  | lookup {name : String} {t : Term} {left : Nat} :
      session.context.lookup? name session.supply = some (t, left) →
      Request session [t] { session with supply := left }
  /-- An expression is resolved and reduced for some steps, or for none. -/
  | evaluation {body : Expr} {t : Term} {left : Nat} {mode : Mode} {strategy : Strategy}
      {final : Term × Nat} :
      resolveTerm session.context session.settings body session.supply = .ok (t, left) →
      ReflTransGen (Advances mode strategy) (t, left) final →
      Request session [t] { session with supply := final.2 }
  | settings (settings : Settings) : Request session [] { session with settings := settings }

inductive History (start : Session) : List Term → Session → Prop where
  | nothing : History start [] start
  | next {built new : List Term} {session after : Session} :
      History start built session → Request session new after → History start (built ++ new) after

inductive HistoryUnder (allowed : Settings → Prop) (start : Session) :
    List Term → Session → Prop where
  | nothing : allowed start.settings → HistoryUnder allowed start [] start
  | next {built new : List Term} {session after : Session} :
      HistoryUnder allowed start built session → Request session new after →
      allowed after.settings → HistoryUnder allowed start (built ++ new) after

theorem History.trans {start between final : Session} {first second : List Term}
    (earlier : History start first between) (later : History between second final) :
    History start (first ++ second) final := by
  induction later with
  | nothing =>
      rw [List.append_nil]
      exact earlier
  | next _ request ih =>
      rw [← List.append_assoc]
      exact .next ih request

theorem History.of_request {session after : Session} {new : List Term}
    (request : Request session new after) : History session new after :=
  .next .nothing request

namespace HistoryUnder

variable {allowed allowed' : Settings → Prop} {start between final : Session}
  {first second : List Term}

theorem history (under : HistoryUnder allowed start first final) : History start first final := by
  induction under with
  | nothing => exact .nothing
  | next _ request _ ih => exact .next ih request

theorem atEnd (under : HistoryUnder allowed start first final) : allowed final.settings := by
  cases under with
  | nothing atStart => exact atStart
  | next _ _ after => exact after

theorem mono (sub : ∀ settings, allowed settings → allowed' settings)
    (under : HistoryUnder allowed start first final) : HistoryUnder allowed' start first final := by
  induction under with
  | nothing atStart => exact .nothing (sub _ atStart)
  | next _ request after ih => exact .next ih request (sub _ after)

theorem of_request (request : Request start first final) (atStart : allowed start.settings)
    (atEnd : allowed final.settings) : HistoryUnder allowed start first final :=
  .next (.nothing atStart) request atEnd

theorem trans (earlier : HistoryUnder allowed start first between)
    (later : HistoryUnder allowed between second final) :
    HistoryUnder allowed start (first ++ second) final := by
  induction later with
  | nothing =>
      rw [List.append_nil]
      exact earlier
  | next _ request after ih =>
      rw [← List.append_assoc]
      exact .next ih request after

end HistoryUnder

/-! ### Programs -/

abbrev SettledHistory (session : Session) : List Term → Session → Prop :=
  HistoryUnder (· = session.settings) session

theorem reduce_start (session : Session) (t : Term) (supply : Nat) :
    (session.reduce t supply).start = t := by
  simp only [Session.reduce]
  cases session.settings.verbose with
  | true => rfl
  | false => rfl

theorem reduceExpr_request {session next : Session} {body : Expr} {course : Course}
    (reduced : session.reduceExpr body = .ok (next, course)) :
    Request session [course.start] next ∧ next.settings = session.settings := by
  obtain ⟨t, resolved, rfl, rfl⟩ := reduceExpr_eq_ok_iff.mp reduced
  rw [reduce_start]
  exact ⟨.evaluation resolved (session.reduce_reaches t.1 t.2).1, rfl⟩

theorem run_request {session next : Session} {statement : Statement} {outcome : Outcome}
    (ran : session.run statement = .ok (next, outcome)) :
    Request session [outcome.built] next ∧ next.settings = session.settings := by
  cases statement with
  | term body =>
      obtain ⟨reduced, inBody, returned⟩ := Except.exists_of_bind ran
      cases returned
      exact reduceExpr_request inBody
  | define name body =>
      obtain ⟨t, resolved, returned⟩ := Except.exists_of_bind ran
      cases returned
      exact ⟨.definition resolved, rfl⟩

theorem runAll_history (session : Session) (statements : List Statement) :
    SettledHistory session (session.runAll statements).built
      (session.runAll statements).session := by
  induction statements generalizing session with
  | nil => exact .nothing rfl
  | cons statement statements ih =>
      rw [runAll]
      cases ran : session.run statement with
      | error error => exact .nothing rfl
      | ok result =>
          obtain ⟨request, settled⟩ := run_request ran
          have rest := ih result.1
          rw [SettledHistory, settled] at rest
          have first : SettledHistory session [result.2.built] result.1 :=
            .of_request request rfl settled
          exact first.trans rest

/-! ### Commands -/

theorem stepExpr_request {session next : Session} {body : Expr} {stepping : Stepping}
    (stepped : session.stepExpr body = .ok (next, stepping)) :
    Request session [stepping.start] next ∧ next.settings = session.settings := by
  obtain ⟨t, resolved, rfl, rfl⟩ := stepExpr_eq_ok_iff.mp stepped
  have reached : ReflTransGen (Advances session.settings.mode session.settings.strategy) t
      ((step? session.settings.mode session.settings.strategy t.1 t.2).getD t) := by
    cases found : step? session.settings.mode session.settings.strategy t.1 t.2 with
    | none => exact .refl
    | some taken => exact .single found
  exact ⟨.evaluation resolved reached, rfl⟩

theorem compareExprs_history (session : Session) (left right : Expr) :
    SettledHistory session (session.compareExprs left right).built
      (session.compareExprs left right).session := by
  unfold compareExprs
  cases leftReduced : session.reduceExpr left with
  | error error => exact .nothing rfl
  | ok result =>
      obtain ⟨request, settled⟩ := reduceExpr_request leftReduced
      have first : SettledHistory session [result.2.start] result.1 :=
        .of_request request rfl settled
      dsimp only
      cases rightReduced : result.1.reduceExpr right with
      | error error => exact first
      | ok last =>
          obtain ⟨next, settled'⟩ := reduceExpr_request rightReduced
          exact first.next next (settled'.trans settled)

/-- What is built between two sessions when the settings are changed at most once. -/
abbrev InputHistory (session : Session) (built : List Term) (next : Session) : Prop :=
  HistoryUnder (fun settings => settings = session.settings ∨ settings = next.settings)
    session built next

theorem evaluate_history (session : Session) (source : String) :
    SettledHistory session (session.builds .evaluate source) (session.evaluate source).session := by
  rw [builds]
  cases parsed : parseProgram source with
  | error error =>
      rw [evaluate, parsed]
      exact .nothing rfl
  | ok statements =>
      rw [session.evaluate_of_parsed parsed]
      exact session.runAll_history statements

theorem step_history (session : Session) (source : String) :
    SettledHistory session (session.builds .step source) (session.step source).session := by
  rw [builds, step]
  cases stepped : parseTerm source >>= session.stepExpr with
  | error error => exact .nothing rfl
  | ok result =>
      obtain ⟨body, _, inBody⟩ := Except.exists_of_bind stepped
      obtain ⟨request, settled⟩ := stepExpr_request inBody
      exact .of_request request rfl settled

theorem equal_history (session : Session) (source : String) :
    SettledHistory session (session.builds .equal source) (session.equal source).session := by
  unfold equal
  split
  · rename_i parsed
    simp only [builds, parsed]
    exact .nothing rfl
  · rename_i left right parsed
    simp only [builds, parsed, Comparison.reply_session]
    exact session.compareExprs_history left right
  · rename_i notTwo parsed
    simp only [builds, parsed]
    split
    · rename_i two
      exact absurd (Except.ok.inj two) (notTwo _ _)
    · exact .nothing rfl

theorem changeSetting_history (session : Session) (argument : String) :
    InputHistory session [] (session.changeSetting argument).session := by
  unfold changeSetting
  split
  · split
    · exact .of_request (.settings _) (Or.inl rfl) (Or.inr rfl)
    · exact .nothing (Or.inl rfl)
  · exact .nothing (Or.inl rfl)

theorem execute_history {session : Session} {command : Command} {argument : String}
    {reply : Reply} (executed : session.execute command argument = .reply reply) :
    InputHistory session (session.builds command argument) reply.session := by
  unfold execute at executed
  split at executed
  all_goals cases executed
  · unfold showTokens
    split <;> exact .nothing (Or.inl rfl)
  · unfold showStatements
    split <;> exact .nothing (Or.inl rfl)
  · exact (session.evaluate_history argument).mono fun _ => Or.inl
  · exact (session.step_history argument).mono fun _ => Or.inl
  · exact (session.equal_history argument).mono fun _ => Or.inl
  · exact session.changeSetting_history argument
  all_goals exact .nothing (Or.inl rfl)

/-! ### Inputs -/

def buildsForLine (session : Session) (line : String) : List Term :=
  let parts := commandParts (trim line)
  match Command.ofWord? parts.1 with
  | some command => session.builds command parts.2
  | none => []

def buildsForFile (session : Session) : FileText → List Term
  | .ok source => session.builds .evaluate source
  | .error _ => []

/-- An input takes a session to the next, and these are the terms that it builds. It is a line, or
the contents of a file that a line asked for. -/
inductive Answers (session : Session) : List Term → Session → Prop where
  | line {line : String} {reply : Reply} : session.respond line = .reply reply →
      Answers session (session.buildsForLine line) reply.session
  | file (path : String) (contents : FileText) :
      Answers session (session.buildsForFile contents) (session.loaded path contents).session

inductive Inputs (answers : Session → List Term → Session → Prop) (start : Session) :
    List Term → Session → Prop where
  | nothing : Inputs answers start [] start
  | next {built new : List Term} {session after : Session} :
      Inputs answers start built session → answers session new after →
      Inputs answers start (built ++ new) after

theorem respond_history {session : Session} {line : String} {reply : Reply}
    (responded : session.respond line = .reply reply) :
    InputHistory session (session.buildsForLine line) reply.session := by
  unfold respond at responded
  unfold buildsForLine
  dsimp only at responded ⊢
  split at responded
  · rename_i blank
    cases responded
    rw [String.isEmpty_iff.mp blank]
    exact .nothing (Or.inl rfl)
  · cases known : Command.ofWord? (commandParts (trim line)).1 with
    | none =>
        rw [known] at responded
        cases responded
        exact .nothing (Or.inl rfl)
    | some command =>
        rw [known] at responded
        exact execute_history responded

theorem loaded_history (session : Session) (path : String) (contents : FileText) :
    SettledHistory session (session.buildsForFile contents)
      (session.loaded path contents).session := by
  have inFile : SettledHistory session (session.buildsForFile contents)
      (session.evaluateFile path contents).session := by
    cases contents with
    | error reason => exact .nothing rfl
    | ok source =>
        unfold evaluateFile
        dsimp only
        split
        · exact session.evaluate_history source
        · exact session.evaluate_history source
  unfold loaded
  dsimp only
  split
  · exact inFile
  · exact inFile

theorem Answers.history {session next : Session} {built : List Term}
    (answer : Answers session built next) : InputHistory session built next := by
  cases answer with
  | line responded => exact respond_history responded
  | file path contents => exact (loaded_history session path contents).mono fun _ => Or.inl

theorem Inputs.history {start session : Session} {built : List Term}
    (answered : Inputs Answers start built session) : History start built session := by
  induction answered with
  | nothing => exact .nothing
  | next _ answer ih => exact ih.trans (Answers.history answer).history

/-! ### The start -/

def initial (settings : Settings) : Session :=
  ⟨.empty, settings, 0, Shell.horizon⟩

theorem addAll_history {settings : Settings} {statements : List Statement} {context : Context}
    {supply : Nat} {result : Context × Nat}
    (added : Prelude.addAll settings statements context supply = .ok result) (horizon : Nat) :
    ∃ terms, SettledHistory ⟨context, settings, supply, horizon⟩ terms
      ⟨result.1, settings, result.2, horizon⟩ := by
  induction statements generalizing context supply with
  | nil =>
      cases added
      exact ⟨[], .nothing rfl⟩
  | cons statement statements ih =>
      cases statement with
      | term body => cases added
      | define name body =>
          obtain ⟨t, resolved, rest⟩ := Except.exists_of_bind added
          obtain ⟨terms, later⟩ := ih rest
          have first : SettledHistory ⟨context, settings, supply, horizon⟩ [t.1]
              ⟨context.define name.value t.1, settings, t.2, horizon⟩ :=
            .of_request (.definition resolved) rfl rfl
          exact ⟨t.1 :: terms, first.trans later⟩

theorem addSources_history {settings : Settings} {sources : List String} {context : Context}
    {supply : Nat} {result : Context × Nat}
    (added : Prelude.addSources settings sources context supply = .ok result) (horizon : Nat) :
    ∃ terms, SettledHistory ⟨context, settings, supply, horizon⟩ terms
      ⟨result.1, settings, result.2, horizon⟩ := by
  induction sources generalizing context supply with
  | nil =>
      cases added
      exact ⟨[], .nothing rfl⟩
  | cons source sources ih =>
      obtain ⟨statements, _, inStatements⟩ := Except.exists_of_bind added
      obtain ⟨next, inNext, rest⟩ := Except.exists_of_bind inStatements
      obtain ⟨first, earlier⟩ := addAll_history inNext horizon
      obtain ⟨second, later⟩ := ih rest
      exact ⟨first ++ second, earlier.trans later⟩

/-- The definitions of the prelude are requests as well. -/
theorem openSession_settled {settings : Settings} {withPrelude : Bool} {start : Session}
    (opened : Shell.openSession settings withPrelude = .ok start) :
    ∃ terms, SettledHistory (initial settings) terms start := by
  cases withPrelude with
  | true =>
      obtain ⟨definitions, loaded, returned⟩ := Except.exists_of_bind opened
      cases returned
      exact addSources_history loaded Shell.horizon
  | false =>
      cases opened
      exact ⟨[], .nothing rfl⟩

theorem openSession_history {settings : Settings} {withPrelude : Bool} {start : Session}
    (opened : Shell.openSession settings withPrelude = .ok start) :
    ∃ terms, History (initial settings) terms start := by
  obtain ⟨terms, settled⟩ := openSession_settled opened
  exact ⟨terms, settled.history⟩

end Session

end UntypedLambda
