import UntypedLambda.Proofs.Matching.Resolution
import UntypedLambda.Proofs.Matching.Text
import UntypedLambda.Session.Command

set_option autoImplicit false

/-! Sessions that differ only in their identities. The same input is answered with the same text,
and the sessions afterwards differ only in their identities again. -/

namespace UntypedLambda

open Surface Term

variable {R : Nat → Nat → Prop}

/-! ### What matching statements come to -/

structure Course.Matches (R : Nat → Nat → Prop) (course course' : Course) : Prop where
  start : course.start.Matches R course'.start
  reduction : course.reduction.Matches R course'.reduction
  passed : List.Forall₂ (fun step step' => step.1 = step'.1 ∧ step.2.Matches R step'.2)
    course.passed course'.passed

inductive Outcome.Matches (R : Nat → Nat → Prop) : Outcome → Outcome → Prop where
  | reduced {course course' : Course} : course.Matches R course' →
      Matches R (.reduced course) (.reduced course')
  | defined {t t' : Term} (name : String) : t.Matches R t' →
      Matches R (.defined name t) (.defined name t')

section

variable {course course' : Course}

theorem Course.Matches.passage (one : Relator.BiUnique R) (courses : course.Matches R course') :
    course.passage = course'.passage := by
  have lines := List.rel_reverse courses.passed
  unfold Course.passage
  have texts := List.map_eq_of_forall₂ lines fun step _ step' same =>
    show toString step.1 ++ " -> " ++ step.2.render = toString step'.1 ++ " -> " ++ step'.2.render
    by rw [same.1, same.2.render one]
  rw [texts]

theorem Course.Matches.stopNotice (courses : course.Matches R course') (text : String) :
    course.stopNotice text = course'.stopNotice text := by
  rw [Course.stopNotice, Course.stopNotice, courses.reduction.exhausted]

theorem summary_eq (one : Relator.BiUnique R) {reduction reduction' : Reduction}
    (reductions : reduction.Matches R reduction') : summary reduction = summary reduction' := by
  rw [summary, summary, Encoding.describe?_eq_of_matches one reductions.term, reductions.steps]

theorem Course.Matches.transcript (one : Relator.BiUnique R) (courses : course.Matches R course') :
    course.transcript = course'.transcript := by
  rw [Course.transcript, Course.transcript, courses.passage one, courses.stopNotice,
    courses.reduction.term.render one, summary_eq one courses.reduction, courses.reduction.steps]

theorem Outcome.Matches.transcript (one : Relator.BiUnique R) {outcome outcome' : Outcome}
    (outcomes : outcome.Matches R outcome') : outcome.transcript = outcome'.transcript := by
  cases outcomes with
  | reduced courses => exact courses.transcript one
  | defined name alike => rw [Outcome.transcript, Outcome.transcript, alike.render one]

end

/-! ### Programs -/

structure Session.Matches (R : Nat → Nat → Prop) (session session' : Session) : Prop where
  settings : session.settings = session'.settings
  horizon : session.horizon = session'.horizon
  context : session.context.Matches R session'.context
  supply : InStep R session.supply session'.supply

structure Progress.Matches (R : Nat → Nat → Prop) (progress progress' : Progress) : Prop where
  session : progress.session.Matches R progress'.session
  outcomes : List.Forall₂ (Outcome.Matches R) progress.outcomes progress'.outcomes
  error : progress.error = progress'.error

structure Reply.Matches (R : Nat → Nat → Prop) (reply reply' : Reply) : Prop where
  transcript : reply.transcript = reply'.transcript
  ending : reply.ending = reply'.ending
  session : reply.session.Matches R reply'.session

theorem Progress.Matches.transcript (one : Relator.BiUnique R) {progress progress' : Progress}
    (alike : progress.Matches R progress') : progress.transcript = progress'.transcript := by
  unfold Progress.transcript
  rw [List.map_eq_of_forall₂ alike.outcomes fun _ _ _ same => same.transcript one]

theorem Progress.Matches.reply (one : Relator.BiUnique R) {progress progress' : Progress}
    (alike : progress.Matches R progress') (source : String) :
    (progress.reply source).Matches R (progress'.reply source) where
  transcript := alike.transcript one
  ending := by rw [Progress.reply, Progress.reply, Progress.ending, Progress.ending, alike.error]
  session := alike.session

namespace Session

variable {session session' : Session}

theorem Matches.reduce (one : Relator.BiUnique R) (sessions : session.Matches R session')
    {t t' : Term} (alike : t.Matches R t') {supply supply' : Nat}
    (inStep : InStep R supply supply') :
    (session.reduce t supply).Matches R (session'.reduce t' supply') := by
  simp only [Session.reduce, sessions.settings, sessions.horizon]
  split
  · have passed : ∀ (seen seen' : List (Nat × Term)) (steps : Nat) (t t' : Term),
        List.Forall₂ (fun step step' => step.1 = step'.1 ∧ step.2.Matches R step'.2) seen seen' →
        t.Matches R t' →
        List.Forall₂ (fun step step' => step.1 = step'.1 ∧ step.2.Matches R step'.2)
          ((steps, t) :: seen) ((steps, t') :: seen') :=
      fun _ _ _ _ _ seen next => .cons ⟨rfl, next⟩ seen
    have run := alike.reduceWith one passed session'.settings.mode session'.settings.strategy
      (session'.settings.limit session'.horizon) inStep .nil
    exact ⟨alike, run.1, run.2⟩
  · exact ⟨alike, alike.reduce one _ _ _ inStep, .nil⟩

theorem Matches.reduceExpr (one : Relator.BiUnique R) (sessions : session.Matches R session')
    (body : Expr) :
    Except.Rel (fun result result' => result.1.Matches R result'.1 ∧ result.2.Matches R result'.2)
      (session.reduceExpr body) (session'.reduceExpr body) := by
  have reduces {t t' : Term} (alike : t.Matches R t') {supply supply' : Nat}
      (inStep : InStep R supply supply') := sessions.reduce one alike inStep
  obtain ⟨context, settings, supply, horizon⟩ := session
  obtain ⟨context', settings', supply', horizon'⟩ := session'
  obtain ⟨rfl, rfl, contexts, inStep⟩ := sessions
  refine (resolveTerm_rel one contexts settings body inStep).bind fun _ _ made => ?_
  have courses := reduces made.term made.supply
  exact .ok ⟨⟨rfl, rfl, contexts, courses.reduction.supply⟩, courses⟩

theorem Matches.run (one : Relator.BiUnique R) (sessions : session.Matches R session')
    (statement : Statement) :
    Except.Rel (fun result result' => result.1.Matches R result'.1 ∧ result.2.Matches R result'.2)
      (session.run statement) (session'.run statement) := by
  cases statement with
  | term body =>
      refine (sessions.reduceExpr one body).bind fun _ _ reduced => .ok ?_
      exact ⟨reduced.1, .reduced reduced.2⟩
  | define name body =>
      obtain ⟨context, settings, supply, horizon⟩ := session
      obtain ⟨context', settings', supply', horizon'⟩ := session'
      obtain ⟨rfl, rfl, contexts, inStep⟩ := sessions
      refine (resolveDefinition_rel one contexts settings name.value body inStep).bind
        fun _ _ made => .ok ?_
      have defined := contexts.define name.value made.term
      exact ⟨⟨rfl, rfl, defined, made.supply⟩, .defined name.value made.term⟩

theorem Matches.runAll (one : Relator.BiUnique R) (sessions : session.Matches R session')
    (statements : List Statement) :
    (session.runAll statements).Matches R (session'.runAll statements) := by
  induction statements generalizing session session' with
  | nil => exact ⟨sessions, .nil, rfl⟩
  | cons statement statements ih =>
      rw [Session.runAll, Session.runAll]
      obtain ⟨e, error, error'⟩ | ⟨_, _, ok, ok', results⟩ := (sessions.run one statement).cases
      · rw [error, error']
        exact ⟨sessions, .nil, rfl⟩
      · rw [ok, ok']
        have rest := ih results.1
        exact ⟨rest.session, .cons results.2 rest.outcomes, rest.error⟩

theorem Matches.evaluate (one : Relator.BiUnique R) (sessions : session.Matches R session')
    (source : String) : (session.evaluate source).Matches R (session'.evaluate source) := by
  unfold Session.evaluate
  cases parseProgram source with
  | error error => exact ⟨rfl, rfl, sessions⟩
  | ok statements => exact (sessions.runAll one statements).reply one source

/-! ### Commands -/

theorem Matches.stepExpr (one : Relator.BiUnique R) (sessions : session.Matches R session')
    (body : Expr) :
    Except.Rel (fun result result' => result.1.Matches R result'.1 ∧
      result.2.transcript = result'.2.transcript)
      (session.stepExpr body) (session'.stepExpr body) := by
  obtain ⟨context, settings, supply, horizon⟩ := session
  obtain ⟨context', settings', supply', horizon'⟩ := session'
  obtain ⟨rfl, rfl, contexts, inStep⟩ := sessions
  unfold Session.stepExpr
  refine (resolveTerm_rel one contexts settings body inStep).bind fun _ _ made => ?_
  obtain ⟨none, none'⟩ | ⟨_, _, some, some', next⟩ := Option.rel_cases
    (made.term.step? one settings.mode settings.strategy made.supply)
  · rw [none, none']
    refine .ok ⟨⟨rfl, rfl, contexts, made.supply⟩, ?_⟩
    rw [Stepping.transcript, Stepping.transcript, made.term.render one]
  · rw [some, some']
    exact .ok ⟨⟨rfl, rfl, contexts, next.supply⟩, congrArg Transcript.line (next.term.render one)⟩

theorem Matches.step (one : Relator.BiUnique R) (sessions : session.Matches R session')
    (source : String) : (session.step source).Matches R (session'.step source) := by
  have steps : Except.Rel
      (fun result result' => result.1.Matches R result'.1 ∧
        result.2.transcript = result'.2.transcript)
      (parseTerm source >>= session.stepExpr) (parseTerm source >>= session'.stepExpr) := by
    cases parseTerm source with
    | error error => exact .error error
    | ok body => exact sessions.stepExpr one body
  unfold Session.step
  obtain ⟨e, error, error'⟩ | ⟨_, _, ok, ok', results⟩ := steps.cases
  · rw [error, error']
    exact ⟨rfl, rfl, sessions⟩
  · rw [ok, ok']
    exact ⟨results.2, rfl, results.1⟩

end Session

inductive Comparison.Matches (R : Nat → Nat → Prop) : Comparison → Comparison → Prop where
  | leftRefused {session session' : Session} (error : SourceError) :
      session.Matches R session' →
      Matches R (.leftRefused session error) (.leftRefused session' error)
  | rightRefused {session session' : Session} {left left' : Course} (error : SourceError) :
      session.Matches R session' → left.Matches R left' →
      Matches R (.rightRefused session left error) (.rightRefused session' left' error)
  | made {session session' : Session} {left left' right right' : Course} :
      session.Matches R session' → left.Matches R left' → right.Matches R right' →
      Matches R (.made session left right) (.made session' left' right')

namespace Comparison

theorem comparandTranscript_eq (one : Relator.BiUnique R) (body : Expr) {course course' : Course}
    (courses : course.Matches R course') :
    comparandTranscript body course = comparandTranscript body course' := by
  rw [comparandTranscript, comparandTranscript, courses.passage one, courses.stopNotice,
    courses.reduction.steps]

theorem Matches.reply (one : Relator.BiUnique R) {comparison comparison' : Comparison}
    (alike : comparison.Matches R comparison') (source : String) (left right : Expr) :
    (comparison.reply source left right).Matches R (comparison'.reply source left right) := by
  cases alike with
  | leftRefused error sessions => exact ⟨rfl, rfl, sessions⟩
  | rightRefused error sessions lefts =>
      exact ⟨comparandTranscript_eq one left lefts, rfl, sessions⟩
  | made sessions lefts rights =>
      refine ⟨?_, rfl, sessions⟩
      dsimp only [Comparison.reply, Reply.goOn, answer]
      rw [comparandTranscript_eq one left lefts, comparandTranscript_eq one right rights,
        lefts.reduction.term.alphaEqual one rights.reduction.term]

end Comparison

namespace Session

variable {session session' : Session}

theorem Matches.compareExprs (one : Relator.BiUnique R) (sessions : session.Matches R session')
    (left right : Expr) :
    (session.compareExprs left right).Matches R (session'.compareExprs left right) := by
  unfold Session.compareExprs
  obtain ⟨e, error, error'⟩ | ⟨⟨between, lefts⟩, ⟨between', lefts'⟩, ok, ok', first⟩ :=
    (sessions.reduceExpr one left).cases
  · rw [error, error']
    exact .leftRefused e sessions
  · rw [ok, ok']
    obtain ⟨e, error, error'⟩ | ⟨⟨after, rights⟩, ⟨after', rights'⟩, ok, ok', second⟩ :=
      (first.1.reduceExpr one right).cases
    · dsimp only at error error' ⊢
      rw [error, error']
      exact .rightRefused e first.1 first.2
    · dsimp only at ok ok' ⊢
      rw [ok, ok']
      exact .made second.1 first.2 second.2

theorem Matches.equal (one : Relator.BiUnique R) (sessions : session.Matches R session')
    (source : String) : (session.equal source).Matches R (session'.equal source) := by
  unfold Session.equal
  split
  · exact ⟨rfl, rfl, sessions⟩
  · exact (sessions.compareExprs one _ _).reply one source _ _
  · exact ⟨rfl, rfl, sessions⟩

end Session

end UntypedLambda
