import UntypedLambda.Encoding.Describe
import UntypedLambda.Resolution
import UntypedLambda.Session.Basic
import UntypedLambda.Surface.Reading.Program
import UntypedLambda.Term.Alpha

set_option autoImplicit false

/-! Running programs in a session. What a statement, a single step or a comparison comes to is a
value of its own, and what the session writes about it is read off that value. A program is run
statement by statement; an error ends it and leaves what the statements before it have done. -/

namespace UntypedLambda

open Surface Term

/-- A reduction that a session has made: the term it started from, how it ended, and the terms it
passed with the steps that led to them, latest first, when they are to be shown. -/
structure Course where
  start : Term
  reduction : Reduction
  passed : List (Nat × Term)

inductive Outcome where
  | reduced (course : Course)
  | defined (name : String) (t : Term)

def stepsText (steps : Nat) : String :=
  if steps = 1 then "1 step" else toString steps ++ " steps"

def summary (reduction : Reduction) : String :=
  match Encoding.describe? reduction.term with
  | some value => "  -- " ++ value ++ ", " ++ stepsText reduction.steps
  | none => "  -- " ++ stepsText reduction.steps

namespace Course

def passage (course : Course) : Transcript :=
  .lines (course.passed.reverse.map fun step => toString step.1 ++ " -> " ++ step.2.render)

def stopNotice (course : Course) (text : String) : Transcript :=
  if course.reduction.exhausted then .notice text else {}

def transcript (course : Course) : Transcript :=
  course.passage ++ .lines [course.reduction.term.render, summary course.reduction] ++
    course.stopNotice ("Stopped after " ++ toString course.reduction.steps ++
      " steps without reaching a normal form")

end Course

def Outcome.transcript : Outcome → Transcript
  | .reduced course => course.transcript
  | .defined name t => .line (name ++ " := " ++ t.render)

structure Progress where
  session : Session
  outcomes : List Outcome
  error : Option SourceError

namespace Progress

def transcript (progress : Progress) : Transcript :=
  (progress.outcomes.map Outcome.transcript).foldl (· ++ ·) {}

def ending (progress : Progress) (source : String) : Ending :=
  match progress.error with
  | none => .next
  | some error => .failed source error

def reply (progress : Progress) (source : String) : Reply :=
  ⟨progress.session, progress.transcript, progress.ending source⟩

end Progress

/-- The single step of a term. There is no next term when the first is normal. -/
structure Stepping where
  start : Term
  next? : Option Term

def Stepping.transcript (stepping : Stepping) : Transcript :=
  match stepping.next? with
  | some next => .line next.render
  | none => .lines [stepping.start.render, "  -- normal form"]

/-- How a comparison of two expressions ends, with the session afterwards: at the first that is
refused, or with the courses of both. -/
inductive Comparison where
  | leftRefused (session : Session) (error : SourceError)
  | rightRefused (session : Session) (left : Course) (error : SourceError)
  | made (session : Session) (left right : Course)

namespace Comparison

def comparandTranscript (body : Expr) (course : Course) : Transcript :=
  course.passage ++ course.stopNotice ("Stopped reducing " ++ body.render ++ " after " ++
    toString course.reduction.steps ++ " steps")

def answer (left right : Course) : String :=
  if left.reduction.term.alphaEqual right.reduction.term then "true" else "false"

def reply (comparison : Comparison) (source : String) (left right : Expr) : Reply :=
  match comparison with
  | .leftRefused session error => .fail session {} source error
  | .rightRefused session leftCourse error =>
      .fail session (comparandTranscript left leftCourse) source error
  | .made session leftCourse rightCourse =>
      .goOn session (comparandTranscript left leftCourse ++ comparandTranscript right rightCourse ++
        .line (answer leftCourse rightCourse))

theorem answer_eq_true_iff (left right : Course) :
    answer left right = "true" ↔ left.reduction.term.alphaEqual right.reduction.term = true := by
  unfold answer
  cases left.reduction.term.alphaEqual right.reduction.term with
  | true => exact ⟨fun _ => rfl, fun _ => rfl⟩
  | false => exact ⟨fun same => absurd same (by decide), nofun⟩

theorem answer_eq_false_iff (left right : Course) :
    answer left right = "false" ↔ left.reduction.term.alphaEqual right.reduction.term = false := by
  unfold answer
  cases left.reduction.term.alphaEqual right.reduction.term with
  | true => exact ⟨fun same => absurd same (by decide), nofun⟩
  | false => exact ⟨fun _ => rfl, fun _ => rfl⟩

end Comparison

namespace Session

/-- Reduces a term as the settings say. Verbose settings keep the terms that it passes. -/
def reduce (session : Session) (t : Term) (supply : Nat) : Course :=
  let settings := session.settings
  let limit := settings.limit session.horizon
  if settings.verbose then
    let run := reduceWith settings.mode settings.strategy limit t supply
      (fun passed steps t => (steps, t) :: passed) []
    ⟨t, run.1, run.2⟩
  else
    ⟨t, Term.reduce settings.mode settings.strategy limit t supply, []⟩

def reduceExpr (session : Session) (body : Expr) : Except SourceError (Session × Course) := do
  let t ← resolveTerm session.context session.settings body session.supply
  let course := session.reduce t.1 t.2
  return ({ session with supply := course.reduction.supply }, course)

def run (session : Session) : Statement → Except SourceError (Session × Outcome)
  | .term body => do
      let reduced ← session.reduceExpr body
      return (reduced.1, .reduced reduced.2)
  | .define name body => do
      let t ← resolveDefinition session.context session.settings name.value body session.supply
      let context := session.context.define name.value t.1
      return ({ session with context := context, supply := t.2 }, .defined name.value t.1)

def runAll (session : Session) : List Statement → Progress
  | [] => ⟨session, [], none⟩
  | statement :: statements =>
      match session.run statement with
      | .error error => ⟨session, [], some error⟩
      | .ok (next, outcome) =>
          let progress := runAll next statements
          { progress with outcomes := outcome :: progress.outcomes }

def evaluate (session : Session) (source : String) : Reply :=
  match parseProgram source with
  | .error error => .fail session {} source error
  | .ok statements => (session.runAll statements).reply source

def stepExpr (session : Session) (body : Expr) : Except SourceError (Session × Stepping) := do
  let t ← resolveTerm session.context session.settings body session.supply
  let next? := step? session.settings.mode session.settings.strategy t.1 t.2
  return ({ session with supply := (next?.getD t).2 }, ⟨t.1, next?.map Prod.fst⟩)

def step (session : Session) (source : String) : Reply :=
  match parseTerm source >>= session.stepExpr with
  | .ok (next, stepping) => .goOn next stepping.transcript
  | .error error => .fail session {} source error

/-- Reduces two expressions, the second where the first has left the supply. -/
def compareExprs (session : Session) (left right : Expr) : Comparison :=
  match session.reduceExpr left with
  | .error error => .leftRefused session error
  | .ok (between, leftCourse) =>
      match between.reduceExpr right with
      | .error error => .rightRefused between leftCourse error
      | .ok (after, rightCourse) => .made after leftCourse rightCourse

def equal (session : Session) (source : String) : Reply :=
  match parseProgram source with
  | .error error => .fail session {} source error
  | .ok [.term left, .term right] => (session.compareExprs left right).reply source left right
  | .ok _ => .fail session {} source (.expectedTwoTerms ⟨0, source.length⟩)

/-! ### What the commands come to -/

section

variable {session next : Session} {source : String} {body left right : Expr}

theorem reduceExpr_eq_ok_iff {course : Course} :
    session.reduceExpr body = .ok (next, course) ↔
      ∃ t, resolveTerm session.context session.settings body session.supply = .ok t ∧
        course = session.reduce t.1 t.2 ∧
        next = { session with supply := course.reduction.supply } := by
  unfold reduceExpr
  cases resolveTerm session.context session.settings body session.supply with
  | error error => exact ⟨nofun, nofun⟩
  | ok t =>
      constructor
      · intro returned
        cases returned
        exact ⟨t, rfl, rfl, rfl⟩
      · rintro ⟨_, ⟨⟩, rfl, rfl⟩
        rfl

theorem stepExpr_eq_ok_iff {stepping : Stepping} :
    session.stepExpr body = .ok (next, stepping) ↔
      ∃ t, resolveTerm session.context session.settings body session.supply = .ok t ∧
        let next? := step? session.settings.mode session.settings.strategy t.1 t.2
        stepping = ⟨t.1, next?.map Prod.fst⟩ ∧
        next = { session with supply := (next?.getD t).2 } := by
  unfold stepExpr
  cases resolveTerm session.context session.settings body session.supply with
  | error error => exact ⟨nofun, nofun⟩
  | ok t =>
      constructor
      · intro returned
        cases returned
        exact ⟨t, rfl, rfl, rfl⟩
      · rintro ⟨_, ⟨⟩, rfl, rfl⟩
        rfl

theorem compareExprs_eq_made_iff {leftCourse rightCourse : Course} :
    session.compareExprs left right = .made next leftCourse rightCourse ↔
      ∃ between, session.reduceExpr left = .ok (between, leftCourse) ∧
        between.reduceExpr right = .ok (next, rightCourse) := by
  unfold compareExprs
  cases session.reduceExpr left with
  | error error => exact ⟨nofun, nofun⟩
  | ok first =>
      obtain ⟨between, course⟩ := first
      dsimp only
      constructor
      · intro made
        cases second : between.reduceExpr right with
        | error error =>
            rw [second] at made
            cases made
        | ok last =>
            rw [second] at made
            cases made
            exact ⟨between, rfl, second⟩
      · rintro ⟨_, ⟨⟩, second⟩
        rw [second]

/-- A program is answered with what its statements have come to. -/
theorem evaluate_of_parsed (session : Session) {statements : List Statement}
    (parsed : parseProgram source = .ok statements) :
    session.evaluate source = (session.runAll statements).reply source := by
  rw [evaluate, parsed]

/-- A term that resolves is answered with its step, or with itself when it is normal. -/
theorem step_of_resolved {t : Term × Nat} (parsed : parseTerm source = .ok body)
    (resolved : resolveTerm session.context session.settings body session.supply = .ok t) :
    session.step source =
      match step? session.settings.mode session.settings.strategy t.1 t.2 with
      | some taken => .goOn { session with supply := taken.2 } (.line taken.1.render)
      | none => .goOn { session with supply := t.2 } (.lines [t.1.render, "  -- normal form"]) := by
  have stepped := stepExpr_eq_ok_iff.mpr ⟨t, resolved, rfl, rfl⟩
  have whole : (parseTerm source >>= session.stepExpr) = session.stepExpr body := by
    rw [parsed]
    rfl
  rw [step, whole, stepped]
  cases step? session.settings.mode session.settings.strategy t.1 t.2 with
  | none => rfl
  | some taken => rfl

/-- Two terms that resolve, the second with the supply that the reduction of the first has left, are
answered with the comparison of their reduced forms. -/
theorem equal_of_resolved {first second : Term × Nat}
    (parsed : parseProgram source = .ok [.term left, .term right])
    (inLeft : resolveTerm session.context session.settings left session.supply = .ok first)
    (inRight : resolveTerm session.context session.settings right
      (session.reduce first.1 first.2).reduction.supply = .ok second) :
    let leftCourse := session.reduce first.1 first.2
    let rightCourse := session.reduce second.1 second.2
    session.equal source =
      .goOn { session with supply := rightCourse.reduction.supply }
        (Comparison.comparandTranscript left leftCourse ++
          Comparison.comparandTranscript right rightCourse ++
          .line (Comparison.answer leftCourse rightCourse)) := by
  intro leftCourse rightCourse
  have toBetween := reduceExpr_eq_ok_iff.mpr ⟨first, inLeft, rfl, rfl⟩
  let between : Session := { session with supply := leftCourse.reduction.supply }
  have toEnd : between.reduceExpr right = .ok (_, rightCourse) :=
    reduceExpr_eq_ok_iff.mpr ⟨second, inRight, rfl, rfl⟩
  have made := compareExprs_eq_made_iff.mpr ⟨_, toBetween, toEnd⟩
  rw [equal, parsed]
  dsimp only
  rw [made]
  rfl

end

end Session

end UntypedLambda
