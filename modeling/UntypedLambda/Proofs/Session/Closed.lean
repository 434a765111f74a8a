import UntypedLambda.Proofs.Resolution.Closed
import UntypedLambda.Proofs.Session.Identities
import UntypedLambda.Proofs.Session.Supply

set_option autoImplicit false

/-! Strict sessions. As long as undefined names are refused, no input brings a free variable into
the session, and no reply is read off a term that has one. -/

namespace UntypedLambda

open Surface Term

/-! ### What a reply is read off -/

def Course.terms (course : Course) : List Term :=
  course.start :: course.reduction.term :: course.passed.map Prod.snd

def Outcome.terms : Outcome → List Term
  | .reduced course => course.terms
  | .defined _ t => [t]

def Progress.terms (progress : Progress) : List Term :=
  progress.outcomes.flatMap Outcome.terms

def Stepping.terms (stepping : Stepping) : List Term :=
  stepping.start :: stepping.next?.toList

def Comparison.terms (comparison : Comparison) : List Term :=
  comparison.courses.flatMap Course.terms

/-- What a reply writes and decides is read off these terms. The reply to a file that is loaded is
that to its text, with a notice when it failed. -/
inductive Reply.ReadsOff : List Term → Reply → Prop where
  | silence (session : Session) (ending : Ending) : ReadsOff [] ⟨session, {}, ending⟩
  | program (progress : Progress) (source : String) :
      ReadsOff progress.terms (progress.reply source)
  | step (next : Session) (stepping : Stepping) :
      ReadsOff stepping.terms (.goOn next stepping.transcript)
  | comparison (comparison : Comparison) (source : String) (left right : Expr) :
      ReadsOff comparison.terms (comparison.reply source left right)
  | loading {terms : List Term} {reply : Reply} : ReadsOff terms reply →
      ReadsOff terms (.goOn reply.session reply.transcript)
  | failedLoading {terms : List Term} {reply : Reply} (text : String) : ReadsOff terms reply →
      ReadsOff terms (.goOn reply.session (reply.transcript ++ .notice text))

/-- What the reply writes and decides is read off terms without free variables. -/
def Reply.Closed (reply : Reply) : Prop :=
  ∃ terms, reply.ReadsOff terms ∧ ∀ t ∈ terms, t.freeNames = []

theorem Reply.Closed.silence (session : Session) (ending : Ending) :
    Reply.Closed ⟨session, {}, ending⟩ :=
  ⟨[], .silence session ending, List.forall_mem_nil _⟩

namespace Session

open Relation

def Strict (settings : Settings) : Prop :=
  settings.strict = true

/-- A strict session without a free variable in its definitions, whose supply is above all their
identities. -/
structure Sealed (session : Session) : Prop where
  strict : Strict session.settings
  definitions : session.context.Closed
  below : session.context.Below session.supply

variable {session after next : Session} {built new : List Term}

namespace Sealed

theorem initial {settings : Settings} (strict : Strict settings) : Sealed (initial settings) where
  strict := strict
  definitions := List.forall_mem_nil _
  below := List.forall_mem_nil _

/-- What one request builds is closed, and so are the definitions after it. -/
theorem closed_of_request (known : Sealed session) (request : Request session new after) :
    after.context.Closed ∧ ∀ t ∈ new, t.freeNames = [] := by
  cases request with
  | definition resolved =>
      have free := resolveDefinition_closed known.strict known.definitions known.below resolved
      refine ⟨fun entry member => ?_, List.forall_mem_singleton.mpr free⟩
      rcases Context.mem_entries_define member with rfl | old
      · exact free
      · exact known.definitions entry old
  | lookup found =>
      obtain ⟨definition, atName, copied⟩ := Option.map_eq_some_iff.mp found
      have free := freeNames_freshCopy (known.below.find? atName)
      rw [copied, known.definitions _ (Context.mem_entries_of_find? atName)] at free
      exact ⟨known.definitions, List.forall_mem_singleton.mpr free⟩
  | evaluation resolved _ =>
      have free := resolveTerm_closed known.strict known.definitions known.below resolved
      exact ⟨known.definitions, List.forall_mem_singleton.mpr free⟩
  | settings => exact ⟨known.definitions, List.forall_mem_nil _⟩

theorem request (known : Sealed session) (request : Request session new after)
    (strict : Strict after.settings) : Sealed after where
  strict := strict
  definitions := (known.closed_of_request request).1
  below := request.definitions_below known.below

theorem history (known : Sealed session) (under : HistoryUnder Strict session built after) :
    Sealed after ∧ ∀ t ∈ built, t.freeNames = [] := by
  induction under with
  | nothing => exact ⟨known, List.forall_mem_nil _⟩
  | next _ request strict ih =>
      refine ⟨ih.1.request request strict, fun t member => ?_⟩
      rcases List.mem_append.mp member with old | new
      · exact ih.2 t old
      · exact (ih.1.closed_of_request request).2 t new

end Sealed

/-! ### Reductions -/

/-- The runs of a closed term pass closed terms only. -/
theorem watched_closed {supply : Nat} {t : Term} (below : t.Below supply)
    (closed : t.freeNames = []) (mode : Mode) (strategy : Strategy) (limit : Nat) :
    let run := watched mode strategy limit t supply
    run.1.term.freeNames = [] ∧ ∀ u ∈ run.2, u.freeNames = [] := by
  have kept := watched_keeps (P := fun supply t => t.Below supply ∧ t.freeNames = [])
    (fun step here => ⟨step.result_below here.1, step.closed here.1 here.2⟩)
    (fun here le => ⟨here.1.mono le, here.2⟩)
    ⟨below, closed⟩ mode strategy limit
  exact ⟨kept.1.2, fun u member => (kept.2 u member).2⟩

/-- So do the reductions of a session, with the terms that it shows. -/
theorem reduce_closed (session : Session) {supply : Nat} {t : Term} (below : t.Below supply)
    (closed : t.freeNames = []) : ∀ u ∈ (session.reduce t supply).terms, u.freeNames = [] := by
  have kept {mode : Mode} {supply : Nat} {t : Term} {next : Term × Nat}
      (step : Contracts mode supply t next) (here : t.Below supply ∧ t.freeNames = []) :
      next.1.Below next.2 ∧ next.1.freeNames = [] :=
    ⟨step.result_below here.1, step.closed here.1 here.2⟩
  simp only [Course.terms, List.forall_mem_cons, List.forall_mem_map, reduce_start, closed,
    true_and]
  simp only [Session.reduce]
  split
  · have run := runFrom_keeps (P := fun supply t => t.Below supply ∧ t.freeNames = [])
      (Q := fun _ (passed : List (Nat × Term)) => ∀ step ∈ passed, step.2.freeNames = []) kept
      (fun passed steps t => (steps, t) :: passed) (fun before _ => before)
      (fun _ before there => List.forall_mem_cons.mpr ⟨there.2, before⟩)
      session.settings.mode session.settings.strategy (session.settings.limit session.horizon) 0
      [(0, t)] ⟨below, closed⟩ (List.forall_mem_singleton.mpr closed)
    exact ⟨run.1.2, run.2⟩
  · have run := runFrom_keeps (P := fun supply t => t.Below supply ∧ t.freeNames = [])
      (Q := fun _ _ => True) kept (fun (_ : Unit) _ _ => ()) (fun _ _ => trivial)
      (fun _ _ _ => trivial) session.settings.mode session.settings.strategy
      (session.settings.limit session.horizon) 0 () ⟨below, closed⟩ trivial
    exact ⟨run.1.2, List.forall_mem_nil _⟩

/-! ### Replies -/

section Replies

variable (known : Sealed session)

include known

theorem Sealed.resolved {body : Expr} {t : Term × Nat}
    (resolved : resolveTerm session.context session.settings body session.supply = .ok t) :
    t.1.Below t.2 ∧ t.1.freeNames = [] :=
  ⟨(resolveTerm_below known.below resolved).2,
    resolveTerm_closed known.strict known.definitions known.below resolved⟩

theorem Sealed.reduceExpr {body : Expr} {course : Course}
    (reduced : session.reduceExpr body = .ok (next, course)) :
    Sealed next ∧ ∀ t ∈ course.terms, t.freeNames = [] := by
  obtain ⟨request, settled⟩ := reduceExpr_request reduced
  obtain ⟨t, resolved, rfl, _⟩ := reduceExpr_eq_ok_iff.mp reduced
  obtain ⟨below, closed⟩ := known.resolved resolved
  have strict : Strict next.settings := by
    rw [settled]
    exact known.strict
  exact ⟨known.request request strict, session.reduce_closed below closed⟩

theorem Sealed.run {statement : Statement} {outcome : Outcome}
    (ran : session.run statement = .ok (next, outcome)) :
    Sealed next ∧ ∀ t ∈ outcome.terms, t.freeNames = [] := by
  cases statement with
  | term body =>
      obtain ⟨reduced, inBody, returned⟩ := Except.exists_of_bind ran
      cases returned
      exact known.reduceExpr inBody
  | define name body =>
      obtain ⟨t, resolved, returned⟩ := Except.exists_of_bind ran
      cases returned
      have request := Request.definition resolved
      exact ⟨known.request request known.strict, (known.closed_of_request request).2⟩

theorem Sealed.runAll (statements : List Statement) :
    ∀ t ∈ (session.runAll statements).terms, t.freeNames = [] := by
  induction statements generalizing session with
  | nil => exact List.forall_mem_nil _
  | cons statement statements ih =>
      rw [Session.runAll]
      cases ran : session.run statement with
      | error error => exact List.forall_mem_nil _
      | ok result =>
          obtain ⟨later, first⟩ := known.run ran
          intro t member
          rcases List.mem_append.mp member with inFirst | inRest
          · exact first t inFirst
          · exact ih later t inRest

theorem Sealed.stepExpr {body : Expr} {stepping : Stepping}
    (stepped : session.stepExpr body = .ok (next, stepping)) :
    ∀ t ∈ stepping.terms, t.freeNames = [] := by
  obtain ⟨t, resolved, rfl, _⟩ := stepExpr_eq_ok_iff.mp stepped
  obtain ⟨below, closed⟩ := known.resolved resolved
  refine List.forall_mem_cons.mpr ⟨closed, fun u member => ?_⟩
  obtain ⟨taken, found, rfl⟩ := Option.map_eq_some_iff.mp (Option.mem_toList.mp member)
  exact (Contracts.of_step? found).closed below closed

theorem Sealed.compareExprs (left right : Expr) :
    ∀ t ∈ (session.compareExprs left right).terms, t.freeNames = [] := by
  unfold Session.compareExprs
  cases leftReduced : session.reduceExpr left with
  | error error => exact List.forall_mem_nil _
  | ok result =>
      obtain ⟨between, lefts⟩ := known.reduceExpr leftReduced
      dsimp only
      cases rightReduced : result.1.reduceExpr right with
      | error error =>
          change ∀ t ∈ result.2.terms ++ [], t.freeNames = []
          rw [List.append_nil]
          exact lefts
      | ok last =>
          change ∀ t ∈ result.2.terms ++ (last.2.terms ++ []), t.freeNames = []
          rw [List.append_nil]
          exact List.forall_mem_append.mpr ⟨lefts, (between.reduceExpr rightReduced).2⟩

theorem Sealed.evaluate (source : String) : (session.evaluate source).Closed := by
  unfold Session.evaluate
  split
  · exact .silence session _
  · exact ⟨_, .program _ source, known.runAll _⟩

theorem Sealed.step (source : String) : (session.step source).Closed := by
  unfold Session.step
  split
  · rename_i next stepping stepped
    obtain ⟨body, _, inBody⟩ := Except.exists_of_bind stepped
    exact ⟨_, .step next stepping, known.stepExpr inBody⟩
  · exact .silence session _

theorem Sealed.equal (source : String) : (session.equal source).Closed := by
  unfold Session.equal
  split
  · exact .silence session _
  · exact ⟨_, .comparison _ source _ _, known.compareExprs _ _⟩
  · exact .silence session _

theorem Sealed.loaded (path : String) (contents : FileText) :
    (session.loaded path contents).Closed := by
  cases contents with
  | error reason => exact ⟨[], .failedLoading _ (.silence session .next), List.forall_mem_nil _⟩
  | ok source =>
      obtain ⟨terms, readsOff, closed⟩ := known.evaluate source
      refine ⟨terms, ?_, closed⟩
      unfold Session.loaded evaluateFile
      dsimp only
      cases (session.evaluate source).ending with
      | failed source error => exact .failedLoading _ readsOff
      | next => exact .loading readsOff
      | quit => exact .loading readsOff

end Replies

/-! ### Strict sessions -/

def AnswersStrictly (session : Session) (built : List Term) (next : Session) : Prop :=
  Answers session built next ∧ Strict next.settings

theorem history_of_strict_inputs {start : Session} (strict : Strict start.settings)
    (answered : Inputs AnswersStrictly start built session) :
    HistoryUnder Strict start built session := by
  induction answered with
  | nothing => exact .nothing strict
  | next _ answer ih =>
      refine ih.trans (answer.1.history.mono ?_)
      rintro settings (rfl | rfl)
      · exact ih.atEnd
      · exact answer.2

/-- Strict sessions are closed. In a session that is opened with strict settings, with or without
the prelude, and given any inputs that leave them strict, no definition has a free variable, nor has
any term of the prelude, any term that the inputs have built, any term that is requested later, as
long as undefined names are refused, or any term that a reduction of one of them passes or ends in,
in any mode and by any strategy. The next evaluation, step, comparison or file is answered with what
is read off such terms. -/
theorem strict_sessions_are_closed {settings : Settings} (strict : settings.strict = true)
    {withPrelude : Bool} {start session : Session} {built : List Term}
    (opened : Shell.openSession settings withPrelude = .ok start)
    (answered : Inputs AnswersStrictly start built session) :
    (∃ loaded, HistoryUnder Strict (Session.initial settings) (loaded ++ built) session ∧
      ∀ requested later, HistoryUnder Strict session requested later →
        ∀ t, t ∈ loaded ++ built ++ requested ∨ (∃ name, (name, t) ∈ later.context.entries) →
          t.freeNames = [] ∧ t.Below later.supply ∧
          ∀ supply, t.Below supply → ∀ mode strategy limit,
            let run := watched mode strategy limit t supply
            run.1.term.freeNames = [] ∧ ∀ u ∈ run.2, u.freeNames = []) ∧
    (∀ command ∈ [Command.evaluate, .step, .equal], ∀ argument,
      ∃ reply, session.execute command argument = .reply reply ∧ reply.Closed) ∧
    ∀ path contents, (session.loaded path contents).Closed := by
  obtain ⟨loaded, settled⟩ := openSession_settled opened
  have opening : HistoryUnder Strict (Session.initial settings) loaded start := by
    refine settled.mono fun other same => ?_
    rw [Strict, same]
    exact strict
  have known := opening.trans (history_of_strict_inputs opening.atEnd answered)
  have here := ((Sealed.initial strict).history known).1
  refine ⟨⟨loaded, known, fun requested later continued t source => ?_⟩,
    fun command among argument => ?_, here.loaded⟩
  · have under := known.trans continued
    have closed := (Sealed.initial strict).history under
    have unique : Unique later (loaded ++ built ++ requested) :=
      (Unique.initial settings).history under.history
    have free : t.freeNames = [] := by
      rcases source with member | ⟨name, member⟩
      · exact closed.2 t member
      · exact closed.1.definitions (name, t) member
    have clean : t.Clean later.supply := by
      rcases source with member | ⟨name, member⟩
      · exact unique.terms t member
      · exact unique.definitions (name, t) member
    exact ⟨free, clean.below, fun supply below => watched_closed below free⟩
  · simp only [List.mem_cons, List.not_mem_nil, or_false] at among
    rcases among with rfl | rfl | rfl
    · exact ⟨_, rfl, here.evaluate argument⟩
    · exact ⟨_, rfl, here.step argument⟩
    · exact ⟨_, rfl, here.equal argument⟩

/-- A definition that is refused, one that is not, and a single step of what it defines. -/
theorem strict_session_after_a_refusal :
    let settings : Settings := { strict := true }
    let double (id : Nat) : Term := .abs ⟨"x", id⟩ (.app (.var ⟨"x", id⟩) (.var ⟨"x", id⟩))
    let session : Session := { initial settings with context := ⟨[("w", double 0)]⟩, supply := 2 }
    Inputs AnswersStrictly (initial settings) [double 0, double 1] session ∧
      (double 1).freeNames = [] ∧
      (∀ mode strategy limit, let run := watched mode strategy limit (double 1) 2
        run.1.term.freeNames = [] ∧ ∀ u ∈ run.2, u.freeNames = []) ∧
      ∃ reply, session.execute .equal "w w; w" = .reply reply ∧ reply.Closed := by
  intro settings double session
  let defined : Session := { initial settings with context := ⟨[("w", double 0)]⟩, supply := 1 }
  have opened : Shell.openSession settings false = .ok (initial settings) := rfl
  have refusal : AnswersStrictly (initial settings) [] (initial settings) :=
    ⟨.line (show (initial settings).respond "v := λx.y" = .reply _ from rfl), rfl⟩
  have definition : AnswersStrictly (initial settings) [double 0] defined :=
    ⟨.line (show (initial settings).respond "w := λx.x x" = .reply _ from rfl), rfl⟩
  have step : AnswersStrictly defined [double 1] session :=
    ⟨.line (show defined.respond ":step w" = .reply _ from rfl), rfl⟩
  have answered : Inputs AnswersStrictly (initial settings) [double 0, double 1] session :=
    ((Inputs.nothing.next refusal).next definition).next step
  obtain ⟨⟨loaded, _, closed⟩, replies, _⟩ := strict_sessions_are_closed rfl opened answered
  have member : double 1 ∈ loaded ++ [double 0, double 1] ++ [] := by simp
  obtain ⟨free, _, runs⟩ := closed [] session (.nothing rfl) (double 1) (Or.inl member)
  exact ⟨answered, free, fun mode strategy limit => runs 2 (by decide) mode strategy limit,
    replies .equal (by decide) "w w; w"⟩

end Session

end UntypedLambda
