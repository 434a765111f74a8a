import UntypedLambda.Proofs.Matching.Relabel
import UntypedLambda.Proofs.Matching.Session
import UntypedLambda.Proofs.Session.Supply

set_option autoImplicit false

/-! Sessions whose definitions differ by a renaming of identities. No reply depends on the
identities in use, nor on how many the session has issued. -/

namespace UntypedLambda

open Surface

def Context.identities (context : Context) : Set Nat :=
  {id | ∃ name t, context.find? name = some t ∧ ∃ v ∈ t.vars, v.id = id}

namespace Session

/-- Sessions that a renaming of identities tells apart, one to one over all their definitions, and
that may have issued other numbers of identities. -/
structure Alike (session other : Session) : Prop where
  settings : session.settings = other.settings
  horizon : session.horizon = other.horizon
  below : session.context.Below session.supply
  otherBelow : other.context.Below other.supply
  relabeled : ∃ f : Nat → Nat, Set.InjOn f session.context.identities ∧
    ∀ name, other.context.find? name = (session.context.find? name).map (Term.relabel f)

variable {session other : Session}

/-- What corresponds in sessions that a renaming tells apart: the identities in use to their images,
and the identities that are issued next to one another. -/
def Corresponds (session other : Session) (f : Nat → Nat) (id id' : Nat) : Prop :=
  (id ∈ session.context.identities ∧ id' = f id) ∨
    ∃ issued, id = session.supply + issued ∧ id' = other.supply + issued

theorem lt_of_mem_identities {context : Context} {supply id : Nat} (below : context.Below supply)
    (used : id ∈ context.identities) : id < supply := by
  obtain ⟨name, t, found, v, member, rfl⟩ := used
  exact below.find? found v member

theorem mem_identities_of_relabeled {f : Nat → Nat} {id : Nat}
    (relabeled : ∀ name, other.context.find? name =
      (session.context.find? name).map (Term.relabel f))
    (used : id ∈ session.context.identities) : f id ∈ other.context.identities := by
  obtain ⟨name, t, found, v, member, rfl⟩ := used
  refine ⟨name, t.relabel f, by rw [relabeled, found, Option.map_some], v.withId (f v.id), ?_, rfl⟩
  rw [Term.vars_relabel]
  exact List.mem_map_of_mem member

theorem Alike.exists_matches (alike : session.Alike other) :
    ∃ R, Relator.BiUnique R ∧ session.Matches R other := by
  obtain ⟨settings, horizon, below, otherBelow, f, injective, relabeled⟩ := alike
  have old {id : Nat} (used : id ∈ session.context.identities) : id < session.supply :=
    lt_of_mem_identities below used
  have image {id : Nat} (used : id ∈ session.context.identities) : f id < other.supply :=
    lt_of_mem_identities otherBelow (mem_identities_of_relabeled relabeled used)
  refine ⟨Corresponds session other f, ⟨?_, ?_⟩, settings, horizon, fun name => ?_, ?_⟩
  · rintro first second id' (⟨used, rfl⟩ | ⟨issued, rfl, rfl⟩)
      (⟨used', same⟩ | ⟨issued', rfl, same⟩)
    · exact injective used used' same
    · have bound := image used
      omega
    · have bound := image used'
      omega
    · omega
  · rintro id first second (⟨used, rfl⟩ | ⟨issued, rfl, rfl⟩) (⟨used', rfl⟩ | ⟨issued', same, rfl⟩)
    · rfl
    · have bound := old used
      omega
    · have bound := old used'
      omega
    · omega
  · rw [relabeled]
    cases found : session.context.find? name with
    | none => exact .none
    | some t =>
        refine .some (Term.matches_relabel fun v member => Or.inl ⟨?_, rfl⟩)
        exact ⟨name, t, found, v, member, rfl⟩
  · exact fun issued => Or.inr ⟨issued, rfl, rfl⟩

theorem Matches.alike {R : Nat → Nat → Prop} (one : Relator.BiUnique R)
    (sessions : session.Matches R other) (below : session.context.Below session.supply)
    (otherBelow : other.context.Below other.supply) : session.Alike other := by
  classical
  let f (id : Nat) : Nat := if paired : ∃ id', R id id' then paired.choose else 0
  have image (id id' : Nat) (ids : R id id') : f id = id' := by
    have paired : ∃ id', R id id' := ⟨id', ids⟩
    have chosen : f id = paired.choose := dif_pos paired
    rw [chosen]
    exact one.2 paired.choose_spec ids
  have paired {id : Nat} (used : id ∈ session.context.identities) : R id (f id) := by
    obtain ⟨name, t, found, v, member, rfl⟩ := used
    obtain ⟨none, _⟩ | ⟨_, _, some, _, terms⟩ := Option.rel_cases (sessions.context name)
    · rw [found] at none
      cases none
    · rw [found] at some
      cases some
      obtain ⟨id', ids⟩ := terms.exists_of_mem_vars member
      rw [image _ _ ids]
      exact ids
  refine ⟨sessions.settings, sessions.horizon, below, otherBelow, f, ?_, fun name => ?_⟩
  · intro id used id' used' same
    have ids := paired used
    rw [same] at ids
    exact one.1 ids (paired used')
  · obtain ⟨none, none'⟩ | ⟨_, _, some, some', terms⟩ := Option.rel_cases (sessions.context name)
    · rw [none, none']
      rfl
    · rw [some, some', terms.eq_relabel image]
      rfl

/-! ### Replies -/

theorem Matches.execute {R : Nat → Nat → Prop} (one : Relator.BiUnique R)
    (sessions : session.Matches R other) {command : Command}
    (among : command ∈ [Command.evaluate, .step, .equal]) (argument : String) :
    ∃ reply reply', session.execute command argument = .reply reply ∧
      other.execute command argument = .reply reply' ∧ reply.Matches R reply' := by
  simp only [List.mem_cons, List.not_mem_nil, or_false] at among
  rcases among with rfl | rfl | rfl
  · exact ⟨_, _, rfl, rfl, sessions.evaluate one argument⟩
  · exact ⟨_, _, rfl, rfl, sessions.step one argument⟩
  · exact ⟨_, _, rfl, rfl, sessions.equal one argument⟩

theorem execute_below {command : Command} {argument : String} {reply : Reply}
    (executed : session.execute command argument = .reply reply)
    (below : session.context.Below session.supply) :
    reply.session.context.Below reply.session.supply := by
  exact (execute_history executed).history.definitions_below below

/-! ### Inputs made of terms only -/

theorem reduceExpr_keeps {after : Session} {body : Expr} {course : Course}
    (reduced : session.reduceExpr body = .ok (after, course)) :
    after = { session with supply := after.supply } := by
  obtain ⟨t, _, _, rfl⟩ := reduceExpr_eq_ok_iff.mp reduced
  rfl

theorem runAll_keeps (statements : List Statement)
    (terms : ∀ statement ∈ statements, ∃ body, statement = .term body) :
    (session.runAll statements).session =
      { session with supply := (session.runAll statements).session.supply } := by
  induction statements generalizing session with
  | nil => rfl
  | cons statement statements ih =>
      obtain ⟨body, rfl⟩ := terms statement List.mem_cons_self
      rw [runAll]
      cases ran : session.run (.term body) with
      | error error => rfl
      | ok result =>
          obtain ⟨reduced, inBody, returned⟩ := Except.exists_of_bind ran
          cases returned
          dsimp only
          rw [ih fun statement member => terms statement (List.mem_cons_of_mem _ member),
            reduceExpr_keeps inBody]

theorem stepExpr_keeps {after : Session} {body : Expr} {stepping : Stepping}
    (stepped : session.stepExpr body = .ok (after, stepping)) :
    after = { session with supply := after.supply } := by
  obtain ⟨t, _, _, rfl⟩ := stepExpr_eq_ok_iff.mp stepped
  rfl

theorem compareExprs_keeps (left right : Expr) :
    (session.compareExprs left right).session =
      { session with supply := (session.compareExprs left right).session.supply } := by
  unfold compareExprs
  cases leftReduced : session.reduceExpr left with
  | error error => rfl
  | ok result =>
      have first := reduceExpr_keeps leftReduced
      dsimp only
      cases rightReduced : result.1.reduceExpr right with
      | error error => exact first
      | ok last =>
          have second := reduceExpr_keeps rightReduced
          rw [first] at second
          exact second

/-- Without definitions nothing but the supply changes. -/
theorem execute_keeps {command : Command} (among : command ∈ [Command.evaluate, .step, .equal])
    {argument : String} {reply : Reply}
    (terms : command = .evaluate → ∀ statements, parseProgram argument = .ok statements →
      ∀ statement ∈ statements, ∃ body, statement = .term body)
    (executed : session.execute command argument = .reply reply) :
    reply.session = { session with supply := reply.session.supply } := by
  simp only [List.mem_cons, List.not_mem_nil, or_false] at among
  rcases among with rfl | rfl | rfl
  · cases executed
    unfold evaluate
    cases parsed : parseProgram argument with
    | error error => rfl
    | ok statements => exact session.runAll_keeps statements (terms rfl statements parsed)
  · cases executed
    unfold step
    split
    · rename_i after stepping stepped
      obtain ⟨body, _, inBody⟩ := Except.exists_of_bind stepped
      exact stepExpr_keeps inBody
    · rfl
  · cases executed
    unfold equal
    split
    · rfl
    · rw [Comparison.reply_session]
      exact compareExprs_keeps _ _
    · rfl

theorem alike_of_supply (below : session.context.Below session.supply) {supply : Nat}
    (otherBelow : session.context.Below supply) :
    session.Alike { session with supply := supply } := by
  refine ⟨rfl, rfl, below, otherBelow, id, Set.injOn_id _, fun name => ?_⟩
  rw [Term.relabel_id, Option.map_id]
  rfl

/-- Replies do not depend on the identities in use, nor on the supply. Sessions that differ in these
only reply to an evaluation, a step or a comparison with the same text and the same ending, and go
on as sessions that differ in these only. An input made of terms only has the same reply when it is
repeated. -/
theorem replies_ignore_identities (alike : session.Alike other) {command : Command}
    (among : command ∈ [Command.evaluate, .step, .equal]) (argument : String) :
    ∃ reply reply', session.execute command argument = .reply reply ∧
      other.execute command argument = .reply reply' ∧
      reply.transcript = reply'.transcript ∧ reply.ending = reply'.ending ∧
      reply.session.Alike reply'.session ∧
      ((command = .evaluate → ∀ statements, parseProgram argument = .ok statements →
          ∀ statement ∈ statements, ∃ body, statement = .term body) →
        ∃ again, reply.session.execute command argument = .reply again ∧
          again.transcript = reply.transcript ∧ again.ending = reply.ending) := by
  obtain ⟨R, one, sessions⟩ := alike.exists_matches
  obtain ⟨reply, reply', executed, executed', replies⟩ := sessions.execute one among argument
  have below := execute_below executed alike.below
  have otherBelow := execute_below executed' alike.otherBelow
  refine ⟨reply, reply', executed, executed', replies.transcript, replies.ending,
    replies.session.alike one below otherBelow, fun terms => ?_⟩
  -- The repeated input meets the same session with a later supply.
  have same := execute_keeps among terms executed
  rw [same] at below
  have later : session.Alike reply.session := by
    rw [same]
    exact alike_of_supply alike.below below
  obtain ⟨S, oneToOne, repeated⟩ := later.exists_matches
  obtain ⟨first, again, executedFirst, executedAgain, repeats⟩ :=
    repeated.execute oneToOne among argument
  rw [executed] at executedFirst
  cases executedFirst
  exact ⟨again, executedAgain, repeats.transcript.symm, repeats.ending.symm⟩

/-- The definition has another identity, and more identities have been issued. -/
theorem reply_with_other_identities :
    let double (id : Nat) : Term := .abs ⟨"x", id⟩ (.app (.var ⟨"x", id⟩) (.var ⟨"x", id⟩))
    let session : Session := { initial {} with context := ⟨[("w", double 0)]⟩, supply := 1 }
    let other : Session := { initial {} with context := ⟨[("w", double 7)]⟩, supply := 12 }
    ∃ reply reply', session.execute .evaluate "f := λx.w x; λx.w f" = .reply reply ∧
      other.execute .evaluate "f := λx.w x; λx.w f" = .reply reply' ∧
      reply.transcript = reply'.transcript ∧ reply.session.Alike reply'.session := by
  intro double session other
  have relabeled (name : String) : other.context.find? name =
      (session.context.find? name).map (Term.relabel (· + 7)) := by
    by_cases named : name = "w"
    · subst named
      rfl
    · have elsewhere : (name == "w") = false := beq_eq_false_iff_ne.mpr named
      simp only [session, other, Context.find?, List.lookup_cons, elsewhere]
      rfl
  have alike : session.Alike other := ⟨rfl, rfl, by decide, by decide, (· + 7),
    (add_left_injective 7).injOn, relabeled⟩
  obtain ⟨reply, reply', executed, executed', text, _, after, _⟩ :=
    replies_ignore_identities alike List.mem_cons_self "f := λx.w x; λx.w f"
  exact ⟨reply, reply', executed, executed', text, after⟩

end Session

end UntypedLambda
