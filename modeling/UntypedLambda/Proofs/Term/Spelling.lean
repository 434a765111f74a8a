import UntypedLambda.Proofs.Surface.Grammar
import UntypedLambda.Proofs.Surface.Scanning
import UntypedLambda.Proofs.Term.Identities
import UntypedLambda.Term.Display

set_option autoImplicit false

/-! The text of a term as source text. Its tokens are known, and the grammar reads from them an
expression in which nested abstractions have become one abstraction of several binders. -/

namespace UntypedLambda.Term

open Surface

/-! ### The tokens of a text -/

def grouped (tokens : List Token) : List Token :=
  .symbol .leftParen :: (tokens ++ [.symbol .rightParen])

def functionTokens (function : Term) (tokens : List Token) : List Token :=
  match function with
  | .abs _ _ => grouped tokens
  | _ => tokens

def argumentTokens (argument : Term) (tokens : List Token) : List Token :=
  match argument with
  | .var _ => tokens
  | _ => grouped tokens

/-- The tokens of a term that is no abstraction. In the head of an abstraction a dot precedes
them. -/
def afterHead (inHead : Bool) (tokens : List Token) : List Token :=
  if inHead then .symbol .dot :: tokens else tokens

/-- The tokens of a term whose variables are shown by `nameOf`. With `inHead` they continue the
binders of an abstraction. -/
def spelling (nameOf : Var → String) : Bool → Term → List Token
  | inHead, .var v => afterHead inHead [.ident (nameOf v)]
  | true, .abs binder body => .ident (nameOf binder) :: spelling nameOf true body
  | false, .abs binder body =>
      .symbol .lambda :: .ident (nameOf binder) :: spelling nameOf true body
  | inHead, .app function argument =>
      afterHead inHead
        (functionTokens function (spelling nameOf false function) ++
          argumentTokens argument (spelling nameOf false argument))

/-! ### Scanning the text -/

def functionOnto (naming : Naming) (function : Term) (rest : List Char) : List Char :=
  match function with
  | .abs _ _ => '(' :: renderOnto naming false function (')' :: rest)
  | _ => renderOnto naming false function rest

def argumentOnto (naming : Naming) (argument : Term) (rest : List Char) : List Char :=
  match argument with
  | .var _ => ' ' :: renderOnto naming false argument rest
  | _ => ' ' :: '(' :: renderOnto naming false argument (')' :: rest)

theorem renderOnto_app (naming : Naming) (inHead : Bool) (function argument : Term)
    (rest : List Char) :
    renderOnto naming inHead (.app function argument) rest =
      if inHead then '.' :: functionOnto naming function (argumentOnto naming argument rest)
      else functionOnto naming function (argumentOnto naming argument rest) := by
  cases function <;> cases argument <;> rfl

section

variable {onto : List Char → List Char} {tokens : List Token} {settled : Bool}

theorem scans_grouped (scans : Scans true settled onto tokens) :
    Scans false true (fun rest => '(' :: onto (')' :: rest)) (grouped tokens) :=
  (Scans.symbol (by decide : Symbol.ofChar? '(' = some .leftParen)).append
    (scans.unsettled.append (Scans.symbol (by decide : Symbol.ofChar? ')' = some .rightParen)))

theorem scans_afterHead (scans : Scans true settled onto tokens) (inHead : Bool) :
    Scans (!inHead) settled (fun rest => if inHead then '.' :: onto rest else onto rest)
      (afterHead inHead tokens) := by
  cases inHead with
  | true => exact (Scans.symbol (by decide : Symbol.ofChar? '.' = some .dot)).append scans
  | false => exact scans

end

/-- The text of a term shown by identifiers scans as its tokens. -/
theorem scans_renderOnto {naming : Naming} {t : Term}
    (identifiers : ∀ v ∈ t.vars, isIdentifier (naming.nameOf v) = true) (inHead : Bool) :
    Scans (!inHead) false (renderOnto naming inHead t) (spelling naming.nameOf inHead t) := by
  induction t generalizing inHead with
  | var v =>
      exact scans_afterHead (Scans.identifier (identifiers v List.mem_cons_self)) inHead
  | abs binder body ih =>
      have inBody := ih (fun v member => identifiers v (List.mem_cons_of_mem _ member)) true
      have head := (Scans.identifier (identifiers binder List.mem_cons_self)).append inBody
      cases inHead with
      | true => exact Scans.blank.append head
      | false =>
          have lambda := Scans.symbol (by decide : Symbol.ofChar? 'λ' = some .lambda)
          exact (lambda.append head).of_relaxed
  | app function argument ihFunction ihArgument =>
      have inFunction := ihFunction
        (fun v member => identifiers v (List.mem_append_left _ member)) false
      have inArgument := ihArgument
        (fun v member => identifiers v (List.mem_append_right _ member)) false
      have ofFunction : Scans true false (functionOnto naming function)
          (functionTokens function (spelling naming.nameOf false function)) := by
        cases function with
        | var v => exact inFunction
        | abs binder body => exact (scans_grouped inFunction).of_relaxed.unsettled
        | app first second => exact inFunction
      have ofArgument : Scans false false (argumentOnto naming argument)
          (argumentTokens argument (spelling naming.nameOf false argument)) := by
        cases argument with
        | var v => exact Scans.blank.append inArgument
        | abs binder body => exact (Scans.blank.append (scans_grouped inArgument).of_relaxed).unsettled
        | app first second => exact (Scans.blank.append (scans_grouped inArgument).of_relaxed).unsettled
      have whole := scans_afterHead (ofFunction.append ofArgument) inHead
      rw [spelling, funext (renderOnto_app naming inHead function argument)]
      exact whole

/-! ### Reading the tokens -/

/-- The expression that the text of a term is read as, wherever its parts stand. The abstraction of
several binders is one expression. -/
inductive Spelled (nameOf : Var → String) : Term → Expr → Prop where
  | var (v : Var) (span place : Span) : Spelled nameOf (.var v) (.var span ⟨nameOf v, place⟩)
  | abs {vars : List Var} {body : Term} {binders : List Name} {e : Expr} (span : Span) :
      binders.map Located.value = vars.map nameOf → Spelled nameOf body e →
      Spelled nameOf (abstractions vars body) (.lam span binders e)
  | app {function argument : Term} {e e' : Expr} (span : Span) :
      Spelled nameOf function e → Spelled nameOf argument e' →
      Spelled nameOf (.app function argument) (.app span e e')

variable {nameOf : Var → String}

theorem Spelled.withSpan {t : Term} {e : Expr} (spelled : Spelled nameOf t e) (span : Span) :
    Spelled nameOf t (e.withSpan span) := by
  cases spelled with
  | var v _ place => exact .var v span place
  | abs _ names inBody => exact .abs span names inBody
  | app _ inFunction inArgument => exact .app span inFunction inArgument

/-- The tokens inside a bracket, given those around them by their values. -/
theorem exists_of_bracketed {opening closing : Symbol} {inner : List Token}
    {tokens : List (Located Token)}
    (values : tokens.map Located.value = .symbol opening :: (inner ++ [.symbol closing])) :
    ∃ first middle last, middle.map Located.value = inner ∧
      tokens = opening.at first :: (middle ++ [closing.at last]) := by
  obtain ⟨⟨_, first⟩, rest, rfl, rfl, inRest⟩ := List.map_eq_cons_iff.mp values
  obtain ⟨middle, ending, rfl, inside, atEnd⟩ := List.map_eq_append_iff.mp inRest
  obtain ⟨⟨_, last⟩, none, rfl, rfl, afterEnd⟩ := List.map_eq_cons_iff.mp atEnd
  rw [List.map_eq_nil_iff.mp afterEnd]
  exact ⟨first, middle, last, inside, rfl⟩

def Derives (nameOf : Var → String) (derivation : List (Located Token) → Expr → Prop)
    (tokens : List (Located Token)) (t : Term) : Prop :=
  ∃ e, Spelled nameOf t e ∧ derivation tokens e

theorem derives_grouped {t : Term} {inner : List Token}
    (derives : ∀ tokens, tokens.map Located.value = inner → Derives nameOf Phrase tokens t)
    {tokens : List (Located Token)} (values : tokens.map Located.value = grouped inner) :
    Derives nameOf Closed tokens t := by
  obtain ⟨first, middle, last, inside, rfl⟩ := exists_of_bracketed values
  obtain ⟨e, spelled, phrase⟩ := derives middle inside
  exact ⟨_, spelled.withSpan _, .group first last phrase⟩

def Continues (nameOf : Var → String) (tokens : List (Located Token)) (t : Term) : Prop :=
  ∃ (binders : List Name) (vars : List Var) (body : Term) (dot : Span)
    (rest : List (Located Token)), tokens = binders.map Name.token ++ Symbol.dot.at dot :: rest ∧
    t = abstractions vars body ∧ binders.map Located.value = vars.map nameOf ∧
    Derives nameOf Phrase rest body

theorem continues_afterHead {t : Term} {inner : List Token}
    (derives : ∀ tokens, tokens.map Located.value = inner → Derives nameOf Phrase tokens t)
    {tokens : List (Located Token)} (values : tokens.map Located.value = afterHead true inner) :
    Continues nameOf tokens t := by
  obtain ⟨⟨_, dot⟩, rest, rfl, rfl, inside⟩ := List.map_eq_cons_iff.mp values
  exact ⟨[], [], t, dot, rest, rfl, rfl, rfl, derives rest inside⟩

theorem continues_binder {binder : Var} {body : Term} {inner : List Token}
    (continues : ∀ tokens, tokens.map Located.value = inner → Continues nameOf tokens body)
    {tokens : List (Located Token)}
    (values : tokens.map Located.value = .ident (nameOf binder) :: inner) :
    Continues nameOf tokens (.abs binder body) := by
  obtain ⟨⟨_, span⟩, rest, rfl, rfl, inside⟩ := List.map_eq_cons_iff.mp values
  obtain ⟨binders, vars, body, dot, rest, rfl, rfl, names, derives⟩ := continues rest inside
  refine ⟨⟨nameOf binder, span⟩ :: binders, binder :: vars, body, dot, rest, rfl, rfl, ?_, derives⟩
  rw [List.map_cons, List.map_cons, names]

theorem derives_lambda {binder : Var} {body : Term} {inner : List Token}
    (continues : ∀ tokens, tokens.map Located.value = inner → Continues nameOf tokens body)
    {tokens : List (Located Token)}
    (values : tokens.map Located.value =
      .symbol .lambda :: .ident (nameOf binder) :: inner) :
    Derives nameOf Phrase tokens (.abs binder body) := by
  obtain ⟨⟨_, first⟩, rest, rfl, rfl, inRest⟩ := List.map_eq_cons_iff.mp values
  obtain ⟨⟨_, span⟩, rest, rfl, rfl, inside⟩ := List.map_eq_cons_iff.mp inRest
  obtain ⟨binders, vars, body, dot, rest, rfl, rfl, names, e, spelled, phrase⟩ :=
    continues rest inside
  have whole : ((⟨nameOf binder, span⟩ : Name) :: binders).map Located.value =
      (binder :: vars).map nameOf := by
    rw [List.map_cons, List.map_cons, names]
  have spelled' : Spelled nameOf (abstractions (binder :: vars) _) _ :=
    .abs ⟨first.start, e.span.stop⟩ whole spelled
  exact ⟨_, spelled', .abstraction (.over first dot ⟨nameOf binder, span⟩ binders phrase)⟩

structure Readable (nameOf : Var → String) (t : Term) : Prop where
  phrase : ∀ tokens : List (Located Token), tokens.map Located.value = spelling nameOf false t →
    Derives nameOf Phrase tokens t
  application : (∀ binder body, t ≠ .abs binder body) →
    ∀ tokens : List (Located Token), tokens.map Located.value = spelling nameOf false t →
    Derives nameOf Application tokens t
  continues : ∀ tokens : List (Located Token), tokens.map Located.value = spelling nameOf true t →
    Continues nameOf tokens t

theorem Readable.of_application {t : Term} {inner : List Token}
    (spelled : ∀ inHead, spelling nameOf inHead t = afterHead inHead inner)
    (application : ∀ tokens : List (Located Token), tokens.map Located.value = inner →
      Derives nameOf Application tokens t) : Readable nameOf t := by
  have phrase (tokens : List (Located Token)) (values : tokens.map Located.value = inner) :
      Derives nameOf Phrase tokens t := by
    obtain ⟨e, spelledBy, derivation⟩ := application tokens values
    exact ⟨e, spelledBy, .application derivation⟩
  refine ⟨?_, fun _ => ?_, ?_⟩
  · rw [spelled]
    exact phrase
  · rw [spelled]
    exact application
  · rw [spelled]
    exact fun tokens values => continues_afterHead phrase values

theorem derives_var {v : Var} {tokens : List (Located Token)}
    (values : tokens.map Located.value = [.ident (nameOf v)]) :
    Derives nameOf Closed tokens (.var v) := by
  obtain ⟨⟨_, span⟩, rest, rfl, rfl, atEnd⟩ := List.map_eq_cons_iff.mp values
  rw [List.map_eq_nil_iff.mp atEnd]
  exact ⟨_, .var v span span, .ident ⟨nameOf v, span⟩⟩

theorem Derives.application {tokens : List (Located Token)} {t : Term}
    (derives : Derives nameOf Closed tokens t) : Derives nameOf Application tokens t := by
  obtain ⟨e, spelled, closed⟩ := derives
  exact ⟨e, spelled, .head closed⟩

theorem Readable.function {function : Term} (readable : Readable nameOf function)
    {tokens : List (Located Token)}
    (values : tokens.map Located.value =
      functionTokens function (spelling nameOf false function)) :
    Derives nameOf Application tokens function := by
  cases function with
  | var v => exact readable.application (fun _ _ => nofun) tokens values
  | abs binder body => exact (derives_grouped readable.phrase values).application
  | app first second => exact readable.application (fun _ _ => nofun) tokens values

theorem Readable.argument {argument : Term} (readable : Readable nameOf argument)
    {tokens : List (Located Token)}
    (values : tokens.map Located.value =
      argumentTokens argument (spelling nameOf false argument)) :
    Derives nameOf Closed tokens argument := by
  cases argument with
  | var v => exact derives_var values
  | abs binder body => exact derives_grouped readable.phrase values
  | app first second => exact derives_grouped readable.phrase values

/-- The tokens of a term derive an expression for it. -/
theorem readable (nameOf : Var → String) (t : Term) : Readable nameOf t := by
  induction t with
  | var v =>
      exact .of_application (fun inHead => by rw [spelling])
        (fun tokens values => (derives_var values).application)
  | abs binder body ih =>
      refine ⟨?_, fun other => absurd rfl (other binder body), ?_⟩
      · exact fun tokens values => derives_lambda ih.continues values
      · exact fun tokens values => continues_binder ih.continues values
  | app function argument ihFunction ihArgument =>
      refine .of_application (fun inHead => by rw [spelling]) (fun tokens values => ?_)
      obtain ⟨first, second, rfl, inFirst, inSecond⟩ := List.map_eq_append_iff.mp values
      obtain ⟨e, spelled, derivation⟩ := ihFunction.function inFirst
      obtain ⟨e', spelled', derivation'⟩ := ihArgument.argument inSecond
      exact ⟨_, .app _ spelled spelled', .apply derivation derivation'⟩

/-- The text of a term that is shown by identifiers is read as an expression that spells it. -/
theorem parseTerm_render {t : Term}
    (identifiers : ∀ v ∈ t.vars, isIdentifier (t.naming.nameOf v) = true) :
    ∃ e, parseTerm t.render = .ok e ∧ Spelled t.naming.nameOf t e := by
  obtain ⟨tokens, tokenized, values⟩ := (scans_renderOnto identifiers false).tokenize
  obtain ⟨e, spelled, phrase⟩ := (readable t.naming.nameOf t).phrase tokens values
  refine ⟨e, ?_, spelled⟩
  simp only [parseTerm, render, tokenized, bind, Except.bind]
  exact phrase.readExpr _

end UntypedLambda.Term
