import UntypedLambda.Proofs.Encoding.Decoding
import UntypedLambda.Proofs.Prelude.Reduction
import UntypedLambda.Proofs.Term.Completion

set_option autoImplicit false

/-! Arithmetic with the prelude. Runs of calls of its functions with numbers end, whether or not
they contract eta redexes, and what they end in decodes to the result. -/

namespace UntypedLambda

open Surface Term Relation

/-! ### Calls -/

namespace Surface.Expr

def named (text : String) : Expr :=
  .var default ⟨text, default⟩

def number (value : Nat) : Expr :=
  .nat default value

def call (function : String) (arguments : List Expr) : Expr :=
  arguments.foldl (.app default) (named function)

end Surface.Expr

/-- An expression is resolved, and runs of the result in normal order that contract beta redexes,
and perhaps eta redexes, end in terms with the outcome. -/
def Evaluates (context : Context) (settings : Settings) (e : Expr) (supply : Nat)
    (outcome : Term → Prop) : Prop :=
  ∃ t left, resolveTerm context settings e supply = .ok (t, left) ∧
    ∀ mode ∈ [Mode.beta, Mode.both], ∀ later, left ≤ later →
      ∃ result, Ends mode .leftmostOutermost t later result ∧ outcome result.term

namespace Prelude

section Evaluation

variable {known : List (String × Nameless String)} {context : Context} {supply : Nat}
  {settings : Settings} {e plain : Expr} {later : Nat}

/-- What the translation of an expression reduces to, runs of it come to. -/
theorem evaluates_of_reduces (knows : Knows known context supply) (le : supply ≤ later)
    (alike : e.bare = plain)
    (defined : settings.strict = true →
      ∀ occurrence ∈ plain.occurrences, (known.lookup occurrence.value).isSome = true)
    {target : Nameless String}
    (steps : Nameless.Reduces Nameless.betaRoot?
      (plain.translate (fun name => known.lookup name) []) target)
    (normal : Nameless.Normal target) {outcome : Term → Prop}
    (good : ∀ t : Term, t.Unshadowed →
      Nameless.Reduces Nameless.etaRoot? target t.namelessByName → outcome t) :
    Evaluates context settings e later outcome := by
  obtain ⟨t, left, resolved, _, clean, reads⟩ :=
    exists_resolveTerm (knows.mono le) settings alike defined
  rw [← reads] at steps
  refine ⟨t, left, resolved, fun mode selected still le => ?_⟩
  have contractsBeta : mode ≠ .eta := by
    rintro rfl
    simp at selected
  have clean := clean.mono le
  obtain ⟨result, ends, reduced⟩ := exists_end_of_reduces contractsBeta clean.below steps normal
  exact ⟨result, ends, good result.term (ends.clean clean).unshadowed reduced⟩

end Evaluation

def operations (m n : Nat) : List (Expr × Nat) :=
  [(.call "succ" [.number n], n + 1), (.call "pred" [.number n], n - 1),
    (.call "add" [.number m, .number n], m + n), (.call "mul" [.number m, .number n], m * n),
    (.call "sub" [.number m, .number n], m - n)]

theorem operations_reduce (m n : Nat) :
    ∀ operation ∈ operations m n, Nameless.Reduces Nameless.betaRoot?
      (operation.1.translate (fun name => dictionary.lookup name) [])
      (Nameless.numeral operation.2) := by
  simp only [operations, List.forall_mem_cons, List.not_mem_nil, false_implies, implies_true,
    and_true]
  exact ⟨successor_reduces n, predecessor_reduces n, addition_reduces m n,
    multiplication_reduces m n, subtraction_reduces m n⟩

theorem operations_defined (m n : Nat) :
    ∀ operation ∈ operations m n, ∀ occurrence ∈ operation.1.occurrences,
      (dictionary.lookup occurrence.value).isSome = true := by
  simp only [operations, List.forall_mem_cons, List.not_mem_nil, false_implies, implies_true,
    and_true]
  simp only [Expr.call, Expr.named, Expr.number, List.foldl_cons, List.foldl_nil, Expr.occurrences,
    List.append_nil, List.forall_mem_cons, List.not_mem_nil, false_implies, implies_true, and_true]
  decide

theorem operation_evaluates {context : Context} {supply later : Nat} {settings : Settings}
    (knows : Knows dictionary context supply) (le : supply ≤ later) {m n : Nat}
    {operation : Expr × Nat} (listed : operation ∈ operations m n) {e : Expr}
    (alike : e.bare = operation.1) :
    Evaluates context settings e later fun t => Encoding.asNumeral? t = some operation.2 := by
  refine evaluates_of_reduces knows le alike (fun _ => operations_defined m n operation listed)
    (operations_reduce m n operation listed) (Nameless.normal_numeral _) ?_
  intro t unshadowed reduced
  exact (Encoding.asNumeral?_eq_some_iff unshadowed _).mpr
    (Nameless.eta_reduct_of_numeral reduced)

def choice (n : Nat) (a b : String) : Expr :=
  .call "if" [.call "iszero" [.number n], .named a, .named b]

section Choice

variable {context : Context} {supply later n : Nat} {settings : Settings} {a b : String} {e : Expr}

theorem choice_reduces (freeA : dictionary.lookup a = none) (freeB : dictionary.lookup b = none) :
    Nameless.Reduces Nameless.betaRoot?
      ((choice n a b).translate (fun name => dictionary.lookup name) [])
      (.free (if n = 0 then a else b)) := by
  have translated : (choice n a b).translate (fun name => dictionary.lookup name) [] =
      Nameless.applications conditional
        [.app zeroTest (Nameless.numeral n), .free a, .free b] := by
    simp [choice, Expr.call, Expr.named, Expr.number, Expr.translate,
      freeA, freeB]
    rfl
  rw [translated, apply_ite Nameless.free]
  exact (conditional_zeroTest_reduces n (.free a) (.free b)).reduces

/-- Where names without a meaning are allowed, a choice comes to one of them. -/
theorem choice_evaluates (knows : Knows dictionary context supply) (le : supply ≤ later)
    (freeA : dictionary.lookup a = none) (freeB : dictionary.lookup b = none)
    (lenient : settings.strict = false) (alike : e.bare = choice n a b) :
    Evaluates context settings e later fun t =>
      ∃ id, t = .var ⟨if n = 0 then a else b, id⟩ := by
  refine evaluates_of_reduces knows le alike (by simp [lenient]) (choice_reduces freeA freeB)
    (Nameless.normal_free _) ?_
  intro t _ reduced
  have reads := Nameless.eta_reduct_of_free reduced
  cases t with
  | var v =>
      change (Term.var v).readByName [] = _ at reads
      rw [Resolution.readByName_var_of_unbound (by simp), Nameless.free.injEq] at reads
      exact ⟨v.id, by rw [← reads]⟩
  | abs binder body => cases reads
  | app function argument => cases reads

/-- Where they are not allowed, the first of them is refused. -/
theorem choice_refused (knows : Knows dictionary context supply)
    (freeA : dictionary.lookup a = none) (strict : settings.strict = true)
    (alike : e.bare = choice n a b) :
    ∃ name : Name, name.value = a ∧
      resolveTerm context settings e later = .error (.undefinedVariable name) := by
  have known {text : String} (defined : (dictionary.lookup text).isSome = true) :
      Resolution.isUndefined context [] ⟨text, default⟩ = false :=
    isUndefined_eq_false knows defined
  have unknown : Resolution.isUndefined context [] ⟨a, default⟩ = true := by
    rw [Resolution.isUndefined, (contains_eq_false_iff knows).mpr freeA]
    rfl
  have refused : Except.error? (resolveTerm context settings e.bare later) =
      some (.undefinedVariable ⟨a, default⟩) := by
    rw [resolveTerm, Resolution.resolve_error?, alike, strict]
    simp [choice, Expr.call, Expr.named, Expr.number, Expr.occurrences, Resolution.refusal?,
      known (show (dictionary.lookup "if").isSome = true from rfl),
      known (show (dictionary.lookup "iszero").isSome = true from rfl), unknown]
  rw [resolveTerm_bare] at refused
  cases same : resolveTerm context settings e later with
  | ok result =>
      rw [same] at refused
      cases refused
  | error error =>
      rw [same] at refused
      cases error with
      | undefinedVariable name => exact ⟨name, by cases refused; rfl, rfl⟩
      | _ => cases refused

end Choice

/-- Arithmetic with the prelude is correct for all numbers. The prelude can be loaded, and in its
context calls of its functions are resolved and runs of them in normal order end, without a bound
and whether or not they contract eta redexes. What they end in decodes to the successor, the
predecessor, the sum, the product or the difference, and a choice by whether a number is zero ends
in one of its names, unless names without a meaning are refused. The places in the source make no
difference. -/
theorem arithmetic_is_correct (loading : Settings) (start : Nat) :
    ∃ context supply, load loading start = .ok (context, supply) ∧
      ∀ (settings : Settings) (later : Nat), supply ≤ later → ∀ (m n : Nat) (e : Expr),
        (∀ operation ∈ operations m n, e.bare = operation.1 →
          Evaluates context settings e later fun t =>
            Encoding.asNumeral? t = some operation.2) ∧
        ∀ a b, context.contains a = false → context.contains b = false →
          e.bare = choice n a b →
          (settings.strict = false →
            Evaluates context settings e later fun t =>
              ∃ id, t = .var ⟨if n = 0 then a else b, id⟩) ∧
          (settings.strict = true →
            ∃ name : Name, name.value = a ∧
              resolveTerm context settings e later = .error (.undefinedVariable name)) := by
  obtain ⟨context, supply, loaded, _, knows⟩ := exists_load loading start
  refine ⟨context, supply, loaded, fun settings later le m n e => ⟨?_, ?_⟩⟩
  · exact fun operation listed alike => operation_evaluates knows le listed alike
  · intro a b freeA freeB alike
    rw [contains_eq_false_iff knows] at freeA freeB
    exact ⟨fun lenient => choice_evaluates knows le freeA freeB lenient alike,
      fun strict => choice_refused knows freeA strict alike⟩

/-- A product and a choice, with more parentheses than they need. -/
theorem arithmetic_of_sources :
    ∃ context supply product chosen, load {} 0 = .ok (context, supply) ∧
      parseTerm "(mul (3)) 2" = .ok product ∧
      Evaluates context {} product supply (fun t => Encoding.asNumeral? t = some 6) ∧
      parseTerm "if (iszero 2) (a) b" = .ok chosen ∧
      context.contains "a" = false ∧ context.contains "b" = false ∧
      Evaluates context {} chosen supply fun t => ∃ id, t = .var ⟨"b", id⟩ := by
  obtain ⟨context, supply, loaded, correct⟩ := arithmetic_is_correct {} 0
  obtain ⟨context', supply', loaded', _, knows⟩ := exists_load {} 0
  obtain ⟨rfl, rfl⟩ := Prod.mk.inj (Except.ok.inj (loaded.symm.trans loaded'))
  have freeA : context.contains "a" = false := (contains_eq_false_iff knows).mpr rfl
  have freeB : context.contains "b" = false := (contains_eq_false_iff knows).mpr rfl
  obtain ⟨product, parsed, alike⟩ : ∃ product, parseTerm "(mul (3)) 2" = .ok product ∧
      product.bare = .call "mul" [.number 3, .number 2] := ⟨_, rfl, rfl⟩
  obtain ⟨chosen, parsed', alike'⟩ : ∃ chosen, parseTerm "if (iszero 2) (a) b" = .ok chosen ∧
      chosen.bare = choice 2 "a" "b" := ⟨_, rfl, rfl⟩
  have evaluated := (correct {} supply (Nat.le_refl supply) 3 2 product).1 (_, 3 * 2)
    (by simp [operations, Expr.call]) alike
  have decided := ((correct {} supply (Nat.le_refl supply) 3 2 chosen).2 "a" "b" freeA freeB
    alike').1 rfl
  exact ⟨context, supply, product, chosen, loaded, parsed, evaluated, parsed', freeA, freeB,
    decided⟩

end Prelude

end UntypedLambda
