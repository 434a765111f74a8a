import UntypedLambda.Proofs.Prelude.Arithmetic
import UntypedLambda.Proofs.Term.Conversion
import UntypedLambda.Proofs.Term.Normalization

set_option autoImplicit false

/-! Recursion with the prelude. A definition by a case for zero and a step is closed by a
fixed-point combinator, and its application to a number has a common reduct with the steps from the
number down to one around the case for zero. The combinator itself has no normal form, but a run in
normal order of the application ends wherever these steps have one. -/

namespace UntypedLambda

open Surface Term Relation

namespace Nameless

variable {α : Type}

theorem meets_equivalence : Equivalence (Join (Reduces (betaRoot? (α := α)))) :=
  equivalence_join fun _ _ _ => beta_confluent

theorem meets_of_reduces {t u : Nameless α} (steps : Reduces betaRoot? t u) :
    Join (Reduces betaRoot?) t u :=
  ⟨u, steps, .refl⟩

theorem meets_argument (function : Nameless α) {t u : Nameless α}
    (meet : Join (Reduces betaRoot?) t u) :
    Join (Reduces betaRoot?) (.app function t) (.app function u) := by
  obtain ⟨common, left, right⟩ := meet
  exact ⟨_, left.argument function, right.argument function⟩

theorem meets_function (argument : Nameless α) {t u : Nameless α}
    (meet : Join (Reduces betaRoot?) t u) :
    Join (Reduces betaRoot?) (.app t argument) (.app u argument) := by
  obtain ⟨common, left, right⟩ := meet
  exact ⟨_, left.function argument, right.function argument⟩

/-- A term reduces to the normal form of every term that it meets. -/
theorem reduces_of_meets {t u final : Nameless α} (meet : Join (Reduces betaRoot?) t u)
    (steps : Reduces betaRoot? u final) (normal : Normal final) : Reduces betaRoot? t final := by
  obtain ⟨common, fromT, fromFinal⟩ :=
    meets_equivalence.trans meet (meets_of_reduces steps)
  have same : common = final :=
    (reflTransGen_iff_eq ((normal_iff final).mp normal)).mp fromFinal
  rwa [same] at fromT

end Nameless

namespace Prelude

open Nameless

/-! ### Rounds -/

def rounds (zero step : Nameless String) : Nat → Nameless String
  | 0 => zero
  | n + 1 => applications step [numeral (n + 1), rounds zero step n]

def round (zero step whole : Nameless String) : Nameless String :=
  .lam (applications conditional
    [.app zeroTest (.bound 0), zero,
      applications step [.bound 0, .app whole (.app predecessor (.bound 0))]])

section Rounds

variable {zero step whole : Term}

theorem round_reduces (n : Nat) :
    WeakReduces (.app (round zero.namelessByName step.namelessByName whole.namelessByName)
        (numeral n))
      (if n = 0 then zero.namelessByName
        else applications step.namelessByName
          [numeral n, .app whole.namelessByName (.app predecessor (numeral n))]) := by
  have entered := Weak.redex (applications conditional
    [.app zeroTest (.bound 0), zero.namelessByName,
      applications step.namelessByName
        [.bound 0, .app whole.namelessByName (.app predecessor (.bound 0))]]) (numeral n)
  have closedTest : zeroTest.isClosed 0 = true := rfl
  have closedChoice : conditional.isClosed 0 = true := rfl
  have closedPredecessor : predecessor.isClosed 0 = true := rfl
  simp only [Nameless.applications, List.foldl_cons, List.foldl_nil, instantiate,
    instantiate_closed closedTest, instantiate_closed closedChoice,
    instantiate_closed closedPredecessor, instantiate_namelessByName, Nat.lt_irrefl, if_false,
    if_true, shift_zero_zero] at entered
  exact ReflTransGen.head entered (conditional_zeroTest_reduces n _ _)

/-- A function that meets its body calls itself once for each number down to zero. -/
theorem recursion_meets
    (equation : Join (Reduces betaRoot?)
      (round zero.namelessByName step.namelessByName whole.namelessByName) whole.namelessByName)
    (n : Nat) :
    Join (Reduces betaRoot?) (.app whole.namelessByName (numeral n))
      (rounds zero.namelessByName step.namelessByName n) := by
  have unfolded (n : Nat) := meets_equivalence.trans
    (meets_equivalence.symm (meets_function (numeral n) equation))
    (meets_of_reduces (round_reduces n).reduces)
  induction n with
  | zero => exact unfolded 0
  | succ n ih =>
      have called := Reduces.argument whole.namelessByName (predecessor_reduces (n + 1))
      exact meets_equivalence.trans (unfolded (n + 1))
        (meets_argument _ (meets_equivalence.trans (meets_of_reduces called) ih))

end Rounds

/-! ### Sources -/

/-- The body of a recursive definition of `r` by a case `z` for zero and a step `s`. -/
def recursor : Expr :=
  .lam default [⟨"n", default⟩] (.call "if"
    [.call "iszero" [.named "n"], .named "z",
      .call "s" [.named "n", .call "r" [.call "pred" [.named "n"]]]])

def unrolled : Nat → Expr
  | 0 => .named "z"
  | n + 1 => .call "s" [.number (n + 1), unrolled n]

/-- A context has the definitions of the prelude and, besides, those of `z` and `s`. -/
def Extends (prelude : Context) (zero step : Term) (context : Context) : Prop :=
  ∀ name, context.find? name =
    if name = "z" then some zero else if name = "s" then some step else prelude.find? name

theorem extends_define (prelude : Context) (zero step : Term) :
    Extends prelude zero step ((prelude.define "z" zero).define "s" step) := by
  intro name
  rw [Context.find?_define, Context.find?_define]
  by_cases isZero : name = "z"
  · simp [isZero]
  · simp [isZero]

def withCases (zero step : Nameless String) : List (String × Nameless String) :=
  ("z", zero) :: ("s", step) :: dictionary

theorem Extends.knows {prelude context : Context} {base supply : Nat} {zero step : Term}
    (extended : Extends prelude zero step context) (knows : Knows dictionary prelude base)
    (below : context.Below supply) :
    Knows (withCases zero.namelessByName step.namelessByName) context supply where
  below := below
  reading? := by
    intro name
    have same := knows.reading? name
    rw [Context.reading?] at same
    rw [Context.reading?, extended name, withCases, List.lookup_cons, List.lookup_cons]
    by_cases isZero : name = "z"
    · simp [isZero]
    · have notZero : (name == "z") = false := beq_eq_false_iff_ne.mpr isZero
      by_cases isStep : name = "s"
      · simp [isStep]
      · have notStep : (name == "s") = false := beq_eq_false_iff_ne.mpr isStep
        rw [if_neg isZero, if_neg isStep, notZero, notStep, same]

theorem recursor_translates (zero step whole : Nameless String) :
    recursor.translate (fun name => (("r", whole) :: withCases zero step).lookup name) [] =
      round zero step whole :=
  rfl

theorem unrolled_translates (zero step whole : Nameless String) (n : Nat) :
    (unrolled n).translate (fun name => (("r", whole) :: withCases zero step).lookup name) [] =
      rounds zero step n := by
  induction n with
  | zero => rfl
  | succ n ih =>
      rw [rounds, ← ih]
      rfl

theorem recursor_defined (zero step : Nameless String) :
    ∀ occurrence ∈ recursor.occurrences, occurrence.value = "r" ∨
      ((withCases zero step).lookup occurrence.value).isSome = true := by
  have listed : ∀ name ∈ ["if", "iszero", "z", "s", "r", "pred"], name = "r" ∨
      ((withCases zero step).lookup name).isSome = true := by
    simp only [List.forall_mem_cons, List.not_mem_nil, false_implies, implies_true, and_true]
    exact ⟨Or.inr rfl, Or.inr rfl, Or.inr rfl, Or.inr rfl, Or.inl trivial, Or.inr rfl⟩
  have names : recursor.occurrences.map Located.value =
      ["if", "iszero", "z", "s", "r", "pred"] := by
    decide
  exact fun occurrence member => listed _ (names ▸ List.mem_map_of_mem member)

theorem unrolled_defined (zero step : Nameless String) (n : Nat) :
    ∀ occurrence ∈ (unrolled n).occurrences,
      ((withCases zero step).lookup occurrence.value).isSome = true := by
  induction n with
  | zero => exact fun occurrence member => List.mem_singleton.mp member ▸ rfl
  | succ n ih =>
      intro occurrence member
      rcases List.mem_cons.mp member with rfl | inRest
      · rfl
      · exact ih occurrence inRest

/-! ### The definition -/

section Definition

variable {context : Context} {supply : Nat} {settings : Settings} {zero step : Nameless String}

theorem exists_resolve_recursor (knows : Knows (withCases zero step) context supply)
    (settings : Settings) :
    ∃ result, resolveDefinition context settings "r" recursor supply = .ok result := by
  obtain ⟨inner, inBody⟩ : ∃ inner, Resolution.resolve context settings.strict [⟨"r", supply⟩]
      recursor (supply + 1) = .ok inner := by
    refine (Resolution.exists_resolve_iff recursor _ _).mpr fun _ occurrence member => ?_
    rw [Resolution.isUndefined]
    rcases recursor_defined zero step occurrence member with same | defined
    · simp [same]
    · have known := isUndefined_eq_false knows defined
      rw [Resolution.isUndefined, List.any_nil, Bool.not_false, Bool.true_and] at known
      rw [known, Bool.and_false]
  refine ⟨settings.fixpoint.fix ⟨"r", supply⟩ inner.1 inner.2, ?_⟩
  rw [resolveDefinition, if_pos (by decide)]
  simp only [inBody, bind, Except.bind]
  rfl

/-- The recursive definition is accepted, and it meets one round of itself. -/
theorem exists_recursion (knows : Knows (withCases zero step) context supply)
    (settings : Settings) {body : Expr} (alike : body.bare = recursor) :
    ∃ r left, resolveDefinition context settings "r" body supply = .ok (r, left) ∧
      Knows (("r", r.namelessByName) :: withCases zero step) (context.define "r" r) left ∧
      Join (Nameless.Reduces Nameless.betaRoot?) (round zero step r.namelessByName)
        r.namelessByName := by
  obtain ⟨⟨r, left⟩, accepted⟩ := exists_resolve_recursor knows settings
  have resolved : resolveDefinition context settings "r" body supply = .ok (r, left) := by
    rwa [← alike, resolveDefinition_bare, Except.mapError_eq_ok_iff] at accepted
  obtain ⟨grown, minted⟩ := resolveDefinition_minted knows.below accepted
  have knows' := (knows.mono grown).define (minted.clean grown).below "r"
  have meets := definition_meets knows.below accepted
  rw [funext knows'.reading?, recursor_translates] at meets
  exact ⟨r, left, resolved, knows', meets⟩

/-- The steps are accepted beside the recursive definition. -/
theorem exists_resolve_unrolled {whole : Nameless String} {n : Nat}
    (knows : Knows (("r", whole) :: withCases zero step) context supply) (settings : Settings)
    {steps : Expr} (alike : steps.bare = unrolled n) :
    ∃ s left, resolveTerm context settings steps supply = .ok (s, left) ∧
      s.namelessByName = rounds zero step n := by
  have known (text : String) (before : ((withCases zero step).lookup text).isSome = true) :
      ((("r", whole) :: withCases zero step).lookup text).isSome = true := by
    rw [List.lookup_cons]
    split
    · rfl
    · exact before
  obtain ⟨s, left, resolved, _, _, reads⟩ := exists_resolveTerm knows settings alike
    fun _ occurrence member => known _ (unrolled_defined zero step n occurrence member)
  exact ⟨s, left, resolved, reads.trans (unrolled_translates zero step whole n)⟩

end Definition

/-- A definition by recursion computes primitive recursion, with either fixed-point combinator and
whatever terms the case for zero and the step are. The definition is accepted, and so are, once it
is known, its application to a number and the steps from the number down to one around the case for
zero. If beta contractions take these steps to a normal form, a run in normal order of the
application ends, without a bound, in the same term up to bound variables. -/
theorem recursion_is_primitive_recursion (loading : Settings) (start : Nat) :
    ∃ prelude base, load loading start = .ok (prelude, base) ∧
      ∀ (zero step : Term) (context : Context) (supply : Nat),
        Extends prelude zero step context → context.Below supply →
        ∀ (settings : Settings) (body : Expr), body.bare = recursor →
          ∃ r left, resolveDefinition context settings "r" body supply = .ok (r, left) ∧
            ∀ (n : Nat) (steps call : Expr), steps.bare = unrolled n →
              call.bare = .call "r" [.number n] → ∀ later, left ≤ later →
              ∃ s between t after,
                resolveTerm (context.define "r" r) settings steps later = .ok (s, between) ∧
                resolveTerm (context.define "r" r) settings call later = .ok (t, after) ∧
                ∀ v, ReflTransGen (ContractsTo .beta) s v →
                  (∀ next, ¬ ContractsTo .beta v next) → ∀ still, after ≤ still →
                  ∃ result, Ends .beta .leftmostOutermost t still result ∧
                    result.term.alphaEqual v = true := by
  obtain ⟨prelude, base, loaded, _, knowsPrelude⟩ := exists_load loading start
  refine ⟨prelude, base, loaded, ?_⟩
  intro zero step context supply extended below settings body alike
  have knows := extended.knows knowsPrelude below
  obtain ⟨r, left, defined, knows', meets⟩ := exists_recursion knows settings alike
  refine ⟨r, left, defined, ?_⟩
  intro n steps call alikeSteps alikeCall later le
  obtain ⟨s, between, resolvedSteps, stepsRead⟩ :=
    exists_resolve_unrolled (knows'.mono le) settings alikeSteps
  obtain ⟨t, after, resolvedCall, _, clean, callReads⟩ :=
    exists_resolveTerm (knows'.mono le) settings alikeCall
      fun _ occurrence member => List.mem_singleton.mp member ▸ rfl
  refine ⟨s, between, t, after, resolvedSteps, resolvedCall, ?_⟩
  intro v contracted normal still le'
  have reduced := namelessByName_of_contractsTo contracted
  rw [Mode.Contraction.eq_beta, stepsRead] at reduced
  have meet := recursion_meets meets n
  have toNormal := Nameless.reduces_of_meets meet reduced (normal_namelessByName normal)
  have callReads' : t.namelessByName = .app r.namelessByName (Nameless.numeral n) := callReads
  rw [← callReads'] at toNormal
  obtain ⟨result, ends, reads⟩ := exists_beta_end_of_reduces (clean.below.mono le') toNormal
    (normal_namelessByName normal)
  exact ⟨result, ends, (alphaEqual_iff _ _).mpr reads⟩

/-- A step that forgets the rest of the recursion ends it at once, even though the case for zero
has no normal form. -/
theorem recursion_forgets_divergence :
    let self : Term := .abs ⟨"w", 0⟩ (.app (.var ⟨"w", 0⟩) (.var ⟨"w", 0⟩))
    let forget : Term := .abs ⟨"a", 0⟩ (.abs ⟨"b", 1⟩ (.var ⟨"a", 0⟩))
    ∃ prelude base, load {} 0 = .ok (prelude, base) ∧
      let context := (prelude.define "z" (.app self self)).define "s" forget
      ∃ r left, resolveDefinition context {} "r" recursor (base + 2) = .ok (r, left) ∧
        ∃ s between t after v result,
          resolveTerm (context.define "r" r) {} (unrolled 2) left = .ok (s, between) ∧
          resolveTerm (context.define "r" r) {} (.call "r" [.number 2]) left = .ok (t, after) ∧
          (ReflTransGen (ContractsTo .beta) s v ∧ ∀ next, ¬ ContractsTo .beta v next) ∧
          Ends .beta .leftmostOutermost t after result ∧ result.term.alphaEqual v = true := by
  intro self forget
  obtain ⟨prelude, base, loaded, recursion⟩ := recursion_is_primitive_recursion {} 0
  obtain ⟨_, _, loaded', _, knowsPrelude⟩ := exists_load {} 0
  cases loaded.symm.trans loaded'
  refine ⟨prelude, base, loaded, ?_⟩
  intro context
  have extended := extends_define prelude (.app self self) forget
  have belowZero : (Term.app self self).Below 2 := by decide
  have belowStep : forget.Below 2 := by decide
  have below : context.Below (base + 2) :=
    ((knowsPrelude.below.mono (Nat.le_add_right base 2)).define
      (belowZero.mono (Nat.le_add_left 2 base)) "z").define
      (belowStep.mono (Nat.le_add_left 2 base)) "s"
  obtain ⟨r, left, defined, runs⟩ := recursion _ _ context (base + 2) extended below {} recursor rfl
  obtain ⟨s, between, t, after, resolvedSteps, resolvedCall, ends⟩ :=
    runs 2 (unrolled 2) (.call "r" [.number 2]) rfl rfl left (Nat.le_refl left)
  obtain ⟨_, _, defined', knows, _⟩ :=
    exists_recursion (extended.knows knowsPrelude below) {} (show recursor.bare = recursor from rfl)
  cases defined.symm.trans defined'
  obtain ⟨_, _, resolvedSteps', reads⟩ :=
    exists_resolve_unrolled knows {} (show (unrolled 2).bare = unrolled 2 from rfl)
  cases resolvedSteps.symm.trans resolvedSteps'
  have forgotten : Reduces betaRoot? s.namelessByName (Nameless.numeral 2) :=
    reads ▸ (selectFirst_reduces (Nameless.numeral 2) _).reduces
  obtain ⟨v, contracted, isTwo⟩ := exists_contractsTo_of_reduces forgotten
  have normal : ∀ next, ¬ ContractsTo .beta v next :=
    not_contractsTo_of_normal (isTwo ▸ Nameless.normal_numeral 2)
  obtain ⟨result, ended, same⟩ := ends v contracted normal after (Nat.le_refl after)
  exact ⟨r, left, defined, s, between, t, after, v, result, resolvedSteps, resolvedCall,
    ⟨contracted, normal⟩, ended, same⟩

end Prelude

end UntypedLambda
