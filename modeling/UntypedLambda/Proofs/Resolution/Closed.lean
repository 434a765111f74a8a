import UntypedLambda.Proofs.Resolution.Definition
import UntypedLambda.Proofs.Term.Clean

set_option autoImplicit false

/-! Closed terms. Where undefined names are refused and no definition has a free variable, nothing
that is resolved has one. -/

namespace UntypedLambda

open Surface Term

theorem Term.freeNames_eq_nil_iff (t : Term) :
    t.freeNames = [] ↔ t.namelessByName.labels = [] := by
  rw [List.eq_nil_iff_forall_not_mem, List.eq_nil_iff_forall_not_mem, freeNames_eq]
  simp only [List.mem_reverse, mem_foldl_addName, List.not_mem_nil, false_or]

theorem Nameless.labels_knot (combinator : Encoding.Combinator) :
    (Nameless.knot combinator : Nameless String).labels = [] := by
  cases combinator with
  | turing => rfl
  | curry => rfl

def Context.Closed (context : Context) : Prop :=
  ∀ entry ∈ context.entries, entry.2.freeNames = []

variable {context : Context}

theorem Context.Closed.labels (closed : context.Closed) {name : String}
    (contained : context.contains name = true) :
    ((context.reading? name).getD (.free name)).labels = [] := by
  rw [Context.contains, Option.isSome_iff_exists] at contained
  obtain ⟨t, found⟩ := contained
  have free := closed (name, t) (Context.mem_entries_of_find? found)
  rw [Context.reading?, found]
  exact (freeNames_eq_nil_iff t).mp free

/-- What is defined or bound leaves no name free in a translation. -/
theorem Context.Closed.labels_translate (closed : context.Closed) {e : Expr} {scope : List Var}
    (defined : ∀ name ∈ e.occurrences, Resolution.isUndefined context scope name = false) :
    (e.translate context.reading? (scope.map Var.name)).labels = [] := by
  rw [Expr.labels_translate, List.flatMap_eq_nil_iff]
  intro name member
  obtain ⟨occurs, unbound⟩ := List.mem_filter.mp member
  have outside : (scope.any fun v => v.name == name.value) = false := by
    rw [Expr.isUnbound, Bool.not_eq_true', List.contains_eq_any_beq, List.any_map] at unbound
    rw [← unbound]
    congr 1
    funext v
    exact Bool.beq_comm ..
  have known := defined name occurs
  rw [Resolution.isUndefined, outside, Bool.not_false, Bool.true_and, Bool.not_eq_false'] at known
  exact closed.labels known

section Strict

variable {settings : Settings} {supply : Nat} {t : Term} {left : Nat}

theorem resolveTerm_closed (strict : settings.strict = true) (closed : context.Closed)
    (definitions : context.Below supply) {e : Expr}
    (resolved : resolveTerm context settings e supply = .ok (t, left)) : t.freeNames = [] := by
  have defined := (Resolution.exists_resolve_iff e [] supply).mp ⟨_, resolved⟩ strict
  have reads : t.namelessByName = e.translate context.reading? [] :=
    Resolution.resolve_reads definitions e (Resolution.issued_nil supply supply)
      (Nat.le_refl supply) resolved
  rw [freeNames_eq_nil_iff, reads]
  exact closed.labels_translate defined

theorem resolveDefinition_closed (strict : settings.strict = true) (closed : context.Closed)
    (definitions : context.Below supply) {name : String} {body : Expr}
    (resolved : resolveDefinition context settings name body supply = .ok (t, left)) :
    t.freeNames = [] := by
  have reads := resolveDefinition_reads definitions resolved
  unfold resolveDefinition at resolved
  by_cases recursive : body.mentions name = true
  · rw [if_pos recursive] at reads resolved
    obtain ⟨inner, inBody, _⟩ := Except.exists_of_bind resolved
    have defined := (Resolution.exists_resolve_iff body _ _).mp ⟨inner, inBody⟩ strict
    have inside := closed.labels_translate defined
    rw [freeNames_eq_nil_iff, reads, Nameless.labels, Nameless.labels_knot, Nameless.labels,
      List.nil_append]
    exact inside
  · rw [if_neg recursive] at resolved
    exact resolveTerm_closed strict closed definitions resolved

end Strict

namespace Term

/-- A copy has the free names of the original. -/
theorem freeNames_freshCopy {t : Term} {supply : Nat} (below : t.Below supply) :
    (t.freshCopy supply).1.freeNames = t.freeNames := by
  rw [freeNames_eq, freeNames_eq]
  exact congrArg (fun reading => ((Nameless.map Var.name reading).labels.foldl addName []).reverse)
    (readUnder_freshCopy below [])

theorem Contracts.closed {mode : Mode} {supply : Nat} {t : Term} {next : Term × Nat}
    (step : Contracts mode supply t next) (below : t.Below supply) (closed : t.freeNames = []) :
    next.1.freeNames = [] := by
  rw [List.eq_nil_iff_forall_not_mem] at closed ⊢
  intro name member
  obtain ⟨v, inNext, named⟩ := (mem_freeNames _ _).mp member
  exact closed name ((mem_freeNames _ _).mpr ⟨v, step.labels_subset below inNext, named⟩)

end Term

end UntypedLambda
