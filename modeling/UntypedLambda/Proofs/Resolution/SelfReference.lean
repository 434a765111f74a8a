import UntypedLambda.Proofs.Resolution.Translation
import UntypedLambda.Proofs.Surface.SourceOrder

set_option autoImplicit false

/-! Definitions that refer to themselves. Whether a body mentions a name is read off the source
alone. It agrees with resolution: the names that a body mentions are those that are free in its term
when nothing is defined. -/

namespace UntypedLambda

open Surface

/-- Some occurrence of the name has no binder of that name around it, so that its meaning is looked
for outside the expression. -/
def Surface.Expr.LeavesOpen (e : Expr) (name : String) : Prop :=
  ∃ occurrence, e.FreelyHas occurrence ∧ occurrence.value = name

theorem Surface.Expr.mentions_iff (e : Expr) (name : String) :
    e.mentions name = true ↔ name ∈ e.occurrences.map Located.value := by
  rw [Expr.mentions_eq, List.any_eq_true, List.mem_map]
  simp only [beq_iff_eq]

theorem Surface.Expr.leavesOpen_iff (e : Expr) (name : String) :
    e.LeavesOpen name ↔ name ∈ e.occurrences.map Located.value := by
  rw [List.mem_map]
  exact exists_congr fun occurrence =>
    and_congr_left' (Expr.mem_occurrences_iff e occurrence).symm

namespace Resolution

theorem empty_below (supply : Nat) : Context.empty.Below supply :=
  fun _ member => nomatch member

/-- Without definitions every free occurrence stays free, under its own name. -/
theorem labels_translate_empty (e : Expr) :
    (e.translate Context.empty.reading? []).labels = e.occurrences.map Located.value := by
  have everywhere : e.occurrences.filter (Expr.isUnbound []) = e.occurrences :=
    List.filter_eq_self.mpr fun _ _ => rfl
  have itself (name : Name) :
      ((Context.empty.reading? name.value).getD (.free name.value)).labels = [name.value] := rfl
  rw [Expr.labels_translate, everywhere]
  simp only [itself]
  exact List.flatMap_pure_eq_map _ _

/-- Without definitions lenient settings resolve every expression, and the free names of the term
are those of the free occurrences. -/
theorem exists_resolveTerm_empty {settings : Settings} (lenient : settings.strict = false)
    (e : Expr) (supply : Nat) :
    ∃ t left, resolveTerm .empty settings e supply = .ok (t, left) ∧
      ∀ name, name ∈ t.freeNames ↔ name ∈ e.occurrences.map Located.value := by
  obtain ⟨t, left, resolved, -, -, reads⟩ :=
    exists_resolveTerm (empty_below supply) settings e fun strict => by
      rw [lenient] at strict
      cases strict
  refine ⟨t, left, resolved, fun name => ?_⟩
  rw [Term.mem_freeNames_iff_mem_labels, reads, labels_translate_empty]

/-- The body of a definition of `name`, closed over it by the combinator of the settings. -/
def tieKnot (context : Context) (settings : Settings) (name : String) (body : Expr)
    (supply : Nat) : Except SourceError (Term × Nat) := do
  let inner ← resolve context settings.strict [⟨name, supply⟩] body (supply + 1)
  return settings.fixpoint.fix ⟨name, supply⟩ inner.1 inner.2

theorem resolveDefinition_eq (context : Context) (settings : Settings) (name : String)
    (body : Expr) (supply : Nat) :
    resolveDefinition context settings name body supply =
      if body.mentions name then tieKnot context settings name body supply
      else resolveTerm context settings body supply :=
  rfl

end Resolution

/-- An expression mentions a name exactly if the name is free in its term when nothing is defined
and undefined names are allowed, and this is so exactly if an occurrence of it is left open. In any
context and with any settings a definition of the name by the expression is closed by the
combinator in that case, and in no other. -/
theorem mentioned_names_are_free_names (e : Expr) (settings : Settings) (supply : Nat) :
    ∃ t left, resolveTerm .empty { settings with strict := false } e supply = .ok (t, left) ∧
      ∀ name, (e.mentions name = true ↔ name ∈ t.freeNames) ∧
        (name ∈ t.freeNames ↔ e.LeavesOpen name) ∧
        ∀ context start, resolveDefinition context settings name e start =
          if name ∈ t.freeNames then Resolution.tieKnot context settings name e start
          else resolveTerm context settings e start := by
  have lenient : { settings with strict := false }.strict = false := rfl
  obtain ⟨t, left, resolved, free⟩ := Resolution.exists_resolveTerm_empty lenient e supply
  have mentioned (name : String) : e.mentions name = true ↔ name ∈ t.freeNames := by
    rw [Expr.mentions_iff, free]
  refine ⟨t, left, resolved, fun name => ⟨mentioned name, ?_, fun context start => ?_⟩⟩
  · rw [free, Expr.leavesOpen_iff]
  · rw [Resolution.resolveDefinition_eq]
    exact if_congr (mentioned name) rfl rfl

/-- In `λx x.(λf.f) <x, λx.f, p>` the first `f` is bound and the second is not, every `x` is bound
by one of three binders, and `p` is also the name of the binder that encodes the tuple. -/
theorem self_reference_below_repeated_binders :
    let name (text : String) : Name := ⟨text, default⟩
    let occurrence (text : String) : Expr := .var default (name text)
    let e : Expr := .lam default [name "x", name "x"]
      (.app default (.lam default [name "f"] (occurrence "f"))
        (.tuple default
          [occurrence "x", .lam default [name "x"] (occurrence "f"), occurrence "p"]))
    ∃ t left, resolveTerm .empty {} e 0 = .ok (t, left) ∧
      "f" ∈ t.freeNames ∧ "p" ∈ t.freeNames ∧ "x" ∉ t.freeNames ∧
      resolveDefinition .empty {} "f" e 0 = Resolution.tieKnot .empty {} "f" e 0 ∧
      resolveDefinition .empty {} "x" e 0 = resolveTerm .empty {} e 0 := by
  intro name occurrence e
  obtain ⟨t, left, resolved, agree⟩ := mentioned_names_are_free_names e {} 0
  have freeF : "f" ∈ t.freeNames := (agree "f").1.mp (by decide)
  have freeP : "p" ∈ t.freeNames := (agree "p").1.mp (by decide)
  have boundX : "x" ∉ t.freeNames := fun free =>
    absurd ((agree "x").1.mpr free) (by decide)
  refine ⟨t, left, resolved, freeF, freeP, boundX, ?_, ?_⟩
  · rw [(agree "f").2.2, if_pos freeF]
  · rw [(agree "x").2.2, if_neg boundX]

end UntypedLambda
