import UntypedLambda.Proofs.Matching.Term

set_option autoImplicit false

/-! Renaming the identities of a term by a function. A term that matches another through the graph
of a function is the other with its identities renamed. -/

namespace UntypedLambda.Term

def relabel (f : Nat → Nat) : Term → Term
  | .var v => .var (v.withId (f v.id))
  | .abs binder body => .abs (binder.withId (f binder.id)) (body.relabel f)
  | .app function argument => .app (function.relabel f) (argument.relabel f)

theorem vars_relabel (f : Nat → Nat) (t : Term) :
    (t.relabel f).vars = t.vars.map fun v => v.withId (f v.id) := by
  induction t with
  | var v => rfl
  | abs binder body ih => rw [relabel, vars, ih, vars, List.map_cons]
  | app function argument ihFunction ihArgument =>
      rw [relabel, vars, ihFunction, ihArgument, vars, List.map_append]

theorem relabel_id : relabel id = id := by
  funext t
  induction t with
  | var v => rfl
  | abs binder body ih => exact congrArg (Term.abs binder) ih
  | app function argument ihFunction ihArgument =>
      rw [relabel, ihFunction, ihArgument]
      rfl

theorem relabel_relabel (f g : Nat → Nat) (t : Term) :
    (t.relabel f).relabel g = t.relabel (g ∘ f) := by
  induction t with
  | var v => rfl
  | abs binder body ih => exact congrArg (Term.abs _) ih
  | app function argument ihFunction ihArgument =>
      rw [relabel, relabel, ihFunction, ihArgument, relabel]

theorem relabel_of_below {f : Nat → Nat} {supply : Nat} (kept : ∀ id < supply, f id = id)
    {t : Term} (below : t.Below supply) : t.relabel f = t := by
  induction t with
  | var v => rw [relabel, kept v.id ((below_var _ _).mp below), Var.withId]
  | abs binder body ih =>
      obtain ⟨lt, inBody⟩ := (below_abs _ _ _).mp below
      rw [relabel, kept binder.id lt, ih inBody, Var.withId]
  | app function argument ihFunction ihArgument =>
      obtain ⟨inFunction, inArgument⟩ := (below_app _ _ _).mp below
      rw [relabel, ihFunction inFunction, ihArgument inArgument]

theorem relabel_below {f : Nat → Nat} {supply supply' : Nat}
    (within : ∀ id < supply, f id < supply') {t : Term} (below : t.Below supply) :
    (t.relabel f).Below supply' := by
  intro v member
  rw [vars_relabel] at member
  obtain ⟨w, inTerm, rfl⟩ := List.mem_map.mp member
  exact within w.id (below w inTerm)

variable {R : Nat → Nat → Prop}

theorem matches_relabel {f : Nat → Nat} {t : Term} (images : ∀ v ∈ t.vars, R v.id (f v.id)) :
    t.Matches R (t.relabel f) := by
  induction t with
  | var v => exact .var ⟨rfl, images v List.mem_cons_self⟩
  | abs binder body ih =>
      refine .abs ⟨rfl, images binder List.mem_cons_self⟩ (ih ?_)
      exact fun v member => images v (List.mem_cons_of_mem _ member)
  | app function argument ihFunction ihArgument =>
      refine .app (ihFunction ?_) (ihArgument ?_)
      · exact fun v member => images v (List.mem_append_left _ member)
      · exact fun v member => images v (List.mem_append_right _ member)

theorem Matches.eq_relabel {f : Nat → Nat} (image : ∀ id id', R id id' → f id = id')
    {t t' : Term} (alike : t.Matches R t') : t' = t.relabel f := by
  have variable_eq {v v' : Var} (vars : v.Matches R v') : v' = v.withId (f v.id) := by
    rw [image _ _ vars.id, Var.withId, vars.name]
  induction alike with
  | var vars => rw [relabel, variable_eq vars]
  | abs binders _ ih => rw [relabel, ← ih, variable_eq binders]
  | app _ _ ihFunction ihArgument => rw [relabel, ← ihFunction, ← ihArgument]

theorem Matches.exists_of_mem_vars {t t' : Term} (alike : t.Matches R t') {v : Var}
    (member : v ∈ t.vars) : ∃ id', R v.id id' := by
  induction alike with
  | var vars =>
      rw [List.mem_singleton.mp member]
      exact ⟨_, vars.id⟩
  | abs binders _ ih =>
      rcases List.mem_cons.mp member with rfl | inBody
      · exact ⟨_, binders.id⟩
      · exact ih inBody
  | app _ _ ihFunction ihArgument =>
      rcases List.mem_append.mp member with inFunction | inArgument
      · exact ihFunction inFunction
      · exact ihArgument inArgument

end UntypedLambda.Term
