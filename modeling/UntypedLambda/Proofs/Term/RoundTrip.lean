import UntypedLambda.Proofs.Term.Reissue

set_option autoImplicit false

/-! Printed terms read back as the same term. The names that a term is shown by tell its binders
apart from each other and from its free variables, so its text is read and resolved to a copy of
it. -/

namespace UntypedLambda.Term

open Surface

/-- The names of a term tell apart what encloses an occurrence in a part of it. -/
theorem faithful_part {t : Term} (separate : ∀ b ∈ t.binders, t.occursFree b.id = false)
    {part : Term} {outer : List Var} (enclosing : ∀ b ∈ outer, b ∈ t.binders)
    (inside : ∀ b ∈ part.binders, b ∈ t.binders)
    (freeInside : ∀ v ∈ (part.readUnder (outer.map Var.id)).labels, v ∈ t.nameless.labels) :
    Faithful t.naming.nameOf t.freeNames outer part := by
  induction part generalizing outer with
  | var v =>
      have freeHere (unbound : ∀ b ∈ outer, b.id ≠ v.id) : v ∈ t.nameless.labels := by
        apply freeInside
        rcases readOccurrence_cases (outer.map Var.id) v with ⟨member, _⟩ | ⟨_, reads⟩
        · obtain ⟨b, inOuter, same⟩ := List.mem_map.mp member
          exact absurd same (unbound b inOuter)
        · rw [readUnder, reads]
          exact List.mem_cons_self
      by_cases bound : ∃ c ∈ t.binders, c.id = v.id
      · obtain ⟨c, inBinders, same⟩ := bound
        refine ⟨fun b inOuter => nameOf_eq_iff (enclosing b inOuter) inBinders same, ?_⟩
        intro unbound
        have occurs := (occursFree_of_mem_labels (freeHere unbound)).2
        rw [← same, separate c inBinders] at occurs
        cases occurs
      · have own : t.naming.nameOf v = v.name :=
          nameOf_of_unbound fun b inBinders same => bound ⟨b, inBinders, same⟩
        have absent : ∀ b ∈ outer, b.id ≠ v.id :=
          fun b inOuter same => bound ⟨b, enclosing b inOuter, same⟩
        have inFree : v.name ∈ t.freeNames :=
          (mem_freeNames t v.name).mpr ⟨v, freeHere absent, rfl⟩
        refine ⟨fun b inOuter => ?_, fun _ => ⟨own, inFree⟩⟩
        constructor
        · intro sameName
          rw [own] at sameName
          rw [← sameName] at inFree
          exact absurd inFree (nameOf_not_mem_freeNames (enclosing b inOuter))
        · intro sameId
          exact absurd sameId (absent b inOuter)
  | abs binder body ih =>
      refine ih ?_ ?_ freeInside
      · intro b member
        rcases List.mem_cons.mp member with rfl | inOuter
        · exact inside b List.mem_cons_self
        · exact enclosing b inOuter
      · exact fun b member => inside b (List.mem_cons_of_mem _ member)
  | app function argument ihFunction ihArgument =>
      refine ⟨ihFunction enclosing ?_ ?_, ihArgument enclosing ?_ ?_⟩
      · exact fun b member => inside b (List.mem_append_left _ member)
      · exact fun v member => freeInside v (List.mem_append_left _ member)
      · exact fun b member => inside b (List.mem_append_right _ member)
      · exact fun v member => freeInside v (List.mem_append_right _ member)

theorem faithful_naming {t : Term} (separate : ∀ b ∈ t.binders, t.occursFree b.id = false) :
    Faithful t.naming.nameOf t.freeNames [] t :=
  faithful_part separate (fun _ none => nomatch none) (fun _ member => member)
    (fun _ member => member)

theorem nodup_map_nameOf {t : Term} (distinct : (t.binders.map Var.id).Nodup) :
    (t.binders.map t.naming.nameOf).Nodup := by
  refine List.Nodup.map_on (fun b member c member' sameName => ?_) distinct.of_map
  have sameId := (nameOf_eq_iff member member' rfl).mp sameName
  exact List.inj_on_of_nodup_map distinct member member' sameId

/-- When different binders have different identities, the copy is shown by the names that it has. -/
theorem nameOf_reissue {t : Term} (distinct : (t.binders.map Var.id).Nodup) {supply : Nat}
    (same : (reissue t.naming.nameOf [] t supply).1.alphaEqual t = true) :
    ∀ v ∈ (reissue t.naming.nameOf [] t supply).1.vars,
      (reissue t.naming.nameOf [] t supply).1.naming.nameOf v = v.name := by
  have names := map_name_binders_reissue t.naming.nameOf [] t supply
  intro v member
  refine nameOf_eq_name ?_ ?_ ?_ member
  · rw [names]
    exact nodup_map_nameOf distinct
  · intro b inCopy
    have inNames : b.name ∈ t.binders.map t.naming.nameOf := by
      rw [← names]
      exact List.mem_map_of_mem inCopy
    obtain ⟨c, inBinders, shown⟩ := List.mem_map.mp inNames
    rw [← shown, freeNames_eq_of_alphaEqual same]
    exact nameOf_not_mem_freeNames inBinders
  · have nothing : Identified [] := fun _ none => nomatch none
    have identified : Identified (reissue t.naming.nameOf [] t supply).1.vars :=
      identified_reissue t nothing fun _ none => nomatch none
    exact fun u inCopy w inCopy' sameId => congrArg Var.name (identified u inCopy w inCopy' sameId)

/-- The text of a term whose names are identifiers is read and resolved to the same term up to bound
variables, when no identity is both bound and free in it and no free variable is defined. When
different binders have different identities, the result has the same text. -/
theorem printed_term_reads_back (t : Term) (context : Context) (settings : Settings)
    (supply : Nat) (identifiers : ∀ v ∈ t.vars, isIdentifier v.name = true)
    (separate : ∀ b ∈ t.binders, t.occursFree b.id = false)
    (undefined : ∀ name ∈ t.freeNames, context.contains name = false)
    (lenient : settings.strict = false) :
    ∃ e result left, parseTerm t.render = .ok e ∧
      resolveTerm context settings e supply = .ok (result, left) ∧
      result.alphaEqual t = true ∧
      ((t.binders.map Var.id).Nodup → result.render = t.render) := by
  obtain ⟨e, parsed, spelled⟩ :=
    parseTerm_render fun v member => isIdentifier_nameOf identifiers member
  have faithful := faithful_naming separate
  have names : ([] : List Var).map Var.name = ([] : List Var).map t.naming.nameOf := rfl
  have resolved := resolve_spelled undefined spelled faithful names supply
  have same : (reissue t.naming.nameOf [] t supply).1.alphaEqual t = true := by
    rw [alphaEqual_iff]
    exact readUnder_reissue faithful names List.nodup_nil (fun _ none => nomatch none)
  refine ⟨e, (reissue t.naming.nameOf [] t supply).1, (reissue t.naming.nameOf [] t supply).2,
    parsed, ?_, same, fun distinct => ?_⟩
  · rw [resolveTerm, lenient]
    exact resolved
  · rw [render, render, renderOnto_reissue (nameOf_reissue distinct same)]

/-- The inner binder is shown as `x2`, because `x1` is free. -/
theorem suffixed_binder_reads_back :
    let t : Term := .abs ⟨"x", 0⟩ (.abs ⟨"x", 1⟩
      (.app (.app (.var ⟨"x", 0⟩) (.var ⟨"x", 1⟩)) (.var ⟨"x1", 2⟩)))
    ∃ e result left, parseTerm t.render = .ok e ∧
      resolveTerm .empty {} e 0 = .ok (result, left) ∧
      result.alphaEqual t = true ∧ result.render = t.render := by
  intro t
  obtain ⟨e, result, left, parsed, resolved, same, text⟩ :=
    printed_term_reads_back t .empty {} 0 (by decide) (by decide) (by decide) rfl
  exact ⟨e, result, left, parsed, resolved, same, text (by decide)⟩

end UntypedLambda.Term
