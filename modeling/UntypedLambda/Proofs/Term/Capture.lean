import UntypedLambda.Proofs.Term.FreeNames
import UntypedLambda.Proofs.Term.Minted

set_option autoImplicit false

/-! Copies and substitution as their results show them. A copy differs from a term in the identities
of its binders only, all of which are new. Substitution puts the replacement in the place of every
free occurrence and of no bound one, and no binder of the target takes hold of it. -/

namespace UntypedLambda

/-! ### Replacement of free names -/

namespace Nameless

variable {α : Type}

/-- The term with `replacement` in the place of the free names that are `chosen`. Below abstractions
the replacement stands as it is, so it must have no index that is bound outside it. -/
def replaceFree (t : Nameless α) (chosen : α → Bool) (replacement : Nameless α) : Nameless α :=
  match t with
  | .bound index => .bound index
  | .free name => if chosen name then replacement else .free name
  | .lam body => .lam (body.replaceFree chosen replacement)
  | .app function argument =>
      .app (function.replaceFree chosen replacement) (argument.replaceFree chosen replacement)

theorem labels_replaceFree (t : Nameless α) (chosen : α → Bool) (replacement : Nameless α) :
    (t.replaceFree chosen replacement).labels =
      t.labels.flatMap fun name => if chosen name then replacement.labels else [name] := by
  induction t with
  | bound index => rfl
  | free name =>
      by_cases picked : chosen name = true
      · simp [replaceFree, labels, picked]
      · simp [replaceFree, labels, picked]
  | lam body ih => exact ih
  | app function argument ihFunction ihArgument =>
      rw [replaceFree, labels, ihFunction, ihArgument, labels, List.flatMap_append]

end Nameless

namespace Term

/-- An identity that is bound around a term is replaced where it is free in the term without that
abstraction. -/
theorem instantiate_readUnder (id : Nat) {replacement : Nameless Var}
    (closed : ∀ amount, replacement.shift 0 amount = replacement) (inner : List Nat) (t : Term) :
    (t.readUnder (inner ++ [id])).instantiate inner.length replacement =
      (t.readUnder inner).replaceFree (fun v => v.id == id) replacement := by
  induction t generalizing inner with
  | var v =>
      have alone := readOccurrence_append inner [] v
      rw [List.append_nil] at alone
      rw [readUnder, readUnder, readOccurrence_append, alone]
      cases found : inner.findIdx? (fun other => other == v.id) with
      | some index =>
          obtain ⟨within, _⟩ := List.findIdx?_eq_some_iff_getElem.mp found
          simp only [Nameless.instantiate, if_pos within, Nameless.replaceFree]
      | none =>
          by_cases same : v.id = id
          · rw [← same, readOccurrence_cons_self]
            simp [readOccurrence, Nameless.shift, Nameless.instantiate, Nameless.replaceFree, closed]
          · rw [readOccurrence_cons_of_ne same]
            simp [readOccurrence, Nameless.shift, Nameless.instantiate, Nameless.replaceFree, same]
  | abs binder body ih => exact congrArg Nameless.lam (ih (binder.id :: inner))
  | app function argument ihFunction ihArgument =>
      simp only [readUnder, Nameless.instantiate, Nameless.replaceFree, ihFunction, ihArgument]

theorem nameless_substitute {target replacement : Term} {supply : Nat} (id : Nat)
    (below : target.Below supply) (replacementBelow : replacement.Below supply) :
    (target.substitute id replacement supply).1.nameless =
      target.nameless.replaceFree (fun v => v.id == id) replacement.nameless := by
  have closed (amount : Nat) : replacement.nameless.shift 0 amount = replacement.nameless :=
    shift_readUnder [] replacement (Nat.le_refl 0) amount
  exact (readUnder_substitute id below replacementBelow []).trans
    (instantiate_readUnder id closed [] target)

/-! ### The names of binders -/

/-- What is left of a term without its occurrences and identities: its shape, and the name of the
binder at every abstraction. -/
def outline : Term → Term
  | .var _ => .var ⟨"", 0⟩
  | .abs binder body => .abs (binder.withId 0) body.outline
  | .app function argument => .app function.outline argument.outline

/-- The term with `replacement` as it stands in the place of every free occurrence of the identity
`id`, captured or not. -/
def graft (t : Term) (id : Nat) (replacement : Term) : Term :=
  match t with
  | .var v => if v.id == id then replacement else .var v
  | .abs binder body =>
      if binder.id == id then .abs binder body else .abs binder (body.graft id replacement)
  | .app function argument =>
      .app (function.graft id replacement) (argument.graft id replacement)

theorem outline_renameFrom (ρ : Renaming) (t : Term) (supply : Nat) :
    (t.renameFrom ρ supply).1.outline = t.outline := by
  induction t generalizing ρ supply with
  | var v => rfl
  | abs binder body ih => exact congrArg (Term.abs (binder.withId 0)) (ih _ _)
  | app function argument ihFunction ihArgument =>
      rw [renameFrom, outline, ihFunction, ihArgument, outline]

theorem outline_substituteUnder (id : Nat) (replacement : Term) (ρ : Renaming) (t : Term)
    (supply : Nat) :
    (substituteUnder id replacement ρ t supply).1.outline = (t.graft id replacement).outline := by
  induction t generalizing ρ supply with
  | var v =>
      rw [substituteUnder, graft]
      split
      · exact outline_renameFrom [] replacement supply
      · rfl
  | abs binder body ih =>
      rw [substituteUnder, graft]
      split
      · split
        · rfl
        · exact outline_renameFrom ρ (.abs binder body) supply
      · exact congrArg (Term.abs (binder.withId 0)) (ih _ _)
  | app function argument ihFunction ihArgument =>
      rw [substituteUnder, outline, ihFunction, ihArgument, graft, outline]

/-! ### Main results -/

/-- Substitution avoids capture. In the nameless reading every free occurrence of the identity, and
no bound one, is replaced by the reading of the replacement, so that the free occurrences of the
replacement stay free. Every binder, of the target and of the copies, keeps its name. -/
theorem substitution_avoids_capture {target replacement : Term} {supply : Nat} (id : Nat)
    (below : target.Below supply) (replacementBelow : replacement.Below supply) :
    let result := (target.substitute id replacement supply).1
    result.nameless =
        target.nameless.replaceFree (fun v => v.id == id) replacement.nameless ∧
      result.nameless.labels = target.nameless.labels.flatMap (fun v =>
        if v.id == id then replacement.nameless.labels else [v]) ∧
      result.outline = (target.graft id replacement).outline := by
  intro result
  have reading := nameless_substitute id below replacementBelow
  refine ⟨reading, ?_, outline_substituteUnder id replacement [] target supply⟩
  rw [reading, Nameless.labels_replaceFree]

/-- The identity is free, then bound, then free again below a binder with the name and the identity
of what is put in its place. -/
theorem substitution_below_reused_identities :
    let x : Var := ⟨"x", 0⟩
    let y : Var := ⟨"y", 1⟩
    let target : Term := .app (.abs y (.app (.var x) (.abs x (.app (.var y) (.var x))))) (.var x)
    let replacement : Term := .app (.var y) (.abs y (.var y))
    target.Below 2 ∧ replacement.Below 2 ∧
      (target.substitute 0 replacement 2).1.nameless =
        .app (.lam (.app (.app (.free y) (.lam (.bound 0)))
          (.lam (.app (.bound 1) (.bound 0))))) (.app (.free y) (.lam (.bound 0))) := by
  intro x y target replacement
  have below : target.Below 2 := by decide
  have replacementBelow : replacement.Below 2 := by decide
  exact ⟨below, replacementBelow,
    (substitution_avoids_capture 0 below replacementBelow).1.trans (by decide)⟩

structure NewBinders (t : Term) (supply left : Nat) (binders : List Var) : Prop where
  distinct : (binders.map Var.id).Nodup
  unused : ∀ b ∈ binders, ∀ v ∈ t.vars, v.id ≠ b.id
  issued : ∀ b ∈ binders, supply ≤ b.id ∧ b.id < left

theorem newBinders_of_issued {t : Term} {supply left : Nat} {binders : List Var}
    (below : t.Below supply) (distinct : (binders.map Var.id).Nodup)
    (issued : ∀ b ∈ binders, supply ≤ b.id ∧ b.id < left) : NewBinders t supply left binders where
  distinct := distinct
  unused := fun b new v old => Nat.ne_of_lt (Nat.lt_of_lt_of_le (below v old) (issued b new).1)
  issued := issued

/-- A copy has the reading of the term and the same names at its binders, and the binders are new.
An abstraction that is renamed has the reading and the names that it had, and its binder is new as
well as those in its body. -/
theorem copies_are_faithful_and_fresh {t : Term} {supply : Nat} (below : t.Below supply) :
    (t.freshCopy supply).1.nameless = t.nameless ∧
      (t.freshCopy supply).1.outline = t.outline ∧
      NewBinders t supply (t.freshCopy supply).2 (t.freshCopy supply).1.binders ∧
      ∀ binder : Var, let renamed := alphaRename binder t supply
        (Term.abs renamed.1 renamed.2.1).nameless = (Term.abs binder t).nameless ∧
          (Term.abs renamed.1 renamed.2.1).outline = (Term.abs binder t).outline ∧
          NewBinders t supply renamed.2.2 (renamed.1 :: renamed.2.1.binders) := by
  have copied := minted_freshCopy below (Nat.le_refl supply)
  refine ⟨readUnder_freshCopy below [], outline_renameFrom [] t supply,
    newBinders_of_issued below copied.distinct copied.binders, fun binder => ?_⟩
  have issued := (Renaming.issued_nil supply supply).pass (Nat.le_refl supply) binder
  have minted := minted_renameFrom issued (Nat.le_succ supply) below
  have grown := le_renameFrom [(binder.id, binder.withId supply)] t (supply + 1)
  refine ⟨congrArg Nameless.lam (readUnder_renameFrom issued (Nat.le_succ supply) below []),
    congrArg (Term.abs (binder.withId 0)) (outline_renameFrom _ t (supply + 1)),
    newBinders_of_issued below ?_ ?_⟩
  · refine List.nodup_cons.mpr ⟨fun member => ?_, minted.distinct⟩
    obtain ⟨b, inBody, same⟩ := List.mem_map.mp member
    exact absurd same (Nat.ne_of_gt (minted.binders b inBody).1)
  · intro b member
    rcases List.mem_cons.mp member with rfl | inBody
    · exact ⟨Nat.le_refl supply, grown⟩
    · obtain ⟨le, lt⟩ := minted.binders b inBody
      exact ⟨Nat.le_of_succ_le le, lt⟩

/-- The identity 0 is bound twice, one abstraction inside the other, and it is free as well. -/
theorem copy_of_reused_identities :
    let x : Var := ⟨"x", 0⟩
    let t : Term := .app (.abs x (.app (.var x) (.abs x (.var x)))) (.var x)
    t.Below 1 ∧ (t.freshCopy 1).1.nameless = t.nameless ∧
      ((t.freshCopy 1).1.binders.map Var.id).Nodup ∧
      (Term.abs (alphaRename x t 1).1 (alphaRename x t 1).2.1).nameless =
        (Term.abs x t).nameless := by
  intro x t
  have below : t.Below 1 := by decide
  obtain ⟨reading, _, new, renamed⟩ := copies_are_faithful_and_fresh below
  exact ⟨below, reading, new.distinct, (renamed x).1⟩

end Term

end UntypedLambda
