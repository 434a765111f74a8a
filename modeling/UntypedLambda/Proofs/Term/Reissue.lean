import UntypedLambda.Proofs.Resolution.Scope
import UntypedLambda.Proofs.Term.Naming
import UntypedLambda.Proofs.Term.Spelling

set_option autoImplicit false

/-! The term that the text of a term stands for. Its binders are new and have the names that they
are shown by, and where these names tell the binders apart, it is the same term up to bound
variables. -/

namespace UntypedLambda.Term

open Surface Resolution

/-- The copy of a term in which every variable has the name that it is shown by. Binders are new,
an occurrence belongs to the innermost binder in `scope` of its name, and there being none, it is
free. -/
def reissue (nameOf : Var → String) (scope : List Var) : Term → Nat → Term × Nat
  | .var v, supply =>
      match scope.find? (fun w => w.name == nameOf v) with
      | some w => (.var w, supply)
      | none => (.var ⟨nameOf v, supply⟩, supply + 1)
  | .abs binder body, supply =>
      let fresh : Var := ⟨nameOf binder, supply⟩
      let inner := reissue nameOf (fresh :: scope) body (supply + 1)
      (.abs fresh inner.1, inner.2)
  | .app function argument, supply =>
      let left := reissue nameOf scope function supply
      let right := reissue nameOf scope argument left.2
      (.app left.1 right.1, right.2)

/-- Below the binders `outer`, innermost first, an occurrence is shown by the name of an enclosing
binder exactly when it has its identity, and an occurrence outside all of them by its own name,
which is one of the names `free`. -/
def Faithful (nameOf : Var → String) (free : List String) : List Var → Term → Prop
  | outer, .var v =>
      (∀ b ∈ outer, nameOf b = nameOf v ↔ b.id = v.id) ∧
        ((∀ b ∈ outer, b.id ≠ v.id) → nameOf v = v.name ∧ v.name ∈ free)
  | outer, .abs binder body => Faithful nameOf free (binder :: outer) body
  | outer, .app function argument =>
      Faithful nameOf free outer function ∧ Faithful nameOf free outer argument

variable {nameOf : Var → String} {free : List String}

/-! ### Resolution of the text -/

theorem faithful_abstractions {vars outer : List Var} {body : Term}
    (faithful : Faithful nameOf free outer (abstractions vars body)) :
    Faithful nameOf free (vars.reverse ++ outer) body := by
  induction vars generalizing outer with
  | nil => exact faithful
  | cons v vars ih =>
      rw [List.reverse_cons, List.append_assoc]
      exact ih faithful

theorem reissue_abstractions {vars : List Var} {binders : List Name}
    (names : binders.map Located.value = vars.map nameOf) (scope : List Var) (body : Term)
    (supply : Nat) :
    reissue nameOf scope (abstractions vars body) supply =
      let fresh := freshBinders binders supply
      let inner := reissue nameOf (fresh.reverse ++ scope) body (supply + fresh.length)
      (abstractions fresh inner.1, inner.2) := by
  induction vars generalizing binders scope supply with
  | nil =>
      rw [List.map_eq_nil_iff.mp names]
      rfl
  | cons v vars ih =>
      obtain ⟨binder, rest, rfl, first, restNames⟩ := List.map_eq_cons_iff.mp names
      have inner := ih restNames (⟨nameOf v, supply⟩ :: scope) (supply + 1)
      rw [abstractions, List.foldr_cons, reissue, ← abstractions, inner]
      simp only [freshBinders, first, List.reverse_cons, List.append_assoc, List.singleton_append,
        List.length_cons, Nat.add_assoc, Nat.add_comm 1]
      rfl

/-- The binder in scope that has the name of an occurrence stands where the binder with its identity
does. -/
theorem findIdx?_scope {outer scope : List Var} {v : Var}
    (names : scope.map Var.name = outer.map nameOf)
    (told : ∀ b ∈ outer, nameOf b = nameOf v ↔ b.id = v.id) :
    scope.findIdx? (fun w => w.name == nameOf v) = outer.findIdx? (fun b => b.id == v.id) := by
  induction outer generalizing scope with
  | nil => rw [List.map_eq_nil_iff.mp names, List.findIdx?_nil, List.findIdx?_nil]
  | cons b outer ih =>
      obtain ⟨w, rest, rfl, first, restNames⟩ := List.map_eq_cons_iff.mp names
      have same : (w.name == nameOf v) = (b.id == v.id) := by
        rw [first, Bool.eq_iff_iff, beq_iff_eq, beq_iff_eq]
        exact told b List.mem_cons_self
      rw [List.findIdx?_cons, List.findIdx?_cons, same,
        ih restNames fun b member => told b (List.mem_cons_of_mem _ member)]

theorem find?_eq_none_iff {outer scope : List Var} {v : Var}
    (names : scope.map Var.name = outer.map nameOf)
    (told : ∀ b ∈ outer, nameOf b = nameOf v ↔ b.id = v.id) :
    scope.find? (fun w => w.name == nameOf v) = none ↔ ∀ b ∈ outer, b.id ≠ v.id := by
  have searches : scope.find? (fun w => w.name == nameOf v) = none ↔
      scope.findIdx? (fun w => w.name == nameOf v) = none := by
    simp [List.find?_eq_none, List.findIdx?_eq_none_iff]
  rw [searches, findIdx?_scope names told, List.findIdx?_eq_none_iff]
  simp only [beq_eq_false_iff_ne, ne_eq]

/-- The expression that the text of a term is read as resolves to the copy. -/
theorem resolve_spelled {context : Context}
    (undefined : ∀ name ∈ free, context.contains name = false) {t : Term} {e : Expr}
    (spelled : Spelled nameOf t e) {outer scope : List Var}
    (faithful : Faithful nameOf free outer t) (names : scope.map Var.name = outer.map nameOf)
    (supply : Nat) :
    resolve context false scope e supply = .ok (reissue nameOf scope t supply) := by
  induction spelled generalizing outer scope supply with
  | var v span place =>
      obtain ⟨told, unbound⟩ := faithful
      rw [resolve, resolveName, reissue]
      cases found : scope.find? (fun w => w.name == nameOf v) with
      | some w => rfl
      | none =>
          obtain ⟨own, inFree⟩ := unbound ((find?_eq_none_iff names told).mp found)
          have unknown : context.find? v.name = none := by
            have absent := undefined v.name inFree
            rwa [Context.contains, Option.isSome_eq_false_iff, Option.isNone_iff_eq_none] at absent
          simp only [own, Context.lookup?, unknown, Option.map_none]
          rfl
  | @abs vars body binders e span spelledBy _ ih =>
      have names' : ((freshBinders binders supply).reverse ++ scope).map Var.name =
          (vars.reverse ++ outer).map nameOf := by
        rw [List.map_append, List.map_reverse, map_name_freshBinders, spelledBy, names,
          List.map_append, List.map_reverse]
      rw [resolve, reissue_abstractions spelledBy, ih (faithful_abstractions faithful) names']
      rfl
  | app span _ _ ihFunction ihArgument =>
      rw [resolve, ihFunction faithful.1 names]
      simp only [bind, Except.bind, ihArgument faithful.2 names]
      rfl

/-! ### The copy -/

theorem reissue_var (nameOf : Var → String) (scope : List Var) (v : Var) (supply : Nat) :
    ∃ w left, reissue nameOf scope (.var v) supply = (.var w, left) ∧ w.name = nameOf v ∧
      (w ∈ scope ∧ left = supply ∨ w.id = supply ∧ left = supply + 1) := by
  rw [reissue]
  cases found : scope.find? (fun w => w.name == nameOf v) with
  | some w =>
      have named : w.name = nameOf v := by simpa using List.find?_some found
      exact ⟨w, supply, rfl, named, Or.inl ⟨List.mem_of_find?_eq_some found, rfl⟩⟩
  | none => exact ⟨⟨nameOf v, supply⟩, supply + 1, rfl, rfl, Or.inr ⟨rfl, rfl⟩⟩

private theorem below_cons {scope : List Var} {name : String} {supply : Nat}
    (below : ∀ w ∈ scope, w.id < supply) :
    ∀ w ∈ (⟨name, supply⟩ : Var) :: scope, w.id < supply + 1 := by
  intro w member
  rcases List.mem_cons.mp member with rfl | inScope
  · exact Nat.lt_succ_self supply
  · exact Nat.lt_succ_of_lt (below w inScope)

theorem le_reissue (nameOf : Var → String) (scope : List Var) (t : Term) (supply : Nat) :
    supply ≤ (reissue nameOf scope t supply).2 := by
  induction t generalizing scope supply with
  | var v =>
      obtain ⟨w, left, result, _, source⟩ := reissue_var nameOf scope v supply
      rw [result]
      change supply ≤ left
      omega
  | abs binder body ih =>
      exact Nat.le_of_succ_le (ih (⟨nameOf binder, supply⟩ :: scope) (supply + 1))
  | app function argument ihFunction ihArgument =>
      exact Nat.le_trans (ihFunction scope supply) (ihArgument scope _)

/-- A variable of the copy is in scope or has an identity that was issued for the copy. -/
theorem mem_vars_reissue {scope : List Var} {t : Term} {supply : Nat} {v : Var}
    (member : v ∈ (reissue nameOf scope t supply).1.vars) :
    v ∈ scope ∨ supply ≤ v.id ∧ v.id < (reissue nameOf scope t supply).2 := by
  induction t generalizing scope supply with
  | var u =>
      obtain ⟨w, left, result, _, source⟩ := reissue_var nameOf scope u supply
      rw [result] at member ⊢
      rw [List.mem_singleton.mp member]
      rcases source with ⟨inScope, _⟩ | ⟨same, rfl⟩
      · exact Or.inl inScope
      · exact Or.inr ⟨Nat.le_of_eq same.symm, Nat.lt_succ_of_le (Nat.le_of_eq same)⟩
  | abs binder body ih =>
      have issued : supply + 1 ≤
          (reissue nameOf (⟨nameOf binder, supply⟩ :: scope) body (supply + 1)).2 :=
        le_reissue _ _ _ _
      have fresh {u : Var} (same : u = ⟨nameOf binder, supply⟩) :
          supply ≤ u.id ∧ u.id < (reissue nameOf scope (.abs binder body) supply).2 := by
        rw [same]
        exact ⟨Nat.le_refl supply, issued⟩
      rcases List.mem_cons.mp member with same | inBody
      · exact Or.inr (fresh same)
      · rcases ih inBody with inScope | ⟨le, less⟩
        · rcases List.mem_cons.mp inScope with same | outside
          · exact Or.inr (fresh same)
          · exact Or.inl outside
        · exact Or.inr ⟨Nat.le_of_succ_le le, less⟩
  | app function argument ihFunction ihArgument =>
      have between := le_reissue nameOf scope function supply
      have after := le_reissue nameOf scope argument (reissue nameOf scope function supply).2
      rcases List.mem_append.mp member with inFunction | inArgument
      · rcases ihFunction inFunction with inScope | ⟨le, less⟩
        · exact Or.inl inScope
        · exact Or.inr ⟨le, Nat.lt_of_lt_of_le less after⟩
      · rcases ihArgument inArgument with inScope | ⟨le, less⟩
        · exact Or.inl inScope
        · exact Or.inr ⟨Nat.le_trans between le, less⟩

def Identified (vars : List Var) : Prop :=
  ∀ v ∈ vars, ∀ w ∈ vars, v.id = w.id → v = w

namespace Identified

variable {scope first second : List Var}

theorem mono {wider : List Var} (identified : Identified wider) (within : scope ⊆ wider) :
    Identified scope :=
  fun v member w member' => identified v (within member) w (within member')

theorem cons {fresh : Var} (identified : Identified scope) (below : ∀ w ∈ scope, w.id < fresh.id) :
    Identified (fresh :: scope) := by
  intro v member w member' same
  rcases List.mem_cons.mp member with rfl | old <;> rcases List.mem_cons.mp member' with rfl | old'
  · rfl
  · exact absurd same (Nat.ne_of_gt (below w old'))
  · exact absurd same (Nat.ne_of_lt (below v old))
  · exact identified v old w old' same

/-- Two lists of which each extends the same scope agree, when what they share is in scope. -/
theorem append (inFirst : Identified (scope ++ first)) (inSecond : Identified (scope ++ second))
    (shared : ∀ v ∈ first, ∀ w ∈ second, v.id = w.id → v ∈ scope ∨ w ∈ scope) :
    Identified (scope ++ (first ++ second)) := by
  have across {v w : Var} (member : v ∈ first) (member' : w ∈ second) (same : v.id = w.id) :
      v = w := by
    rcases shared v member w member' same with known | known
    · exact inSecond v (List.mem_append_left _ known) w (List.mem_append_right _ member') same
    · exact inFirst v (List.mem_append_right _ member) w (List.mem_append_left _ known) same
  intro v member w member' same
  rw [← List.append_assoc, List.mem_append] at member member'
  rcases member with left | right <;> rcases member' with left' | right'
  · exact inFirst v left w left' same
  · rcases List.mem_append.mp left with known | left
    · exact inSecond v (List.mem_append_left _ known) w (List.mem_append_right _ right') same
    · exact across left right' same
  · rcases List.mem_append.mp left' with known | left'
    · exact inSecond v (List.mem_append_right _ right) w (List.mem_append_left _ known) same
    · exact (across left' right same.symm).symm
  · exact inSecond v (List.mem_append_right _ right) w (List.mem_append_right _ right') same

end Identified

theorem identified_reissue {scope : List Var} (t : Term) {supply : Nat}
    (identified : Identified scope) (below : ∀ w ∈ scope, w.id < supply) :
    Identified (scope ++ (reissue nameOf scope t supply).1.vars) := by
  induction t generalizing scope supply with
  | var v =>
      obtain ⟨w, left, result, _, source⟩ := reissue_var nameOf scope v supply
      rw [result]
      rcases source with ⟨inScope, _⟩ | ⟨fresh, _⟩
      · refine identified.mono fun u member => ?_
        rcases List.mem_append.mp member with old | new
        · exact old
        · rw [List.mem_singleton.mp new]
          exact inScope
      · rw [← fresh] at below
        refine (identified.cons below).mono fun u member => ?_
        rcases List.mem_append.mp member with old | new
        · exact List.mem_cons_of_mem _ old
        · rw [List.mem_singleton.mp new]
          exact List.mem_cons_self
  | abs binder body ih =>
      have extended : Identified (⟨nameOf binder, supply⟩ :: scope) := identified.cons below
      refine (ih extended (below_cons below)).mono fun v member => ?_
      rcases List.mem_append.mp member with old | new
      · exact List.mem_append_left _ (List.mem_cons_of_mem _ old)
      · rcases List.mem_cons.mp new with rfl | inBody
        · exact List.mem_append_left _ List.mem_cons_self
        · exact List.mem_append_right _ inBody
  | app function argument ihFunction ihArgument =>
      have between := le_reissue nameOf scope function supply
      have below' : ∀ w ∈ scope, w.id < (reissue nameOf scope function supply).2 :=
        fun w member => Nat.lt_of_lt_of_le (below w member) between
      refine (ihFunction identified below).append (ihArgument identified below') ?_
      intro v inFunction w inArgument same
      rcases mem_vars_reissue inFunction with old | ⟨_, less⟩
      · exact Or.inl old
      · rcases mem_vars_reissue inArgument with old | ⟨le, _⟩
        · exact Or.inr old
        · omega

theorem map_name_binders_reissue (nameOf : Var → String) (scope : List Var) (t : Term)
    (supply : Nat) :
    (reissue nameOf scope t supply).1.binders.map Var.name = t.binders.map nameOf := by
  induction t generalizing scope supply with
  | var v =>
      rw [reissue]
      split <;> rfl
  | abs binder body ih => exact congrArg (nameOf binder :: ·) (ih _ _)
  | app function argument ihFunction ihArgument =>
      simp only [reissue, binders, List.map_append, ihFunction, ihArgument]

/-- A copy whose variables are shown by their own names has the text of the term. -/
theorem renderOnto_reissue {naming naming' : Naming} {scope : List Var} {t : Term} {supply : Nat}
    (kept : ∀ v ∈ (reissue naming.nameOf scope t supply).1.vars, naming'.nameOf v = v.name)
    (inHead : Bool) (rest : List Char) :
    renderOnto naming' inHead (reissue naming.nameOf scope t supply).1 rest =
      renderOnto naming inHead t rest := by
  induction t generalizing scope supply inHead rest with
  | var v =>
      obtain ⟨w, left, result, named, _⟩ := reissue_var naming.nameOf scope v supply
      rw [result] at kept ⊢
      simp only [renderOnto, kept w List.mem_cons_self, named]
  | abs binder body ih =>
      have head : naming'.nameOf ⟨naming.nameOf binder, supply⟩ = naming.nameOf binder :=
        kept ⟨naming.nameOf binder, supply⟩ List.mem_cons_self
      have inBody := ih fun v member => kept v (List.mem_cons_of_mem _ member)
      simp only [reissue, renderOnto, head, inBody]
  | app function argument ihFunction ihArgument =>
      have inFunction := ihFunction fun v member => kept v (List.mem_append_left _ member)
      have inArgument := ihArgument fun v member => kept v (List.mem_append_right _ member)
      have onFunction (after : List Char) :
          functionOnto naming' (reissue naming.nameOf scope function supply).1 after =
            functionOnto naming function after := by
        cases function with
        | var v =>
            obtain ⟨w, left, result, _⟩ := reissue_var naming.nameOf scope v supply
            rw [result] at inFunction ⊢
            exact inFunction false after
        | abs binder body => exact congrArg ('(' :: ·) (inFunction false (')' :: after))
        | app first second => exact inFunction false after
      have onArgument : argumentOnto naming' (reissue naming.nameOf scope argument
          (reissue naming.nameOf scope function supply).2).1 rest =
            argumentOnto naming argument rest := by
        cases argument with
        | var v =>
            obtain ⟨w, left, result, _⟩ := reissue_var naming.nameOf scope v
              (reissue naming.nameOf scope function supply).2
            rw [result] at inArgument ⊢
            exact congrArg (' ' :: ·) (inArgument false rest)
        | abs binder body => exact congrArg (' ' :: '(' :: ·) (inArgument false (')' :: rest))
        | app first second => exact congrArg (' ' :: '(' :: ·) (inArgument false (')' :: rest))
      rw [reissue, renderOnto_app, renderOnto_app, onArgument, onFunction]

/-! ### The reading of the copy -/

theorem readUnder_reissue {outer scope : List Var} {t : Term}
    (faithful : Faithful nameOf free outer t) (names : scope.map Var.name = outer.map nameOf)
    {supply : Nat} (distinct : (scope.map Var.id).Nodup) (below : ∀ w ∈ scope, w.id < supply) :
    ((reissue nameOf scope t supply).1.readUnder (scope.map Var.id)).map Var.name =
      (t.readUnder (outer.map Var.id)).map Var.name := by
  induction t generalizing outer scope supply with
  | var v =>
      obtain ⟨told, unbound⟩ := faithful
      rw [reissue]
      cases found : scope.find? (fun w => w.name == nameOf v) with
      | some w =>
          have place := (findIdx?_id distinct found).trans (findIdx?_scope names told)
          simp only [readUnder, readOccurrence, List.findIdx?_map, Function.comp_def, place]
          cases position : outer.findIdx? (fun b => b.id == v.id) with
          | some index => rfl
          | none =>
              rw [List.findIdx?_eq_none_iff] at position
              rw [(find?_eq_none_iff names told).mpr (by simpa using position)] at found
              cases found
      | none =>
          have absent := (find?_eq_none_iff names told).mp found
          rcases readOccurrence_cases (scope.map Var.id) ⟨nameOf v, supply⟩ with
            ⟨member, _⟩ | ⟨_, reads⟩
          · obtain ⟨w, inScope, same⟩ := List.mem_map.mp member
            exact absurd same (Nat.ne_of_lt (below w inScope))
          · rcases readOccurrence_cases (outer.map Var.id) v with ⟨member, _⟩ | ⟨_, reads'⟩
            · obtain ⟨b, inOuter, same⟩ := List.mem_map.mp member
              exact absurd same (absent b inOuter)
            · rw [readUnder, readUnder, reads, reads']
              exact congrArg Nameless.free (unbound absent).1
  | abs binder body ih =>
      have names' : ((⟨nameOf binder, supply⟩ : Var) :: scope).map Var.name =
          (binder :: outer).map nameOf := by
        rw [List.map_cons, List.map_cons, names]
      refine congrArg Nameless.lam (ih faithful names' ?_ (below_cons below))
      refine List.nodup_cons.mpr ⟨fun member => ?_, distinct⟩
      obtain ⟨w, inScope, same⟩ := List.mem_map.mp member
      exact absurd same (Nat.ne_of_lt (below w inScope))
  | app function argument ihFunction ihArgument =>
      have between := le_reissue nameOf scope function supply
      have inFunction := ihFunction faithful.1 names distinct below
      have inArgument := ihArgument faithful.2 names distinct
        fun w member => Nat.lt_of_lt_of_le (below w member) between
      simp only [reissue, readUnder, Nameless.map, inFunction, inArgument]

end UntypedLambda.Term
