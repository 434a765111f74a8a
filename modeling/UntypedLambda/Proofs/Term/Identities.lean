import UntypedLambda.Term.Reduction.Step

set_option autoImplicit false

/-! The identities of a term and the supply of new ones. Copying, substitution and every step take
a supply above all identities of a term to one above all identities of the result. -/

namespace UntypedLambda.Term

def vars : Term → List Var
  | .var v => [v]
  | .abs binder body => binder :: body.vars
  | .app function argument => function.vars ++ argument.vars

def binders : Term → List Var
  | .var _ => []
  | .abs binder body => binder :: body.binders
  | .app function argument => function.binders ++ argument.binders

theorem mem_vars_of_mem_binders {t : Term} {b : Var} (member : b ∈ t.binders) :
    b ∈ t.vars := by
  induction t with
  | var v => cases member
  | abs binder body ih =>
      rcases List.mem_cons.mp member with rfl | inBody
      · exact List.mem_cons_self
      · exact List.mem_cons_of_mem _ (ih inBody)
  | app function argument ihFunction ihArgument =>
      rcases List.mem_append.mp member with inFunction | inArgument
      · exact List.mem_append_left _ (ihFunction inFunction)
      · exact List.mem_append_right _ (ihArgument inArgument)

/-- Whether a supply is above all identities of a term. -/
def Below (supply : Nat) (t : Term) : Prop :=
  ∀ v ∈ t.vars, v.id < supply

instance (supply : Nat) (t : Term) : Decidable (t.Below supply) :=
  inferInstanceAs (Decidable (∀ v ∈ t.vars, v.id < supply))

theorem below_var (supply : Nat) (v : Var) : (Term.var v).Below supply ↔ v.id < supply := by
  simp [Below, vars]

theorem below_abs (supply : Nat) (binder : Var) (body : Term) :
    (Term.abs binder body).Below supply ↔ binder.id < supply ∧ body.Below supply := by
  simp [Below, vars]

theorem below_app (supply : Nat) (function argument : Term) :
    (Term.app function argument).Below supply ↔
      function.Below supply ∧ argument.Below supply := by
  simp only [Below, vars, List.mem_append]
  constructor
  · intro below
    exact ⟨fun v member => below v (Or.inl member), fun v member => below v (Or.inr member)⟩
  · rintro ⟨inFunction, inArgument⟩ v (member | member)
    · exact inFunction v member
    · exact inArgument v member

theorem Below.mono {supply supply' : Nat} {t : Term} (below : t.Below supply)
    (le : supply ≤ supply') : t.Below supply' :=
  fun v member => Nat.lt_of_lt_of_le (below v member) le

theorem exists_below (t : Term) : ∃ supply, t.Below supply := by
  induction t with
  | var v => exact ⟨v.id + 1, (below_var _ _).mpr (Nat.lt_succ_self v.id)⟩
  | abs binder body ih =>
      obtain ⟨supply, below⟩ := ih
      refine ⟨max (binder.id + 1) supply, (below_abs _ _ _).mpr ⟨?_, ?_⟩⟩
      · exact Nat.le_max_left ..
      · exact below.mono (Nat.le_max_right ..)
  | app function argument ihFunction ihArgument =>
      obtain ⟨first, inFunction⟩ := ihFunction
      obtain ⟨second, inArgument⟩ := ihArgument
      refine ⟨max first second, (below_app _ _ _).mpr ⟨?_, ?_⟩⟩
      · exact inFunction.mono (Nat.le_max_left ..)
      · exact inArgument.mono (Nat.le_max_right ..)

theorem occursFree_eq_false_of_below {supply id : Nat} {t : Term} (below : t.Below supply)
    (le : supply ≤ id) : t.occursFree id = false := by
  induction t with
  | var v =>
      rw [below_var] at below
      simp only [occursFree, beq_eq_false_iff_ne]
      omega
  | abs binder body ih => simp [occursFree, ih ((below_abs _ _ _).mp below).2]
  | app function argument ihFunction ihArgument =>
      obtain ⟨inFunction, inArgument⟩ := (below_app _ _ _).mp below
      simp [occursFree, ihFunction inFunction, ihArgument inArgument]

/-! ### Copies -/

namespace Renaming

/-- Every binder that a renaming puts in place was taken from the supply between `base` and
`supply`, and no two of them share an identity. -/
structure Issued (ρ : Renaming) (base supply : Nat) : Prop where
  above : ∀ entry ∈ ρ, base ≤ entry.2.id
  below : ∀ entry ∈ ρ, entry.2.id < supply
  distinct : (ρ.map fun entry => entry.2.id).Nodup

theorem issued_nil (base supply : Nat) : Issued [] base supply where
  above := by simp
  below := by simp
  distinct := List.nodup_nil

theorem Issued.mono {ρ : Renaming} {base supply supply' : Nat} (issued : ρ.Issued base supply)
    (le : supply ≤ supply') : ρ.Issued base supply' where
  above := issued.above
  below := fun entry member => Nat.lt_of_lt_of_le (issued.below entry member) le
  distinct := issued.distinct

theorem Issued.pass {ρ : Renaming} {base supply : Nat} (issued : ρ.Issued base supply)
    (le : base ≤ supply) (binder : Var) :
    Issued ((binder.id, binder.withId supply) :: ρ) base (supply + 1) where
  above := by
    intro entry member
    rcases List.mem_cons.mp member with rfl | older
    · exact le
    · exact issued.above entry older
  below := by
    intro entry member
    rcases List.mem_cons.mp member with rfl | older
    · exact Nat.lt_succ_self supply
    · exact Nat.lt_succ_of_lt (issued.below entry older)
  distinct := by
    rw [List.map_cons, List.nodup_cons]
    refine ⟨?_, issued.distinct⟩
    intro member
    obtain ⟨entry, older, same⟩ := List.mem_map.mp member
    have bound := issued.below entry older
    simp only [Var.withId] at same
    omega

def old (ρ : Renaming) : List Nat :=
  ρ.map fun entry => entry.1

def new (ρ : Renaming) : List Nat :=
  ρ.map fun entry => entry.2.id

theorem apply_of_not_mem {ρ : Renaming} {v : Var} (kept : v.id ∉ ρ.old) : ρ.apply v = v := by
  have nowhere : ρ.lookup v.id = none := by
    rw [List.lookup_eq_none_iff]
    intro entry member
    rw [bne_iff_ne]
    intro same
    exact kept (List.mem_map.mpr ⟨entry, member, same.symm⟩)
  rw [Renaming.apply, nowhere]
  rfl

theorem exists_apply_of_mem {ρ : Renaming} {v : Var} (renamed : v.id ∈ ρ.old) :
    ∃ entry ∈ ρ, ρ.apply v = entry.2 := by
  cases found : ρ.lookup v.id with
  | none =>
      obtain ⟨entry, member, same⟩ := List.mem_map.mp renamed
      have different := List.lookup_eq_none_iff.mp found entry member
      simp [same] at different
  | some w =>
      refine ⟨(v.id, w), ?_, by rw [Renaming.apply, found]; rfl⟩
      obtain ⟨before, after, rfl, _⟩ := List.lookup_eq_some_iff.mp found
      simp

theorem apply_cases (ρ : Renaming) (v : Var) :
    ρ.apply v = v ∨ ∃ entry ∈ ρ, ρ.apply v = entry.2 := by
  by_cases renamed : v.id ∈ ρ.old
  · exact Or.inr (exists_apply_of_mem renamed)
  · exact Or.inl (apply_of_not_mem renamed)

theorem Issued.apply_lt {ρ : Renaming} {base supply : Nat} (issued : ρ.Issued base supply)
    {v : Var} (lt : v.id < supply) : (ρ.apply v).id < supply := by
  rcases apply_cases ρ v with same | ⟨entry, member, same⟩
  · rw [same]
    exact lt
  · rw [same]
    exact issued.below entry member

end Renaming

theorem le_renameFrom (ρ : Renaming) (t : Term) (supply : Nat) :
    supply ≤ (t.renameFrom ρ supply).2 := by
  induction t generalizing ρ supply with
  | var v => exact Nat.le_refl supply
  | abs binder body ih => exact Nat.le_of_succ_le (ih _ (supply + 1))
  | app function argument ihFunction ihArgument =>
      exact Nat.le_trans (ihFunction ρ supply) (ihArgument ρ _)

theorem renameFrom_below {ρ : Renaming} {t : Term} {base supply : Nat}
    (issued : ρ.Issued base supply) (le : base ≤ supply) (below : t.Below supply) :
    (t.renameFrom ρ supply).1.Below (t.renameFrom ρ supply).2 := by
  induction t generalizing ρ supply with
  | var v => exact (below_var _ _).mpr (issued.apply_lt ((below_var _ _).mp below))
  | abs binder body ih =>
      obtain ⟨_, inBody⟩ := (below_abs _ _ _).mp below
      refine (below_abs _ _ _).mpr ⟨le_renameFrom _ body (supply + 1), ?_⟩
      exact ih (issued.pass le binder) (Nat.le_succ_of_le le) (inBody.mono (Nat.le_succ supply))
  | app function argument ihFunction ihArgument =>
      obtain ⟨inFunction, inArgument⟩ := (below_app _ _ _).mp below
      have grown := le_renameFrom ρ function supply
      have left := ihFunction issued le inFunction
      have right := ihArgument (issued.mono grown) (Nat.le_trans le grown) (inArgument.mono grown)
      exact (below_app _ _ _).mpr ⟨left.mono (le_renameFrom ρ argument _), right⟩

theorem freshCopy_below {t : Term} {supply : Nat} (below : t.Below supply) :
    (t.freshCopy supply).1.Below (t.freshCopy supply).2 :=
  renameFrom_below (Renaming.issued_nil supply supply) (Nat.le_refl supply) below

/-! ### Substitution -/

theorem le_substituteUnder (id : Nat) (replacement : Term) (ρ : Renaming) (t : Term)
    (supply : Nat) : supply ≤ (substituteUnder id replacement ρ t supply).2 := by
  induction t generalizing ρ supply with
  | var v =>
      rw [substituteUnder]
      split
      · exact le_renameFrom [] replacement supply
      · exact Nat.le_refl supply
  | abs binder body ih =>
      rw [substituteUnder]
      split
      · split
        · exact Nat.le_refl supply
        · exact le_renameFrom ρ _ supply
      · exact Nat.le_of_succ_le (ih _ (supply + 1))
  | app function argument ihFunction ihArgument =>
      exact Nat.le_trans (ihFunction ρ supply) (ihArgument ρ _)

theorem substituteUnder_below {id : Nat} {replacement : Term} {ρ : Renaming} {t : Term}
    {base supply : Nat} (issued : ρ.Issued base supply) (le : base ≤ supply)
    (below : t.Below supply) (replacementBelow : replacement.Below supply) :
    (substituteUnder id replacement ρ t supply).1.Below
      (substituteUnder id replacement ρ t supply).2 := by
  induction t generalizing ρ supply with
  | var v =>
      rw [substituteUnder]
      split
      · exact freshCopy_below replacementBelow
      · exact (below_var _ _).mpr (issued.apply_lt ((below_var _ _).mp below))
  | abs binder body ih =>
      obtain ⟨_, inBody⟩ := (below_abs _ _ _).mp below
      rw [substituteUnder]
      split
      · split
        · exact below
        · exact renameFrom_below issued le below
      · refine (below_abs _ _ _).mpr ⟨le_substituteUnder id replacement _ body (supply + 1), ?_⟩
        exact ih (issued.pass le binder) (Nat.le_succ_of_le le)
          (inBody.mono (Nat.le_succ supply)) (replacementBelow.mono (Nat.le_succ supply))
  | app function argument ihFunction ihArgument =>
      obtain ⟨inFunction, inArgument⟩ := (below_app _ _ _).mp below
      have grown := le_substituteUnder id replacement ρ function supply
      have left := ihFunction issued le inFunction replacementBelow
      have right := ihArgument (issued.mono grown) (Nat.le_trans le grown)
        (inArgument.mono grown) (replacementBelow.mono grown)
      exact (below_app _ _ _).mpr
        ⟨left.mono (le_substituteUnder id replacement ρ argument _), right⟩

theorem le_substitute (target : Term) (id : Nat) (replacement : Term) (supply : Nat) :
    supply ≤ (target.substitute id replacement supply).2 :=
  le_substituteUnder id replacement [] target supply

theorem substitute_below {target replacement : Term} {supply : Nat} (id : Nat)
    (below : target.Below supply) (replacementBelow : replacement.Below supply) :
    (target.substitute id replacement supply).1.Below
      (target.substitute id replacement supply).2 :=
  substituteUnder_below (Renaming.issued_nil supply supply) (Nat.le_refl supply) below
    replacementBelow

end UntypedLambda.Term
