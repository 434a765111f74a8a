import Mathlib.Data.List.Nodup
import Mathlib.Order.CompletePartialOrder
import Mathlib.Order.Interval.Set.Disjoint
import UntypedLambda.Proofs.Term.Identities

set_option autoImplicit false

/-! Terms whose binders were taken from the supply, each for one abstraction. Copies and
substitution make such terms, and a term is put together from them as long as no identity is taken
twice. -/

namespace UntypedLambda.Term

theorem exists_mem_vars_of_occursFree {t : Term} {id : Nat} (free : t.occursFree id = true) :
    ∃ v ∈ t.vars, v.id = id := by
  induction t with
  | var v => exact ⟨v, List.mem_cons_self, beq_iff_eq.mp free⟩
  | abs binder body ih =>
      obtain ⟨v, member, same⟩ := ih (Bool.and_eq_true_iff.mp free).2
      exact ⟨v, List.mem_cons_of_mem _ member, same⟩
  | app function argument ihFunction ihArgument =>
      rcases Bool.or_eq_true_iff.mp free with inFunction | inArgument
      · obtain ⟨v, member, same⟩ := ihFunction inFunction
        exact ⟨v, List.mem_append_left _ member, same⟩
      · obtain ⟨v, member, same⟩ := ihArgument inArgument
        exact ⟨v, List.mem_append_right _ member, same⟩

/-- The abstractions of a term have pairwise distinct identities from `issued`, none of them occurs
outside the body of its abstraction, and every other identity is `known` or from `issued`. -/
structure Minted (known issued : Set Nat) (t : Term) : Prop where
  distinct : (t.binders.map Var.id).Nodup
  enclosed : ∀ b ∈ t.binders, t.occursFree b.id = false
  binders : ∀ b ∈ t.binders, b.id ∈ issued
  identities : ∀ v ∈ t.vars, v.id ∈ known ∪ issued

namespace Minted

variable {known known' issued issued' first second : Set Nat}

theorem mono {t : Term} (minted : Minted known issued t) (knownLe : known ⊆ known')
    (issuedLe : issued ⊆ issued') : Minted known' issued' t where
  distinct := minted.distinct
  enclosed := minted.enclosed
  binders := fun b member => issuedLe (minted.binders b member)
  identities := fun v member => Set.union_subset_union knownLe issuedLe (minted.identities v member)

theorem var {v : Var} (source : v.id ∈ known ∪ issued) : Minted known issued (.var v) where
  distinct := List.nodup_nil
  enclosed := fun _ none => nomatch none
  binders := fun _ none => nomatch none
  identities := by
    intro w member
    rwa [List.mem_singleton.mp member]

theorem of_no_binders {t : Term} (none : t.binders = []) (source : ∀ v ∈ t.vars, v.id ∈ known) :
    Minted known issued t where
  distinct := by
    rw [none]
    exact List.nodup_nil
  enclosed := by simp [none]
  binders := by simp [none]
  identities := fun v member => Or.inl (source v member)

theorem occursFree_eq_false {t : Term} (minted : Minted known issued t) {id : Nat}
    (unknown : id ∉ known) (unissued : id ∉ issued) : t.occursFree id = false := by
  rw [Bool.eq_false_iff]
  intro free
  obtain ⟨v, member, rfl⟩ := exists_mem_vars_of_occursFree free
  rcases minted.identities v member with inKnown | inIssued
  · exact unknown inKnown
  · exact unissued inIssued

/-- Two terms whose binders come from different parts of the supply, neither of them known. -/
theorem app {function argument : Term} (inFunction : Minted known first function)
    (inArgument : Minted known second argument) (apart : Disjoint first second)
    (firstLe : first ⊆ issued) (secondLe : second ⊆ issued) (unknown : Disjoint known issued) :
    Minted known issued (.app function argument) where
  distinct := by
    rw [Term.binders, List.map_append]
    refine inFunction.distinct.append inArgument.distinct ?_
    intro id left right
    obtain ⟨b, inFirst, rfl⟩ := List.mem_map.mp left
    obtain ⟨c, inSecond, same⟩ := List.mem_map.mp right
    refine Set.disjoint_left.mp apart (inFunction.binders b inFirst) ?_
    rw [← same]
    exact inArgument.binders c inSecond
  enclosed := by
    intro b member
    rw [occursFree, Bool.or_eq_false_iff]
    rcases List.mem_append.mp member with inFirst | inSecond
    · have issuedHere := inFunction.binders b inFirst
      refine ⟨inFunction.enclosed b inFirst, inArgument.occursFree_eq_false ?_ ?_⟩
      · exact fun here => Set.disjoint_left.mp unknown here (firstLe issuedHere)
      · exact Set.disjoint_left.mp apart issuedHere
    · have issuedHere := inArgument.binders b inSecond
      refine ⟨inFunction.occursFree_eq_false ?_ ?_, inArgument.enclosed b inSecond⟩
      · exact fun here => Set.disjoint_left.mp unknown here (secondLe issuedHere)
      · exact Set.disjoint_right.mp apart issuedHere
  binders := by
    intro b member
    rcases List.mem_append.mp member with inFirst | inSecond
    · exact firstLe (inFunction.binders b inFirst)
    · exact secondLe (inArgument.binders b inSecond)
  identities := by
    intro v member
    rcases List.mem_append.mp member with inFirst | inSecond
    · exact Set.union_subset_union_right _ firstLe (inFunction.identities v inFirst)
    · exact Set.union_subset_union_right _ secondLe (inArgument.identities v inSecond)

/-- A binder that is taken from outside the identities issued for the body. -/
theorem abs {binder : Var} {body : Term} (inBody : Minted (insert binder.id known) first body)
    (unused : binder.id ∉ first) (fresh : binder.id ∈ issued) (le : first ⊆ issued) :
    Minted known issued (.abs binder body) where
  distinct := by
    rw [Term.binders, List.map_cons, List.nodup_cons]
    refine ⟨?_, inBody.distinct⟩
    intro member
    obtain ⟨b, inside, same⟩ := List.mem_map.mp member
    rw [← same] at unused
    exact unused (inBody.binders b inside)
  enclosed := by
    intro b member
    rw [occursFree, Bool.and_eq_false_iff]
    rcases List.mem_cons.mp member with rfl | inside
    · exact Or.inl (by simp)
    · exact Or.inr (inBody.enclosed b inside)
  binders := by
    intro b member
    rcases List.mem_cons.mp member with rfl | inside
    · exact fresh
    · exact le (inBody.binders b inside)
  identities := by
    intro v member
    rcases List.mem_cons.mp member with rfl | inside
    · exact Or.inr fresh
    · rcases inBody.identities v inside with (same | old) | new
      · rw [same]
        exact Or.inr fresh
      · exact Or.inl old
      · exact Or.inr (le new)

theorem abstractions {vars : List Var} {body : Term}
    (inBody : Minted (known ∪ {id | id ∈ vars.map Var.id}) first body)
    (distinct : (vars.map Var.id).Nodup) (unused : ∀ v ∈ vars, v.id ∉ first)
    (fresh : ∀ v ∈ vars, v.id ∈ issued) (le : first ⊆ issued) :
    Minted known issued (Term.abstractions vars body) := by
  induction vars generalizing known issued with
  | nil => exact inBody.mono (by simp) le
  | cons v vars ih =>
      rw [List.map_cons, List.nodup_cons] at distinct
      have inner : Minted (insert v.id known) (issued \ {v.id}) (Term.abstractions vars body) := by
        refine ih (inBody.mono ?_ (subset_refl _)) distinct.2 ?_ ?_ ?_
        · rintro id (old | member)
          · exact Or.inl (Or.inr old)
          · rcases List.mem_cons.mp member with same | later
            · exact Or.inl (Or.inl same)
            · exact Or.inr later
        · exact fun w member => unused w (List.mem_cons_of_mem _ member)
        · intro w member
          refine ⟨fresh w (List.mem_cons_of_mem _ member), fun same => distinct.1 ?_⟩
          rw [← Set.mem_singleton_iff.mp same]
          exact List.mem_map_of_mem member
        · intro id member
          refine ⟨le member, fun same => unused v List.mem_cons_self ?_⟩
          rwa [← Set.mem_singleton_iff.mp same]
      exact inner.abs (by simp) (fresh v List.mem_cons_self) Set.sdiff_subset

/-- Two terms with binders from the supply up to `between`, and from there on. -/
theorem app_of_le {function argument : Term} {start between stop : Nat}
    (inFunction : Minted known (Set.Ico start between) function)
    (inArgument : Minted known (Set.Ico between stop) argument) (firstLe : start ≤ between)
    (secondLe : between ≤ stop) (unknown : Disjoint known (Set.Ico start stop)) :
    Minted known (Set.Ico start stop) (.app function argument) := by
  refine inFunction.app inArgument ?_ ?_ ?_ unknown
  · exact Set.Ico_disjoint_Ico_same
  · exact Set.Ico_subset_Ico_right secondLe
  · exact Set.Ico_subset_Ico_left firstLe

theorem below {t : Term} {start stop : Nat} (minted : Minted known (Set.Ico start stop) t)
    (knownBelow : ∀ id ∈ known, id < stop) : t.Below stop := by
  intro v member
  rcases minted.identities v member with old | new
  · exact knownBelow v.id old
  · exact new.2

end Minted

/-- The identities that a term may take over: those below `base`, and those of the enclosing
binders. -/
def known (enclosing : List Nat) (base : Nat) : Set Nat :=
  {id | id < base ∨ id ∈ enclosing}

theorem known_nil (base : Nat) : known [] base = Set.Iio base := by
  ext id
  simp [known]

theorem known_cons (id base : Nat) (enclosing : List Nat) :
    known (id :: enclosing) base = insert id (known enclosing base) := by
  ext other
  simp [known, or_left_comm]

theorem known_disjoint {enclosing : List Nat} {base supply : Nat}
    (below : ∀ id ∈ enclosing, id < supply) (le : base ≤ supply) (stop : Nat) :
    Disjoint (known enclosing base) (Set.Ico supply stop) := by
  rw [Set.disjoint_left]
  rintro id (old | member) new
  · exact absurd (Nat.lt_of_lt_of_le old le) (Nat.not_lt.mpr new.1)
  · exact absurd (below id member) (Nat.not_lt.mpr new.1)

/-! ### Copies -/

theorem Renaming.Issued.new_lt {ρ : Renaming} {base supply : Nat} (issued : ρ.Issued base supply) :
    ∀ id ∈ ρ.map (fun entry => entry.2.id), id < supply := by
  intro id member
  obtain ⟨entry, inside, rfl⟩ := List.mem_map.mp member
  exact issued.below entry inside

theorem Renaming.apply_mem_known (ρ : Renaming) {base : Nat} {v : Var} (below : v.id < base) :
    (ρ.apply v).id ∈ known (ρ.map fun entry => entry.2.id) base := by
  rcases apply_cases ρ v with same | ⟨entry, member, same⟩
  · rw [same]
    exact Or.inl below
  · rw [same]
    exact Or.inr (List.mem_map.mpr ⟨entry, member, rfl⟩)

theorem minted_renameFrom {ρ : Renaming} {t : Term} {base supply : Nat}
    (issued : ρ.Issued base supply) (le : base ≤ supply) (below : t.Below base) :
    Minted (known (ρ.map fun entry => entry.2.id) base)
      (Set.Ico supply (t.renameFrom ρ supply).2) (t.renameFrom ρ supply).1 := by
  induction t generalizing ρ supply with
  | var v => exact .var (Or.inl (ρ.apply_mem_known ((below_var _ _).mp below)))
  | abs binder body ih =>
      have inBody := ih (issued.pass le binder) (Nat.le_succ_of_le le)
        ((below_abs _ _ _).mp below).2
      have grown := le_renameFrom ((binder.id, binder.withId supply) :: ρ) body (supply + 1)
      rw [List.map_cons, known_cons] at inBody
      refine inBody.abs ?_ ?_ ?_
      · exact fun new => absurd new.1 (Nat.not_succ_le_self supply)
      · exact ⟨Nat.le_refl supply, grown⟩
      · exact Set.Ico_subset_Ico_left (Nat.le_succ supply)
  | app function argument ihFunction ihArgument =>
      obtain ⟨inFunction, inArgument⟩ := (below_app _ _ _).mp below
      have grown := le_renameFrom ρ function supply
      have right := ihArgument (issued.mono grown) (Nat.le_trans le grown) inArgument
      exact (ihFunction issued le inFunction).app_of_le right grown (le_renameFrom ρ argument _)
        (known_disjoint issued.new_lt le _)

theorem minted_freshCopy {t : Term} {base supply : Nat} (below : t.Below base)
    (le : base ≤ supply) :
    Minted (Set.Iio base) (Set.Ico supply (t.freshCopy supply).2) (t.freshCopy supply).1 := by
  rw [← known_nil]
  exact minted_renameFrom (Renaming.issued_nil base supply) le below

/-! ### Substitution -/

theorem minted_substituteUnder {id : Nat} {replacement : Term} {ρ : Renaming} {t : Term}
    {base supply : Nat} (issued : ρ.Issued base supply) (le : base ≤ supply)
    (below : t.Below base) (replacementBelow : replacement.Below base)
    (unbound : ∀ b ∈ t.binders, b.id ≠ id) :
    Minted (known (ρ.map fun entry => entry.2.id) base)
      (Set.Ico supply (substituteUnder id replacement ρ t supply).2)
      (substituteUnder id replacement ρ t supply).1 := by
  induction t generalizing ρ supply with
  | var v =>
      rw [substituteUnder]
      split
      · refine (minted_freshCopy replacementBelow le).mono ?_ (subset_refl _)
        exact fun _ old => Or.inl old
      · exact .var (Or.inl (ρ.apply_mem_known ((below_var _ _).mp below)))
  | abs binder body ih =>
      have different : ¬ (binder.id == id) = true := by
        rw [beq_iff_eq]
        exact unbound binder List.mem_cons_self
      rw [substituteUnder, if_neg different]
      have inBody := ih (issued.pass le binder) (Nat.le_succ_of_le le)
        ((below_abs _ _ _).mp below).2 fun b member => unbound b (List.mem_cons_of_mem _ member)
      have grown := le_substituteUnder id replacement ((binder.id, binder.withId supply) :: ρ) body
        (supply + 1)
      rw [List.map_cons, known_cons] at inBody
      refine inBody.abs ?_ ?_ ?_
      · exact fun new => absurd new.1 (Nat.not_succ_le_self supply)
      · exact ⟨Nat.le_refl supply, grown⟩
      · exact Set.Ico_subset_Ico_left (Nat.le_succ supply)
  | app function argument ihFunction ihArgument =>
      obtain ⟨inFunction, inArgument⟩ := (below_app _ _ _).mp below
      have grown := le_substituteUnder id replacement ρ function supply
      have left := ihFunction issued le inFunction
        fun b member => unbound b (List.mem_append_left _ member)
      have right := ihArgument (issued.mono grown) (Nat.le_trans le grown) inArgument
        fun b member => unbound b (List.mem_append_right _ member)
      exact left.app_of_le right grown (le_substituteUnder id replacement ρ argument _)
        (known_disjoint issued.new_lt le _)

theorem minted_substitute {target replacement : Term} {id supply : Nat}
    (below : target.Below supply) (replacementBelow : replacement.Below supply)
    (unbound : ∀ b ∈ target.binders, b.id ≠ id) :
    Minted (Set.Iio supply) (Set.Ico supply (target.substitute id replacement supply).2)
      (target.substitute id replacement supply).1 := by
  rw [← known_nil]
  exact minted_substituteUnder (Renaming.issued_nil supply supply) (Nat.le_refl supply) below
    replacementBelow unbound

end UntypedLambda.Term
