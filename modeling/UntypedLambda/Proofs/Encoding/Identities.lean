import UntypedLambda.Encoding.Basic
import UntypedLambda.Encoding.Fixpoint
import UntypedLambda.Proofs.Term.Minted

set_option autoImplicit false

/-! The binders of encodings and combinators. Each comes from the supply that is left by the parts,
so that the whole is minted when the parts are. -/

namespace UntypedLambda.Encoding

open Term

variable {known : Set Nat}

/-- Terms whose binders come from consecutive parts of the supply. -/
inductive Series (known : Set Nat) : Nat → Nat → List Term → Prop where
  | nil (start : Nat) : Series known start start []
  | cons {start between stop : Nat} {t : Term} {ts : List Term} : start ≤ between →
      Minted known (Set.Ico start between) t → Series known between stop ts →
      Series known start stop (t :: ts)

namespace Series

theorem le {start stop : Nat} {ts : List Term} (series : Series known start stop ts) :
    start ≤ stop := by
  induction series with
  | nil start => exact Nat.le_refl start
  | cons first _ _ ih => exact Nat.le_trans first ih

theorem mono {known' : Set Nat} (sub : known ⊆ known') {start stop : Nat} {ts : List Term}
    (series : Series known start stop ts) : Series known' start stop ts := by
  induction series with
  | nil start => exact .nil start
  | cons first minted _ ih => exact .cons first (minted.mono sub (subset_refl _)) ih

theorem terms_below {start stop : Nat} {ts : List Term} (series : Series known start stop ts)
    (knownBelow : ∀ id ∈ known, id < start) : ∀ t ∈ ts, t.Below stop := by
  induction series with
  | nil start => exact fun _ none => nomatch none
  | @cons start between stop t ts first minted rest ih =>
      have later : ∀ id ∈ known, id < between :=
        fun id member => Nat.lt_of_lt_of_le (knownBelow id member) first
      intro u member
      rcases List.mem_cons.mp member with rfl | inside
      · exact (minted.below later).mono rest.le
      · exact ih later u inside

end Series

theorem minted_applications {head : Term} {arguments : List Term} {start between stop : Nat}
    (inHead : Minted known (Set.Ico start between) head) (le : start ≤ between)
    (series : Series known between stop arguments)
    (unknown : Disjoint known (Set.Ico start stop)) :
    Minted known (Set.Ico start stop) (applications head arguments) := by
  induction series generalizing head with
  | nil => exact inHead
  | @cons between next stop t ts first minted rest ih =>
      have soFar : Disjoint known (Set.Ico start next) :=
        unknown.mono_right (Set.Ico_subset_Ico_right rest.le)
      exact ih (inHead.app_of_le minted le first soFar) (Nat.le_trans le first) unknown

/-- Two binders from the supply that the body leaves. -/
theorem minted_pair {first second : String} {body : Term} {start supply : Nat}
    (le : start ≤ supply)
    (inBody : Minted (known ∪ {id | id ∈ [supply, supply + 1]}) (Set.Ico start supply) body) :
    Minted known (Set.Ico start (supply + 2))
      (abstractions [⟨first, supply⟩, ⟨second, supply + 1⟩] body) := by
  have ids : ∀ v ∈ [(⟨first, supply⟩ : Var), ⟨second, supply + 1⟩],
      supply ≤ v.id ∧ v.id < supply + 2 := by
    simp
  refine inBody.abstractions (by simp) ?_ ?_ ?_
  · exact fun v member inside => absurd (ids v member).1 (Nat.not_le.mpr inside.2)
  · exact fun v member => ⟨Nat.le_trans le (ids v member).1, (ids v member).2⟩
  · exact Set.Ico_subset_Ico_right (Nat.le_add_right supply 2)

theorem disjoint_union_pair {start supply : Nat} (unknown : Disjoint known (Set.Ico start supply)) :
    Disjoint (known ∪ {id | id ∈ [supply, supply + 1]}) (Set.Ico start supply) := by
  rw [Set.disjoint_union_left]
  refine ⟨unknown, Set.disjoint_left.mpr fun id member inside => ?_⟩
  have inPair : id ∈ [supply, supply + 1] := member
  simp only [List.mem_cons, List.not_mem_nil, or_false] at inPair
  rw [Set.mem_Ico] at inside
  omega

/-! ### Encodings -/

theorem binders_iterated (f : Var) (t : Term) (n : Nat) :
    (iterated f t n).binders = t.binders := by
  induction n generalizing t with
  | zero => rfl
  | succ n ih => exact ih (.app (.var f) t)

theorem mem_vars_iterated {f v : Var} {t : Term} {n : Nat} (member : v ∈ (iterated f t n).vars) :
    v = f ∨ v ∈ t.vars := by
  induction n generalizing t with
  | zero => exact Or.inr member
  | succ n ih =>
      rcases ih member with same | inside
      · exact Or.inl same
      · exact List.mem_cons.mp inside

theorem minted_numeral (n supply : Nat) :
    Minted known (Set.Ico supply (numeral n supply).2) (numeral n supply).1 := by
  refine minted_pair (Nat.le_refl supply) (.of_no_binders (binders_iterated _ _ n) ?_)
  intro v member
  rcases mem_vars_iterated member with rfl | inside
  · exact Or.inr (by simp)
  · rw [List.mem_singleton.mp inside]
    exact Or.inr (by simp)

theorem minted_nil (supply : Nat) :
    Minted known (Set.Ico supply (nil supply).2) (nil supply).1 := by
  refine minted_pair (Nat.le_refl supply) (.of_no_binders rfl ?_)
  intro v member
  rw [List.mem_singleton.mp member]
  exact Or.inr (by simp)

theorem minted_tuple {elements : List Term} {start supply : Nat}
    (series : Series known start supply elements)
    (unknown : Disjoint known (Set.Ico start supply)) :
    Minted known (Set.Ico start (tuple elements supply).2) (tuple elements supply).1 := by
  have unknown' : Disjoint (insert supply known) (Set.Ico start supply) :=
    Set.disjoint_insert_left.mpr ⟨by simp, unknown⟩
  have head : Minted (insert supply known) (Set.Ico start start) (.var ⟨"p", supply⟩) :=
    .var (Or.inl (Set.mem_insert supply known))
  have inBody := minted_applications head (Nat.le_refl start)
    (series.mono (Set.subset_insert supply known)) unknown'
  refine inBody.abs (by simp) ?_ (Set.Ico_subset_Ico_right (Nat.le_succ supply))
  exact ⟨series.le, Nat.lt_succ_self supply⟩

theorem minted_cons {head tail : Term} {start between supply : Nat} (firstLe : start ≤ between)
    (secondLe : between ≤ supply) (inHead : Minted known (Set.Ico start between) head)
    (inTail : Minted known (Set.Ico between supply) tail)
    (unknown : Disjoint known (Set.Ico start supply)) :
    Minted known (Set.Ico start (cons head tail supply).2) (cons head tail supply).1 := by
  have series : Series known start supply [head, tail] :=
    .cons firstLe inHead (.cons secondLe inTail (.nil supply))
  have headOf : Minted (known ∪ {id | id ∈ [supply, supply + 1]}) (Set.Ico start start)
      (.var ⟨"x", supply⟩) :=
    .var (Or.inl (Or.inr (by simp)))
  exact minted_pair series.le (minted_applications headOf (Nat.le_refl start)
    (series.mono Set.subset_union_left) (disjoint_union_pair unknown))

theorem le_list (elements : List Term) (supply : Nat) : supply ≤ (list elements supply).2 := by
  induction elements with
  | nil => exact Nat.le_add_right supply 2
  | cons head tail ih => exact Nat.le_trans ih (Nat.le_add_right _ 2)

theorem minted_list {elements : List Term} {start supply : Nat}
    (series : Series known start supply elements)
    (unknown : ∀ stop, Disjoint known (Set.Ico start stop)) :
    Minted known (Set.Ico start (list elements supply).2) (list elements supply).1 := by
  induction series with
  | nil start => exact minted_nil start
  | @cons start between stop t ts first minted rest ih =>
      have later (stop : Nat) : Disjoint known (Set.Ico between stop) :=
        (unknown stop).mono_right (Set.Ico_subset_Ico_left first)
      exact minted_cons first (Nat.le_trans rest.le (le_list ts stop)) minted (ih later) (unknown _)

/-! ### Combinators -/

theorem minted_turingHalf (supply : Nat) :
    Minted known (Set.Ico supply (supply + 2)) (turingHalf supply) := by
  refine minted_pair (Nat.le_refl supply) (.of_no_binders rfl ?_)
  intro v member
  have inPair : v.id ∈ [supply, supply + 1] := by
    simp only [applications, List.foldl_cons, List.foldl_nil, vars, List.cons_append,
      List.nil_append, List.mem_cons, List.not_mem_nil, or_false] at member
    rcases member with rfl | rfl | rfl | rfl <;> simp
  exact Or.inr inPair

theorem minted_curryHalf (f : Var) (inScope : f.id ∈ known) (supply : Nat) :
    Minted known (Set.Ico supply (supply + 1)) (curryHalf f supply) := by
  have inBody : Minted (insert supply known) (Set.Ico supply supply)
      (.app (.var f) (.app (.var ⟨"x", supply⟩) (.var ⟨"x", supply⟩))) := by
    refine .of_no_binders rfl fun v member => ?_
    simp only [vars, List.cons_append, List.nil_append, List.mem_cons, List.not_mem_nil,
      or_false] at member
    rcases member with rfl | rfl | rfl
    · exact Or.inr inScope
    · exact Or.inl rfl
    · exact Or.inl rfl
  refine inBody.abs (by simp) ?_ (by simp)
  exact ⟨Nat.le_refl supply, Nat.lt_succ_self supply⟩

theorem le_term (combinator : Combinator) (supply : Nat) : supply ≤ (combinator.term supply).2 := by
  cases combinator with
  | turing => exact Nat.le_add_right supply 4
  | curry => exact Nat.le_add_right supply 3

theorem minted_term (combinator : Combinator) (supply : Nat)
    (unknown : ∀ stop, Disjoint known (Set.Ico supply stop)) :
    Minted known (Set.Ico supply (combinator.term supply).2) (combinator.term supply).1 := by
  cases combinator with
  | turing =>
      exact (minted_turingHalf supply).app_of_le (minted_turingHalf (supply + 2))
        (Nat.le_add_right supply 2) (Nat.le_add_right (supply + 2) 2) (unknown _)
  | curry =>
      have inScope : supply ∈ insert supply known := Set.mem_insert supply known
      have unknown' : Disjoint (insert supply known) (Set.Ico (supply + 1) (supply + 3)) := by
        refine Set.disjoint_insert_left.mpr ⟨by simp, ?_⟩
        exact (unknown (supply + 3)).mono_right (Set.Ico_subset_Ico_left (Nat.le_succ supply))
      have halves := (minted_curryHalf ⟨"f", supply⟩ inScope (supply + 1)).app_of_le
        (minted_curryHalf ⟨"f", supply⟩ inScope (supply + 2)) (Nat.le_succ (supply + 1))
        (Nat.le_succ (supply + 2)) unknown'
      refine halves.abs (by simp) ?_ (Set.Ico_subset_Ico_left (Nat.le_succ supply))
      exact ⟨Nat.le_refl supply, Nat.lt_add_of_pos_right (by decide)⟩

theorem minted_fix (combinator : Combinator) (self : Var) {body : Term} {start supply : Nat}
    (le : start ≤ supply) (fresh : self.id < start)
    (inBody : Minted (insert self.id known) (Set.Ico start supply) body)
    (unknown : ∀ stop, Disjoint known (Set.Ico self.id stop)) :
    Minted known (Set.Ico self.id (combinator.fix self body supply).2)
      (combinator.fix self body supply).1 := by
  have atSupply (stop : Nat) : Disjoint known (Set.Ico supply stop) :=
    (unknown stop).mono_right (Set.Ico_subset_Ico_left (by omega))
  have knot := minted_term combinator supply atSupply
  have function : Minted known (Set.Ico self.id supply) (.abs self body) := by
    refine inBody.abs ?_ ?_ (Set.Ico_subset_Ico_left (Nat.le_of_lt fresh))
    · exact fun member => absurd fresh (Nat.not_lt.mpr member.1)
    · exact ⟨Nat.le_refl _, Nat.lt_of_lt_of_le fresh le⟩
  refine knot.app function Set.Ico_disjoint_Ico_same.symm ?_ ?_ (unknown _)
  · exact Set.Ico_subset_Ico_left (by omega)
  · exact Set.Ico_subset_Ico_right (le_term combinator supply)

end UntypedLambda.Encoding
