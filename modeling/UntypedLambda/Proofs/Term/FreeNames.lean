import UntypedLambda.Proofs.Term.Equality

set_option autoImplicit false

/-! The free names of a term are the free names of its nameless reading. -/

namespace UntypedLambda

namespace Nameless

variable {α β : Type}

def labels : Nameless α → List α
  | .bound _ => []
  | .free name => [name]
  | .lam body => body.labels
  | .app function argument => function.labels ++ argument.labels

theorem labels_map (f : α → β) (t : Nameless α) : (t.map f).labels = t.labels.map f := by
  induction t with
  | bound index => rfl
  | free name => rfl
  | lam body ih => exact ih
  | app function argument ihFunction ihArgument =>
      simp only [map, labels, ihFunction, ihArgument, List.map_append]

theorem labels_rename (ρ : Nat → Nat) (t : Nameless α) : (t.rename ρ).labels = t.labels := by
  induction t generalizing ρ with
  | bound index => rfl
  | free name => rfl
  | lam body ih => exact ih _
  | app function argument ihFunction ihArgument => rw [rename, labels, ihFunction, ihArgument, labels]

theorem labels_shift (cutoff amount : Nat) (t : Nameless α) :
    (t.shift cutoff amount).labels = t.labels := by
  rw [shift_eq_rename, labels_rename]

end Nameless

namespace Term

def addName (seen : List String) (name : String) : List String :=
  if seen.contains name then seen else name :: seen

theorem mem_addName (seen : List String) (name other : String) :
    other ∈ addName seen name ↔ other ∈ seen ∨ other = name := by
  unfold addName
  split
  · rename_i repeated
    rw [List.contains_iff_mem] at repeated
    constructor
    · exact Or.inl
    · rintro (member | rfl)
      · exact member
      · exact repeated
  · rw [List.mem_cons, or_comm]

theorem mem_foldl_addName (names seen : List String) (other : String) :
    other ∈ names.foldl addName seen ↔ other ∈ seen ∨ other ∈ names := by
  induction names generalizing seen with
  | nil => simp
  | cons name names ih => rw [List.foldl_cons, ih, mem_addName, List.mem_cons, or_assoc]

theorem collectFree_eq (bound : List Nat) (t : Term) (seen : List String) :
    t.collectFree bound seen = ((t.readUnder bound).labels.map Var.name).foldl addName seen := by
  induction t generalizing bound seen with
  | var v =>
      rcases readOccurrence_cases bound v with ⟨inside, index, reads⟩ | ⟨outside, reads⟩
      · have skip : bound.contains v.id = true := List.contains_iff_mem.mpr inside
        simp only [collectFree, readUnder, reads, skip, Bool.true_or, if_true]
        rfl
      · have keep : bound.contains v.id = false := by simpa using outside
        simp only [collectFree, readUnder, reads, keep, Bool.false_or]
        rfl
  | abs binder body ih => exact ih (binder.id :: bound) seen
  | app function argument ihFunction ihArgument =>
      rw [collectFree, ihFunction, ihArgument, readUnder, Nameless.labels, List.map_append,
        List.foldl_append]

/-- The free names depend only on the reading with free occurrences taken by name. -/
theorem freeNames_eq (t : Term) :
    t.freeNames = (t.namelessByName.labels.foldl addName []).reverse := by
  rw [freeNames, collectFree_eq, namelessByName, Nameless.labels_map, nameless]

theorem freeNames_eq_of_alphaEqual {left right : Term} (same : left.alphaEqual right = true) :
    left.freeNames = right.freeNames := by
  rw [freeNames_eq, freeNames_eq, (alphaEqual_iff left right).mp same]

theorem mem_freeNames_iff_mem_labels (t : Term) (name : String) :
    name ∈ t.freeNames ↔ name ∈ t.namelessByName.labels := by
  rw [freeNames_eq, List.mem_reverse, mem_foldl_addName]
  simp

theorem mem_freeNames (t : Term) (name : String) :
    name ∈ t.freeNames ↔ ∃ v ∈ t.nameless.labels, v.name = name := by
  rw [mem_freeNames_iff_mem_labels, namelessByName, Nameless.labels_map, List.mem_map]

/-- A free occurrence is outside every abstraction with its identity. -/
theorem occursFree_of_mem_labels {scope : List Nat} {t : Term} {v : Var}
    (member : v ∈ (t.readUnder scope).labels) : v.id ∉ scope ∧ t.occursFree v.id = true := by
  induction t generalizing scope with
  | var w =>
      rcases readOccurrence_cases scope w with ⟨_, index, reads⟩ | ⟨outside, reads⟩
      · rw [readUnder, reads] at member
        cases member
      · rw [readUnder, reads] at member
        rw [List.mem_singleton.mp member]
        exact ⟨outside, beq_self_eq_true w.id⟩
  | abs binder body ih =>
      obtain ⟨outside, free⟩ := ih member
      rw [List.mem_cons, not_or] at outside
      refine ⟨outside.2, ?_⟩
      rw [occursFree, free, Bool.and_true, bne_iff_ne]
      exact Ne.symm outside.1
  | app function argument ihFunction ihArgument =>
      rcases List.mem_append.mp member with inFunction | inArgument
      · obtain ⟨outside, free⟩ := ihFunction inFunction
        exact ⟨outside, by rw [occursFree, free, Bool.true_or]⟩
      · obtain ⟨outside, free⟩ := ihArgument inArgument
        exact ⟨outside, by rw [occursFree, free, Bool.or_true]⟩

theorem exists_mem_labels_of_occursFree {scope : List Nat} {t : Term} {id : Nat}
    (outside : id ∉ scope) (free : t.occursFree id = true) :
    ∃ v ∈ (t.readUnder scope).labels, v.id = id := by
  induction t generalizing scope with
  | var v =>
      have same : v.id = id := beq_iff_eq.mp free
      rcases readOccurrence_cases scope v with ⟨inside, _⟩ | ⟨_, reads⟩
      · rw [same] at inside
        exact absurd inside outside
      · refine ⟨v, ?_, same⟩
        rw [readUnder, reads]
        exact List.mem_singleton_self v
  | abs binder body ih =>
      obtain ⟨different, inBody⟩ := Bool.and_eq_true_iff.mp free
      refine ih ?_ inBody
      rw [List.mem_cons, not_or]
      exact ⟨Ne.symm (bne_iff_ne.mp different), outside⟩
  | app function argument ihFunction ihArgument =>
      rcases Bool.or_eq_true_iff.mp free with inFunction | inArgument
      · obtain ⟨v, member, same⟩ := ihFunction outside inFunction
        exact ⟨v, List.mem_append_left _ member, same⟩
      · obtain ⟨v, member, same⟩ := ihArgument outside inArgument
        exact ⟨v, List.mem_append_right _ member, same⟩

end Term

end UntypedLambda
