import Mathlib.Data.List.Nodup
import UntypedLambda.Proofs.Except
import UntypedLambda.Proofs.Term.Identities
import UntypedLambda.Resolution

set_option autoImplicit false

/-! The scopes in which names are resolved. All binders in scope have identities from the supply,
and no two of them share one, so that the binder found by its name is found by its identity as
well. -/

namespace UntypedLambda

def Context.Below (supply : Nat) (context : Context) : Prop :=
  ∀ entry ∈ context.entries, entry.2.Below supply

instance (supply : Nat) (context : Context) : Decidable (context.Below supply) :=
  inferInstanceAs (Decidable (∀ entry ∈ context.entries, entry.2.Below supply))

namespace Context

theorem Below.mono {context : Context} {supply supply' : Nat} (below : context.Below supply)
    (le : supply ≤ supply') : context.Below supply' :=
  fun entry member => (below entry member).mono le

theorem mem_entries_of_find? {context : Context} {name : String} {t : Term}
    (found : context.find? name = some t) : (name, t) ∈ context.entries := by
  obtain ⟨before, after, split, _⟩ := List.lookup_eq_some_iff.mp found
  rw [split]
  simp

theorem Below.find? {context : Context} {supply : Nat} (below : context.Below supply)
    {name : String} {t : Term} (found : context.find? name = some t) : t.Below supply :=
  below (name, t) (mem_entries_of_find? found)

private theorem mem_insertEntry {name : String} {t : Term} {entries : List (String × Term)}
    {entry : String × Term} (member : entry ∈ insertEntry name t entries) :
    entry = (name, t) ∨ entry ∈ entries := by
  induction entries with
  | nil => exact Or.inl (List.mem_singleton.mp member)
  | cons first entries ih =>
      rw [insertEntry] at member
      split at member
      · exact (List.mem_cons.mp member).imp_right (List.mem_cons_of_mem _)
      · split at member
        · exact List.mem_cons.mp member
        · rcases List.mem_cons.mp member with rfl | later
          · exact Or.inr List.mem_cons_self
          · exact (ih later).imp_right (List.mem_cons_of_mem _)

/-- Every entry after a definition is the new one or an old one. -/
theorem mem_entries_define {context : Context} {name : String} {t : Term} {entry : String × Term}
    (member : entry ∈ (context.define name t).entries) :
    entry = (name, t) ∨ entry ∈ context.entries :=
  mem_insertEntry member

theorem Below.define {context : Context} {supply : Nat} (below : context.Below supply) {t : Term}
    (belowTerm : t.Below supply) (name : String) : (context.define name t).Below supply := by
  intro entry member
  rcases mem_entries_define member with rfl | old
  · exact belowTerm
  · exact below entry old

end Context

namespace Resolution

open Surface

theorem map_name_freshBinders (binders : List Name) (supply : Nat) :
    (freshBinders binders supply).map Var.name = binders.map Located.value := by
  induction binders generalizing supply with
  | nil => rfl
  | cons binder binders ih => rw [freshBinders, List.map_cons, List.map_cons, ih]

theorem map_id_freshBinders (binders : List Name) (supply : Nat) :
    (freshBinders binders supply).map Var.id = List.range' supply binders.length := by
  induction binders generalizing supply with
  | nil => rfl
  | cons binder binders ih =>
      rw [freshBinders, List.map_cons, ih, List.length_cons, List.range'_succ]

theorem length_freshBinders (binders : List Name) (supply : Nat) :
    (freshBinders binders supply).length = binders.length := by
  rw [← List.length_map Var.id, map_id_freshBinders, List.length_range']

theorem mem_freshBinders {binders : List Name} {supply : Nat} {v : Var}
    (member : v ∈ freshBinders binders supply) :
    supply ≤ v.id ∧ v.id < supply + binders.length := by
  have inRange : v.id ∈ List.range' supply binders.length := by
    rw [← map_id_freshBinders]
    exact List.mem_map_of_mem member
  simpa using inRange

/-- The identities of a scope were taken from the supply between `base` and `supply`, each for one
binder. -/
structure Issued (scope : List Var) (base supply : Nat) : Prop where
  above : ∀ v ∈ scope, base ≤ v.id
  below : ∀ v ∈ scope, v.id < supply
  distinct : (scope.map Var.id).Nodup

theorem issued_nil (base supply : Nat) : Issued [] base supply where
  above := by simp
  below := by simp
  distinct := List.nodup_nil

namespace Issued

variable {scope : List Var} {base supply : Nat}

theorem mono {supply' : Nat} (issued : Issued scope base supply) (le : supply ≤ supply') :
    Issued scope base supply' where
  above := issued.above
  below := fun v member => Nat.lt_of_lt_of_le (issued.below v member) le
  distinct := issued.distinct

theorem enter (issued : Issued scope base supply) (le : base ≤ supply) (binders : List Name) :
    Issued ((freshBinders binders supply).reverse ++ scope) base (supply + binders.length) where
  above := by
    intro v member
    rcases List.mem_append.mp member with new | old
    · exact Nat.le_trans le (mem_freshBinders (List.mem_reverse.mp new)).1
    · exact issued.above v old
  below := by
    intro v member
    rcases List.mem_append.mp member with new | old
    · exact (mem_freshBinders (List.mem_reverse.mp new)).2
    · exact Nat.lt_add_right _ (issued.below v old)
  distinct := by
    rw [List.map_append, List.map_reverse, map_id_freshBinders]
    refine List.Nodup.append ?_ issued.distinct ?_
    · exact List.nodup_reverse.mpr List.nodup_range'
    · intro id new old
      obtain ⟨v, inScope, rfl⟩ := List.mem_map.mp old
      have fresh : supply ≤ v.id := (List.mem_range'_1.mp (List.mem_reverse.mp new)).1
      exact absurd (issued.below v inScope) (Nat.not_lt.mpr fresh)

end Issued

/-- Where identities are distinct, the first binder that passes a test is found by its identity. -/
theorem findIdx?_id {scope : List Var} (distinct : (scope.map Var.id).Nodup) {p : Var → Bool}
    {w : Var} (found : scope.find? p = some w) :
    scope.findIdx? (fun v => v.id == w.id) = scope.findIdx? p := by
  induction scope with
  | nil => cases found
  | cons v scope ih =>
      rw [List.map_cons, List.nodup_cons] at distinct
      rw [List.find?_cons] at found
      rw [List.findIdx?_cons, List.findIdx?_cons]
      cases here : p v with
      | true =>
          rw [here] at found
          rw [Option.some.inj found, beq_self_eq_true]
          rfl
      | false =>
          rw [here] at found
          have other : (v.id == w.id) = false := by
            rw [beq_eq_false_iff_ne]
            intro same
            rw [same] at distinct
            exact distinct.1 (List.mem_map_of_mem (List.mem_of_find?_eq_some found))
          rw [other, ih distinct.2 found]

end Resolution

end UntypedLambda
