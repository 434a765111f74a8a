import UntypedLambda.Proofs.Encoding.Identities
import UntypedLambda.Proofs.Resolution.Scope

set_option autoImplicit false

/-! The binders of resolved expressions. All of them are new, whatever the context and the
settings. -/

namespace UntypedLambda

open Surface Term

namespace Resolution

theorem Issued.known_disjoint {scope : List Var} {base supply : Nat}
    (issued : Issued scope base supply) (le : base ≤ supply) (stop : Nat) :
    Disjoint (known (scope.map Var.id) base) (Set.Ico supply stop) := by
  refine Term.known_disjoint ?_ le stop
  intro id member
  obtain ⟨v, inScope, rfl⟩ := List.mem_map.mp member
  exact issued.below v inScope

theorem Issued.known_lt {scope : List Var} {base supply : Nat} (issued : Issued scope base supply)
    (le : base ≤ supply) : ∀ id ∈ known (scope.map Var.id) base, id < supply := by
  rintro id (old | member)
  · exact Nat.lt_of_lt_of_le old le
  · obtain ⟨v, inScope, rfl⟩ := List.mem_map.mp member
    exact issued.below v inScope

theorem resolveName_minted {context : Context} {strict : Bool} {base : Nat}
    (definitions : context.Below base) {name : Name} {scope : List Var} {supply : Nat} {t : Term}
    {left : Nat} (le : base ≤ supply)
    (resolved : resolveName context strict scope name supply = .ok (t, left)) :
    supply ≤ left ∧ Minted (known (scope.map Var.id) base) (Set.Ico supply left) t := by
  unfold resolveName at resolved
  split at resolved
  · rename_i v found
    cases resolved
    have inScope : v.id ∈ scope.map Var.id :=
      List.mem_map_of_mem (List.mem_of_find?_eq_some found)
    exact ⟨Nat.le_refl supply, .var (Or.inl (Or.inr inScope))⟩
  · split at resolved
    · rename_i copied
      obtain ⟨definition, found, copy⟩ := Option.map_eq_some_iff.mp copied
      have same := copy.trans (Except.ok.inj resolved)
      have minted := minted_freshCopy (definitions.find? found) le
      have grown := le_renameFrom [] definition supply
      rw [← freshCopy] at grown
      rw [same] at minted grown
      exact ⟨grown, minted.mono (fun _ old => Or.inl old) (subset_refl _)⟩
    · split at resolved
      · cases resolved
      · cases resolved
        exact ⟨Nat.le_succ supply, .var (Or.inr ⟨Nat.le_refl supply, Nat.lt_succ_self supply⟩)⟩

mutual

/-- The binders of a resolved expression are new, and the other identities in it are new as well,
or those of binders in scope and of definitions. -/
theorem resolve_minted {context : Context} {strict : Bool} {base : Nat}
    (definitions : context.Below base) (e : Expr) {scope : List Var} {supply : Nat} {t : Term}
    {left : Nat} (issued : Issued scope base supply) (le : base ≤ supply)
    (resolved : resolve context strict scope e supply = .ok (t, left)) :
    supply ≤ left ∧ Minted (known (scope.map Var.id) base) (Set.Ico supply left) t := by
  match e with
  | .var _ name => exact resolveName_minted definitions le resolved
  | .nat _ value =>
      cases resolved
      exact ⟨Nat.le_add_right supply 2, Encoding.minted_numeral value supply⟩
  | .lam _ binders body =>
      obtain ⟨inner, inBody, returned⟩ := Except.exists_of_bind resolved
      cases returned
      rw [length_freshBinders] at inBody
      have entered := issued.enter le binders
      obtain ⟨grown, minted⟩ := resolve_minted definitions body entered
        (Nat.le_trans le (Nat.le_add_right _ _)) inBody
      refine ⟨Nat.le_trans (Nat.le_add_right _ _) grown, ?_⟩
      refine (minted.mono ?_ (subset_refl _)).abstractions ?_ ?_ ?_ ?_
      · rintro id (old | member)
        · exact Or.inl (Or.inl old)
        · rw [List.map_append, List.mem_append, List.map_reverse, List.mem_reverse] at member
          exact member.elim Or.inr fun inScope => Or.inl (Or.inr inScope)
      · rw [map_id_freshBinders]
        exact List.nodup_range'
      · exact fun v member new =>
          absurd (mem_freshBinders member).2 (Nat.not_lt.mpr new.1)
      · exact fun v member =>
          ⟨(mem_freshBinders member).1, Nat.lt_of_lt_of_le (mem_freshBinders member).2 grown⟩
      · exact Set.Ico_subset_Ico_left (Nat.le_add_right _ _)
  | .app _ function argument =>
      obtain ⟨first, inFunction, rest⟩ := Except.exists_of_bind resolved
      obtain ⟨second, inArgument, returned⟩ := Except.exists_of_bind rest
      cases returned
      obtain ⟨firstLe, function⟩ := resolve_minted definitions function issued le inFunction
      obtain ⟨secondLe, argument⟩ := resolve_minted definitions argument (issued.mono firstLe)
        (Nat.le_trans le firstLe) inArgument
      exact ⟨Nat.le_trans firstLe secondLe,
        function.app_of_le argument firstLe secondLe (issued.known_disjoint le _)⟩
  | .tuple _ elements =>
      obtain ⟨parts, inParts, returned⟩ := Except.exists_of_bind resolved
      cases returned
      have series := resolveAll_minted definitions elements issued le inParts
      exact ⟨Nat.le_succ_of_le series.le,
        Encoding.minted_tuple series (issued.known_disjoint le _)⟩
  | .list _ elements =>
      obtain ⟨parts, inParts, returned⟩ := Except.exists_of_bind resolved
      have series := resolveAll_minted definitions elements issued le inParts
      have grown := Encoding.le_list parts.1 parts.2
      have minted := Encoding.minted_list series (issued.known_disjoint le)
      rw [Except.ok.inj returned] at grown minted
      exact ⟨Nat.le_trans series.le grown, minted⟩
  | .cons _ head tail =>
      obtain ⟨first, inHead, rest⟩ := Except.exists_of_bind resolved
      obtain ⟨second, inTail, returned⟩ := Except.exists_of_bind rest
      cases returned
      obtain ⟨firstLe, head⟩ := resolve_minted definitions head issued le inHead
      obtain ⟨secondLe, tail⟩ := resolve_minted definitions tail (issued.mono firstLe)
        (Nat.le_trans le firstLe) inTail
      exact ⟨Nat.le_trans (Nat.le_trans firstLe secondLe) (Nat.le_add_right _ 2),
        Encoding.minted_cons firstLe secondLe head tail (issued.known_disjoint le _)⟩

theorem resolveAll_minted {context : Context} {strict : Bool} {base : Nat}
    (definitions : context.Below base) (elements : List Expr) {scope : List Var} {supply : Nat}
    {ts : List Term} {left : Nat} (issued : Issued scope base supply) (le : base ≤ supply)
    (resolved : resolveAll context strict scope elements supply = .ok (ts, left)) :
    Encoding.Series (known (scope.map Var.id) base) supply left ts := by
  match elements with
  | [] =>
      cases resolved
      exact .nil supply
  | element :: rest =>
      obtain ⟨first, inElement, others⟩ := Except.exists_of_bind resolved
      obtain ⟨parts, inRest, returned⟩ := Except.exists_of_bind others
      cases returned
      obtain ⟨grown, minted⟩ := resolve_minted definitions element issued le inElement
      exact .cons grown minted
        (resolveAll_minted definitions rest (issued.mono grown) (Nat.le_trans le grown) inRest)

end

end Resolution

theorem resolveTerm_minted {context : Context} {settings : Settings} {supply : Nat}
    (definitions : context.Below supply) {e : Expr} {t : Term} {left : Nat}
    (resolved : resolveTerm context settings e supply = .ok (t, left)) :
    supply ≤ left ∧ Minted (Set.Iio supply) (Set.Ico supply left) t := by
  rw [← known_nil]
  exact Resolution.resolve_minted definitions e (Resolution.issued_nil supply supply)
    (Nat.le_refl supply) resolved

theorem resolveTerm_below {context : Context} {settings : Settings} {supply : Nat}
    (definitions : context.Below supply) {e : Expr} {t : Term × Nat}
    (resolved : resolveTerm context settings e supply = .ok t) : supply ≤ t.2 ∧ t.1.Below t.2 := by
  obtain ⟨grown, minted⟩ := resolveTerm_minted definitions resolved
  exact ⟨grown, minted.below fun _ old => Nat.lt_of_lt_of_le old grown⟩

theorem resolveDefinition_minted {context : Context} {settings : Settings} {name : String}
    {supply : Nat} (definitions : context.Below supply) {body : Expr} {t : Term} {left : Nat}
    (resolved : resolveDefinition context settings name body supply = .ok (t, left)) :
    supply ≤ left ∧ Minted (Set.Iio supply) (Set.Ico supply left) t := by
  unfold resolveDefinition at resolved
  split at resolved
  · obtain ⟨inner, inBody, returned⟩ := Except.exists_of_bind resolved
    have returned := Except.ok.inj returned
    have issued : Resolution.Issued [⟨name, supply⟩] supply (supply + 1) := by
      constructor <;> simp
    obtain ⟨grown, minted⟩ :=
      Resolution.resolve_minted definitions body issued (Nat.le_succ supply) inBody
    rw [List.map_cons, List.map_nil, known_cons, known_nil] at minted
    have unknown (stop : Nat) : Disjoint (Set.Iio supply) (Set.Ico supply stop) :=
      Set.disjoint_left.mpr fun id old new => absurd old (Nat.not_lt.mpr new.1)
    have fixed := Encoding.minted_fix settings.fixpoint ⟨name, supply⟩ grown
      (Nat.lt_succ_self supply) minted unknown
    have knotted := Encoding.le_term settings.fixpoint inner.2
    have whole : supply ≤ (settings.fixpoint.fix ⟨name, supply⟩ inner.1 inner.2).2 :=
      Nat.le_trans (Nat.le_of_succ_le grown) knotted
    rw [returned] at fixed whole
    exact ⟨whole, fixed⟩
  · exact resolveTerm_minted definitions resolved

end UntypedLambda
