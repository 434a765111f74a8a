import UntypedLambda.Proofs.Term.FreeNames
import UntypedLambda.Proofs.Term.Minted
import UntypedLambda.Proofs.Term.Run

set_option autoImplicit false

/-! Terms in which an identity says all there is to say about a binder. A contraction keeps them so:
what it copies gets new binders, what it moves keeps its own, and nothing becomes free. -/

namespace UntypedLambda

/-! ### The free names of a contraction -/

namespace Nameless

variable {α : Type} {root? : Nameless α → Option (Nameless α)}

theorem mem_labels_instantiate {t replacement : Nameless α} {depth : Nat} {name : α}
    (member : name ∈ (t.instantiate depth replacement).labels) :
    name ∈ t.labels ∨ name ∈ replacement.labels := by
  induction t generalizing depth with
  | bound index =>
      rw [instantiate] at member
      split at member
      · cases member
      · split at member
        · rw [labels_shift] at member
          exact Or.inr member
        · cases member
  | free other => exact Or.inl member
  | lam body ih => exact ih member
  | app function argument ihFunction ihArgument =>
      rcases List.mem_append.mp member with inFunction | inArgument
      · exact (ihFunction inFunction).imp_left (List.mem_append_left _)
      · exact (ihArgument inArgument).imp_left (List.mem_append_right _)

theorem Contracts.labels_subset {t next : Nameless α} (step : Contracts root? t next)
    (atRoot : ∀ t next, root? t = some next → next.labels ⊆ t.labels) : next.labels ⊆ t.labels := by
  induction step with
  | root found => exact atRoot _ _ found
  | lam _ ih => exact ih
  | function argument _ ih =>
      rw [labels, labels, List.append_subset]
      exact ⟨List.Subset.trans ih (List.subset_append_left _ _), List.subset_append_right _ _⟩
  | argument function _ ih =>
      rw [labels, labels, List.append_subset]
      exact ⟨List.subset_append_left _ _, List.Subset.trans ih (List.subset_append_right _ _)⟩

theorem Beta.labels_subset {t next : Nameless α} (step : Beta t next) : next.labels ⊆ t.labels := by
  refine Contracts.labels_subset step fun t next found name member => ?_
  obtain ⟨body, argument, rfl, rfl⟩ := (betaRoot?_eq_some_iff _ _).mp found
  have source := mem_labels_instantiate member
  exact List.mem_append.mpr source

theorem Eta.labels_eq {t next : Nameless α} (step : Eta t next) : next.labels = t.labels := by
  induction step with
  | root found =>
      rw [(etaRoot?_eq_some_iff _ _).mp found, labels, labels, labels_rename, labels,
        List.append_nil]
  | lam _ ih => exact ih
  | function argument _ ih => rw [labels, labels, ih]
  | argument function _ ih => rw [labels, labels, ih]

end Nameless

namespace Term

theorem Contracts.labels_subset {mode : Mode} {supply : Nat} {t : Term} {next : Term × Nat}
    (step : Contracts mode supply t next) (below : t.Below supply) :
    next.1.nameless.labels ⊆ t.nameless.labels := by
  rcases step.readUnder below [] with ⟨_, inBeta⟩ | ⟨_, inEta⟩
  · exact inBeta.labels_subset
  · exact fun _ member => inEta.labels_eq ▸ member

theorem Contracts.occursFree {mode : Mode} {supply : Nat} {t : Term} {next : Term × Nat}
    (step : Contracts mode supply t next) (below : t.Below supply) {id : Nat}
    (free : next.1.occursFree id = true) : t.occursFree id = true := by
  obtain ⟨v, member, rfl⟩ := exists_mem_labels_of_occursFree List.not_mem_nil free
  exact (occursFree_of_mem_labels (step.labels_subset below member)).2

/-! ### Clean terms -/

/-- The abstractions of a term have pairwise distinct identities, none of them occurs outside the
body of its abstraction, and the supply is above every identity. -/
structure Clean (supply : Nat) (t : Term) : Prop where
  distinct : (t.binders.map Var.id).Nodup
  enclosed : ∀ b ∈ t.binders, t.occursFree b.id = false
  below : t.Below supply

def Apart (t u : Term) : Prop :=
  ∀ b ∈ t.binders, ∀ c ∈ u.binders, b.id ≠ c.id

theorem Clean.mono {supply supply' : Nat} {t : Term} (clean : t.Clean supply)
    (le : supply ≤ supply') : t.Clean supply' :=
  ⟨clean.distinct, clean.enclosed, clean.below.mono le⟩

theorem Minted.clean {supply left : Nat} {t : Term}
    (minted : Minted (Set.Iio supply) (Set.Ico supply left) t) (le : supply ≤ left) :
    t.Clean left where
  distinct := minted.distinct
  enclosed := minted.enclosed
  below := minted.below fun _ old => Nat.lt_of_lt_of_le old le

theorem clean_abs_iff (supply : Nat) (binder : Var) (body : Term) :
    (Term.abs binder body).Clean supply ↔
      binder.id < supply ∧ (∀ b ∈ body.binders, b.id ≠ binder.id) ∧ body.Clean supply := by
  constructor
  · intro clean
    obtain ⟨lt, inBody⟩ := (below_abs _ _ _).mp clean.below
    obtain ⟨fresh, distinct⟩ := List.nodup_cons.mp clean.distinct
    have different : ∀ b ∈ body.binders, b.id ≠ binder.id := by
      intro b member same
      rw [← same] at fresh
      exact fresh (List.mem_map_of_mem member)
    refine ⟨lt, different, distinct, fun b member => ?_, inBody⟩
    have outside := clean.enclosed b (List.mem_cons_of_mem _ member)
    rw [occursFree, bne_iff_ne.mpr (Ne.symm (different b member)), Bool.true_and] at outside
    exact outside
  · rintro ⟨lt, different, clean⟩
    refine ⟨?_, fun b member => ?_, (below_abs _ _ _).mpr ⟨lt, clean.below⟩⟩
    · rw [binders, List.map_cons, List.nodup_cons]
      refine ⟨fun member => ?_, clean.distinct⟩
      obtain ⟨b, inBody, same⟩ := List.mem_map.mp member
      exact different b inBody same
    · rw [occursFree, Bool.and_eq_false_iff]
      rcases List.mem_cons.mp member with rfl | inBody
      · exact Or.inl (by simp)
      · exact Or.inr (clean.enclosed b inBody)

theorem clean_app_iff (supply : Nat) (function argument : Term) :
    (Term.app function argument).Clean supply ↔
      function.Clean supply ∧ argument.Clean supply ∧ function.Apart argument ∧
        (∀ b ∈ function.binders, argument.occursFree b.id = false) ∧
          ∀ b ∈ argument.binders, function.occursFree b.id = false := by
  constructor
  · intro clean
    obtain ⟨inFunction, inArgument⟩ := (below_app _ _ _).mp clean.below
    have distinct := clean.distinct
    rw [binders, List.map_append, List.nodup_append'] at distinct
    have left (b : Var) (member : b ∈ function.binders) :
        function.occursFree b.id = false ∧ argument.occursFree b.id = false :=
      Bool.or_eq_false_iff.mp (clean.enclosed b (List.mem_append_left _ member))
    have right (b : Var) (member : b ∈ argument.binders) :
        function.occursFree b.id = false ∧ argument.occursFree b.id = false :=
      Bool.or_eq_false_iff.mp (clean.enclosed b (List.mem_append_right _ member))
    refine ⟨⟨distinct.1, fun b member => (left b member).1, inFunction⟩,
      ⟨distinct.2.1, fun b member => (right b member).2, inArgument⟩, ?_,
      fun b member => (left b member).2, fun b member => (right b member).1⟩
    intro b inFirst c inSecond same
    refine distinct.2.2 (List.mem_map_of_mem inFirst) ?_
    rw [same]
    exact List.mem_map_of_mem inSecond
  · rintro ⟨cleanFunction, cleanArgument, apart, left, right⟩
    refine ⟨?_, fun b member => ?_, (below_app _ _ _).mpr ⟨cleanFunction.below, cleanArgument.below⟩⟩
    · rw [binders, List.map_append, List.nodup_append']
      refine ⟨cleanFunction.distinct, cleanArgument.distinct, fun id inFirst inSecond => ?_⟩
      obtain ⟨b, memberFirst, rfl⟩ := List.mem_map.mp inFirst
      obtain ⟨c, memberSecond, same⟩ := List.mem_map.mp inSecond
      exact apart b memberFirst c memberSecond same.symm
    · rw [occursFree, Bool.or_eq_false_iff]
      rcases List.mem_append.mp member with inFirst | inSecond
      · exact ⟨cleanFunction.enclosed b inFirst, left b inFirst⟩
      · exact ⟨right b inSecond, cleanArgument.enclosed b inSecond⟩

/-! ### Contraction -/

namespace Contracts

variable {mode : Mode} {supply : Nat}

theorem minted_beta {function argument : Term} {next : Term × Nat}
    (clean : (Term.app function argument).Clean supply)
    (found : contract? function argument supply = some next) :
    supply ≤ next.2 ∧ Minted (Set.Iio supply) (Set.Ico supply next.2) next.1 := by
  obtain ⟨binder, body, rfl, rfl⟩ := contract?_eq_some found
  obtain ⟨cleanFunction, cleanArgument, _⟩ := (clean_app_iff _ _ _).mp clean
  obtain ⟨_, different, cleanBody⟩ := (clean_abs_iff _ _ _).mp cleanFunction
  exact ⟨le_substitute body binder.id argument supply,
    minted_substitute cleanBody.below cleanArgument.below different⟩

/-- Every binder of a contraction is an old one or comes from the supply. -/
theorem mem_binders {t : Term} {next : Term × Nat} (step : Contracts mode supply t next)
    (clean : t.Clean supply) {b : Var} (member : b ∈ next.1.binders) :
    b ∈ t.binders ∨ supply ≤ b.id := by
  induction step with
  | beta _ found => exact Or.inr ((minted_beta clean found).2.binders b member).1
  | eta _ found =>
      obtain ⟨v, _, rfl, _⟩ := etaContract?_eq_some found
      exact Or.inl (List.mem_cons_of_mem _ (List.mem_append_left _ member))
  | body binder _ ih =>
      obtain ⟨_, _, cleanBody⟩ := (clean_abs_iff _ _ _).mp clean
      rcases List.mem_cons.mp member with rfl | inBody
      · exact Or.inl List.mem_cons_self
      · exact (ih cleanBody inBody).imp_left (List.mem_cons_of_mem _)
  | function argument _ ih =>
      obtain ⟨cleanFunction, _⟩ := (clean_app_iff _ _ _).mp clean
      rcases List.mem_append.mp member with inFunction | inArgument
      · exact (ih cleanFunction inFunction).imp_left (List.mem_append_left _)
      · exact Or.inl (List.mem_append_right _ inArgument)
  | argument function _ ih =>
      obtain ⟨_, cleanArgument, _⟩ := (clean_app_iff _ _ _).mp clean
      rcases List.mem_append.mp member with inFunction | inArgument
      · exact Or.inl (List.mem_append_left _ inFunction)
      · exact (ih cleanArgument inArgument).imp_left (List.mem_append_right _)

theorem occursFree_eq_false {t : Term} {next : Term × Nat} (step : Contracts mode supply t next)
    (below : t.Below supply) {id : Nat} (absent : t.occursFree id = false) :
    next.1.occursFree id = false := by
  rw [Bool.eq_false_iff] at absent ⊢
  exact fun free => absent (step.occursFree below free)

/-- A part that shares nothing with a term shares nothing with its contraction. -/
theorem apart {t other : Term} {next : Term × Nat} (step : Contracts mode supply t next)
    (clean : t.Clean supply) (below : other.Below supply) (separate : t.Apart other)
    (absent : ∀ b ∈ t.binders, other.occursFree b.id = false) :
    next.1.Apart other ∧ ∀ b ∈ next.1.binders, other.occursFree b.id = false := by
  constructor
  · intro b member c inOther
    rcases step.mem_binders clean member with old | new
    · exact separate b old c inOther
    · exact Nat.ne_of_gt (Nat.lt_of_lt_of_le (below c (mem_vars_of_mem_binders inOther)) new)
  · intro b member
    rcases step.mem_binders clean member with old | new
    · exact absent b old
    · exact occursFree_eq_false_of_below below new

theorem clean {t : Term} {next : Term × Nat} (step : Contracts mode supply t next)
    (clean : t.Clean supply) : next.1.Clean next.2 := by
  -- The induction is on the way to the redex. New binders come from the supply, above every
  -- identity of what stands beside the way.
  induction step with
  | beta _ found =>
      obtain ⟨grown, minted⟩ := minted_beta clean found
      exact minted.clean grown
  | eta _ found =>
      obtain ⟨v, _, rfl, _⟩ := etaContract?_eq_some found
      obtain ⟨_, _, cleanBody⟩ := (clean_abs_iff _ _ _).mp clean
      exact ((clean_app_iff _ _ _).mp cleanBody).1
  | @body binder body next step ih =>
      obtain ⟨lt, different, cleanBody⟩ := (clean_abs_iff _ _ _).mp clean
      refine (clean_abs_iff _ _ _).mpr ⟨Nat.lt_of_lt_of_le lt step.supply_le, ?_, ih cleanBody⟩
      intro b member
      rcases step.mem_binders cleanBody member with old | new
      · exact different b old
      · exact Nat.ne_of_gt (Nat.lt_of_lt_of_le lt new)
  | @function function argument next step ih =>
      obtain ⟨cleanFunction, cleanArgument, separate, left, right⟩ :=
        (clean_app_iff _ _ _).mp clean
      obtain ⟨separate', left'⟩ := step.apart cleanFunction cleanArgument.below separate left
      refine (clean_app_iff _ _ _).mpr
        ⟨ih cleanFunction, cleanArgument.mono step.supply_le, separate', left', ?_⟩
      exact fun b member => step.occursFree_eq_false cleanFunction.below (right b member)
  | @argument function argument next step ih =>
      obtain ⟨cleanFunction, cleanArgument, separate, left, right⟩ :=
        (clean_app_iff _ _ _).mp clean
      obtain ⟨separate', right'⟩ := step.apart cleanArgument cleanFunction.below
        (fun b inArgument c inFunction => Ne.symm (separate c inFunction b inArgument)) right
      refine (clean_app_iff _ _ _).mpr ⟨cleanFunction.mono step.supply_le, ih cleanArgument,
        fun b inFunction c inArgument => Ne.symm (separate' c inArgument b inFunction), ?_, right'⟩
      exact fun b member => step.occursFree_eq_false cleanArgument.below (left b member)

end Contracts

/-! ### Runs -/

/-- A reduction with all the terms that it passes, the last one first. -/
def watched (mode : Mode) (strategy : Strategy) (limit : Nat) (t : Term) (supply : Nat) :
    Reduction × List Term :=
  reduceWith mode strategy limit t supply (fun seen _ u => u :: seen) []

section Kept

variable {P : Nat → Term → Prop}
  (kept : ∀ {mode supply t next}, Contracts mode supply t next → P supply t → P next.2 next.1)

include kept

/-- What every step keeps holds of the last term of a run, and what the observer keeps of such terms
holds of all that it has seen. -/
theorem runFrom_keeps {σ : Type} {Q : Nat → σ → Prop} (observe : σ → Nat → Term → σ)
    (mono : ∀ {supply supply' seen}, Q supply seen → supply ≤ supply' → Q supply' seen)
    (observed : ∀ {supply seen t} steps, Q supply seen → P supply t →
      Q supply (observe seen steps t))
    (mode : Mode) (strategy : Strategy) (limit steps : Nat) {t : Term} {supply : Nat} (seen : σ)
    (here : P supply t) (before : Q supply seen) :
    let run := runFrom mode strategy observe limit steps t supply seen
    P run.1.supply run.1.term ∧ Q run.1.supply run.2 := by
  induction limit generalizing steps t supply seen with
  | zero => exact ⟨here, before⟩
  | succ limit ih =>
      rw [runFrom]
      split
      · exact ⟨here, before⟩
      · rename_i next found
        have step := Contracts.of_step? found
        have there := kept step here
        exact ih (steps + 1) _ there (observed (steps + 1) (mono before step.supply_le) there)

/-- What every step keeps holds of all the terms that a reduction passes, and of the last. -/
theorem watched_keeps (mono : ∀ {supply supply' t}, P supply t → supply ≤ supply' → P supply' t)
    {supply : Nat} {t : Term} (here : P supply t) (mode : Mode) (strategy : Strategy)
    (limit : Nat) :
    let run := watched mode strategy limit t supply
    P run.1.supply run.1.term ∧ ∀ u ∈ run.2, P run.1.supply u := by
  refine runFrom_keeps (Q := fun supply seen => ∀ u ∈ seen, P supply u) kept
    (fun seen _ u => u :: seen) (fun before le u member => mono (before u member) le)
    (fun _ before there => List.forall_mem_cons.mpr ⟨there, before⟩)
    mode strategy limit 0 [t] here (List.forall_mem_singleton.mpr here)

end Kept

/-- A reduction of a clean term passes clean terms and ends in one. -/
theorem Clean.watched {supply : Nat} {t : Term} (clean : t.Clean supply) (mode : Mode)
    (strategy : Strategy) (limit : Nat) :
    let run := watched mode strategy limit t supply
    run.1.term.Clean run.1.supply ∧ ∀ u ∈ run.2, u.Clean run.1.supply :=
  watched_keeps Contracts.clean Clean.mono clean mode strategy limit

end Term

end UntypedLambda
