import UntypedLambda.Proofs.Nameless.Substitution
import UntypedLambda.Proofs.Term.Identities

set_option autoImplicit false

/-! The nameless reading of a term. Copying a term does not change it, and substitution of an
identity is substitution of an index. -/

namespace UntypedLambda.Term

def readOccurrence (scope : List Nat) (v : Var) : Nameless Var :=
  match scope.findIdx? (fun id => id == v.id) with
  | some index => .bound index
  | none => .free v

def readUnder (scope : List Nat) : Term → Nameless Var
  | .var v => readOccurrence scope v
  | .abs binder body => .lam (body.readUnder (binder.id :: scope))
  | .app function argument => .app (function.readUnder scope) (argument.readUnder scope)

/-- The nameless reading of a term. An occurrence below an abstraction with its identity is the
number of abstractions between it and the innermost of those, and a free occurrence stays. -/
def nameless (t : Term) : Nameless Var :=
  t.readUnder []

/-! ### Occurrences -/

theorem readOccurrence_cases (scope : List Nat) (v : Var) :
    (v.id ∈ scope ∧ ∃ index, readOccurrence scope v = .bound index) ∨
      (v.id ∉ scope ∧ readOccurrence scope v = .free v) := by
  cases found : scope.findIdx? (fun id => id == v.id) with
  | some index =>
      refine Or.inl ⟨?_, index, by simp only [readOccurrence, found]⟩
      obtain ⟨within, same, _⟩ := List.findIdx?_eq_some_iff_getElem.mp found
      rw [← eq_of_beq same]
      exact List.getElem_mem within
  | none =>
      refine Or.inr ⟨fun member => ?_, by simp only [readOccurrence, found]⟩
      simpa using List.findIdx?_eq_none_iff.mp found v.id member

/-- Nothing changes for an occurrence that the inner abstractions bind, and for any other they are
counted. -/
theorem readOccurrence_append (inner outer : List Nat) (v : Var) :
    readOccurrence (inner ++ outer) v =
      match inner.findIdx? (fun id => id == v.id) with
      | some index => .bound index
      | none => (readOccurrence outer v).shift 0 inner.length := by
  unfold readOccurrence
  rw [List.findIdx?_append]
  cases inner.findIdx? (fun id => id == v.id) with
  | some index => rfl
  | none =>
      cases outer.findIdx? (fun id => id == v.id) with
      | some index => simp [Nameless.shift]
      | none => rfl

theorem readOccurrence_of_not_mem {inner : List Nat} {v : Var} (absent : v.id ∉ inner)
    (outer : List Nat) :
    readOccurrence (inner ++ outer) v = (readOccurrence outer v).shift 0 inner.length := by
  have nowhere : inner.findIdx? (fun id => id == v.id) = none := by
    rw [List.findIdx?_eq_none_iff]
    intro id member
    rw [beq_eq_false_iff_ne]
    rintro rfl
    exact absent member
  rw [readOccurrence_append, nowhere]

theorem readOccurrence_cons_self (v : Var) (outer : List Nat) :
    readOccurrence (v.id :: outer) v = .bound 0 := by
  simp [readOccurrence, List.findIdx?_cons]

theorem readOccurrence_cons_of_ne {id : Nat} {v : Var} (different : v.id ≠ id)
    (outer : List Nat) :
    readOccurrence (id :: outer) v = (readOccurrence outer v).shift 0 1 := by
  have absent : v.id ∉ [id] := by simp [different]
  exact readOccurrence_of_not_mem absent outer

private theorem shift_readOccurrence (scope : List Nat) (v : Var) (first second : Nat) :
    ((readOccurrence scope v).shift 0 second).shift 0 first =
      ((readOccurrence scope v).shift 0 first).shift first second := by
  unfold readOccurrence
  split
  · simp only [Nameless.shift, Nat.not_lt_zero, if_false]
    rw [if_neg (by omega), Nat.add_right_comm]
  · rfl

/-- Abstractions that bind no free occurrence are counted and change nothing else. -/
theorem readUnder_insert {inner inserted : List Nat} {t : Term}
    (unseen : ∀ id ∈ inserted, id ∈ inner ∨ t.occursFree id = false) (outer : List Nat) :
    t.readUnder (inner ++ (inserted ++ outer)) =
      (t.readUnder (inner ++ outer)).shift inner.length inserted.length := by
  induction t generalizing inner with
  | var v =>
      rw [readUnder, readUnder, readOccurrence_append inner (inserted ++ outer),
        readOccurrence_append inner outer]
      cases found : inner.findIdx? (fun id => id == v.id) with
      | some index =>
          obtain ⟨within, _⟩ := List.findIdx?_eq_some_iff_getElem.mp found
          simp [Nameless.shift, within]
      | none =>
          have absent : v.id ∉ inserted := by
            intro member
            rcases unseen v.id member with inside | free
            · have skipped := List.findIdx?_eq_none_iff.mp found v.id inside
              simp at skipped
            · simp [occursFree] at free
          simp only [readOccurrence_of_not_mem absent, shift_readOccurrence]
  | abs binder body ih =>
      have unseenBody : ∀ id ∈ inserted, id ∈ binder.id :: inner ∨ body.occursFree id = false := by
        intro id member
        by_cases same : binder.id = id
        · exact Or.inl (by simp [same])
        · rcases unseen id member with inside | free
          · exact Or.inl (List.mem_cons_of_mem _ inside)
          · exact Or.inr (by simpa [occursFree, same] using free)
      rw [readUnder, readUnder, Nameless.shift]
      exact congrArg Nameless.lam (ih unseenBody)
  | app function argument ihFunction ihArgument =>
      have unseenFunction : ∀ id ∈ inserted, id ∈ inner ∨ function.occursFree id = false := by
        intro id member
        exact (unseen id member).imp_right fun free => (Bool.or_eq_false_iff.mp free).1
      have unseenArgument : ∀ id ∈ inserted, id ∈ inner ∨ argument.occursFree id = false := by
        intro id member
        exact (unseen id member).imp_right fun free => (Bool.or_eq_false_iff.mp free).2
      rw [readUnder, readUnder, Nameless.shift, ihFunction unseenFunction,
        ihArgument unseenArgument]

/-- The identity that `depth` abstractions stand between occurs free exactly where the reading
mentions its index. -/
theorem mentions_readUnder {inner : List Nat} {id : Nat} (absent : id ∉ inner) (outer : List Nat)
    (t : Term) :
    (t.readUnder (inner ++ id :: outer)).mentions inner.length = t.occursFree id := by
  induction t generalizing inner with
  | var v =>
      rw [readUnder, occursFree]
      by_cases same : v.id = id
      · rw [← same, readOccurrence_of_not_mem (same ▸ absent), readOccurrence_cons_self]
        simp [Nameless.shift, Nameless.mentions]
      · rw [readOccurrence_append]
        cases found : inner.findIdx? (fun other => other == v.id) with
        | some index =>
            obtain ⟨within, _⟩ := List.findIdx?_eq_some_iff_getElem.mp found
            simp only [Nameless.mentions, same, beq_eq_false_iff_ne.mpr, ne_eq,
              not_false_eq_true]
            rw [beq_eq_false_iff_ne]
            omega
        | none =>
            simp only [readOccurrence_cons_of_ne same]
            unfold readOccurrence
            split <;> simp [Nameless.shift, Nameless.mentions, same]
  | abs binder body ih =>
      rw [readUnder, Nameless.mentions, occursFree]
      by_cases same : binder.id = id
      · have hidden : (body.readUnder ((binder.id :: inner) ++ ([id] ++ outer))).mentions
            (inner.length + 1) = false := by
          rw [readUnder_insert (by simp [same])]
          exact Nameless.mentions_shift _ _
        simpa [same] using hidden
      · have fresh : id ∉ binder.id :: inner := by
          simp only [List.mem_cons, not_or]
          exact ⟨Ne.symm same, absent⟩
        simpa [bne_iff_ne.mpr same] using ih fresh
  | app function argument ihFunction ihArgument =>
      rw [readUnder, Nameless.mentions, occursFree, ihFunction absent, ihArgument absent]

theorem mentions_readUnder_cons (id : Nat) (scope : List Nat) (t : Term) :
    (t.readUnder (id :: scope)).mentions 0 = t.occursFree id :=
  mentions_readUnder List.not_mem_nil scope t

theorem readUnder_cons_of_not_free {id : Nat} {t : Term} (free : t.occursFree id = false)
    (scope : List Nat) : t.readUnder (id :: scope) = (t.readUnder scope).shift 0 1 := by
  have unseen : ∀ other ∈ [id], other ∈ ([] : List Nat) ∨ t.occursFree other = false := by
    simp [free]
  exact readUnder_insert unseen scope

/-- A reading has no index that is bound outside the abstractions around the term. -/
theorem shift_readUnder (scope : List Nat) (t : Term) {cutoff : Nat}
    (le : scope.length ≤ cutoff) (amount : Nat) :
    (t.readUnder scope).shift cutoff amount = t.readUnder scope := by
  induction t generalizing scope cutoff with
  | var v =>
      rw [readUnder, readOccurrence]
      split
      · rename_i index found
        obtain ⟨within, _⟩ := List.findIdx?_eq_some_iff_getElem.mp found
        rw [Nameless.shift, if_pos (Nat.lt_of_lt_of_le within le)]
      · rfl
  | abs binder body ih =>
      exact congrArg Nameless.lam (ih (binder.id :: scope) (Nat.succ_le_succ le))
  | app function argument ihFunction ihArgument =>
      rw [readUnder, Nameless.shift, ihFunction scope le, ihArgument scope le]

/-! ### Copies -/

namespace Renaming

theorem apply_cons_self {id : Nat} {v : Var} (same : v.id = id) (w : Var) (ρ : Renaming) :
    Renaming.apply ((id, w) :: ρ) v = w := by
  simp [Renaming.apply, same]

theorem apply_cons_of_ne {id : Nat} {v : Var} (different : v.id ≠ id) (w : Var) (ρ : Renaming) :
    Renaming.apply ((id, w) :: ρ) v = Renaming.apply ρ v := by
  have skip : (v.id == id) = false := beq_eq_false_iff_ne.mpr different
  simp [Renaming.apply, List.lookup_cons, skip]

/-- A renaming keeps what an occurrence is bound by. -/
theorem readOccurrence_apply {ρ : Renaming} (distinct : ρ.new.Nodup) {v : Var}
    (fresh : v.id ∉ ρ.new) (outer : List Nat) :
    readOccurrence (ρ.new ++ outer) (ρ.apply v) = readOccurrence (ρ.old ++ outer) v := by
  induction ρ with
  | nil => rfl
  | cons entry ρ ih =>
      obtain ⟨id, w⟩ := entry
      obtain ⟨notLater, distinct⟩ := List.nodup_cons.mp distinct
      obtain ⟨notHead, fresh⟩ := not_or.mp (fun member => fresh (List.mem_cons.mpr member))
      change readOccurrence (w.id :: (new ρ ++ outer)) _ = readOccurrence (id :: (old ρ ++ outer)) v
      by_cases same : v.id = id
      · rw [apply_cons_self same, ← same, readOccurrence_cons_self, readOccurrence_cons_self]
      · have different : (Renaming.apply ρ v).id ≠ w.id := by
          rcases apply_cases ρ v with stays | ⟨entry, member, moves⟩
          · rw [stays]
            exact notHead
          · rw [moves]
            intro clash
            exact notLater (List.mem_map.mpr ⟨entry, member, clash⟩)
        rw [apply_cons_of_ne same, readOccurrence_cons_of_ne different,
          readOccurrence_cons_of_ne same, ih distinct fresh]

theorem Issued.not_mem_new {ρ : Renaming} {base supply id : Nat} (issued : ρ.Issued base supply)
    (lt : id < base) : id ∉ ρ.new := by
  intro member
  obtain ⟨entry, inside, same⟩ := List.mem_map.mp member
  have above := issued.above entry inside
  omega

end Renaming

/-- A copy reads as the term does. -/
theorem readUnder_renameFrom {ρ : Renaming} {t : Term} {base supply : Nat}
    (issued : ρ.Issued base supply) (le : base ≤ supply) (below : t.Below base)
    (outer : List Nat) :
    (t.renameFrom ρ supply).1.readUnder (ρ.new ++ outer) = t.readUnder (ρ.old ++ outer) := by
  induction t generalizing ρ supply with
  | var v =>
      exact Renaming.readOccurrence_apply issued.distinct
        (issued.not_mem_new ((below_var _ _).mp below)) outer
  | abs binder body ih =>
      obtain ⟨_, inBody⟩ := (below_abs _ _ _).mp below
      exact congrArg Nameless.lam
        (ih (issued.pass le binder) (Nat.le_succ_of_le le) inBody)
  | app function argument ihFunction ihArgument =>
      obtain ⟨inFunction, inArgument⟩ := (below_app _ _ _).mp below
      have grown := le_renameFrom ρ function supply
      simp only [renameFrom, readUnder]
      rw [ihFunction issued le inFunction,
        ihArgument (issued.mono grown) (Nat.le_trans le grown) inArgument]

theorem readUnder_freshCopy {t : Term} {supply : Nat} (below : t.Below supply)
    (scope : List Nat) : (t.freshCopy supply).1.readUnder scope = t.readUnder scope :=
  readUnder_renameFrom (Renaming.issued_nil supply supply) (Nat.le_refl supply) below scope

/-! ### Substitution -/

/-- Substitution for an identity is substitution for the index of its abstraction, `outer` being
the abstractions around that one. -/
theorem readUnder_substituteUnder {id : Nat} {replacement : Term} {ρ : Renaming} {t : Term}
    {base supply : Nat} (issued : ρ.Issued base supply) (le : base ≤ supply)
    (below : t.Below base) (replacementBelow : replacement.Below base) (absent : id ∉ ρ.old)
    (outer : List Nat) :
    (substituteUnder id replacement ρ t supply).1.readUnder (ρ.new ++ outer) =
      (t.readUnder (ρ.old ++ id :: outer)).instantiate ρ.length (replacement.readUnder outer) := by
  have oldLength : ρ.old.length = ρ.length := List.length_map _
  have newLength : ρ.new.length = ρ.length := List.length_map _
  induction t generalizing ρ supply with
  | var v =>
      rw [substituteUnder]
      by_cases same : v.id = id
      · have unseen : ∀ other ∈ ρ.new, other ∈ [] ∨ replacement.occursFree other = false := by
          intro other member
          obtain ⟨entry, inside, rfl⟩ := List.mem_map.mp member
          exact Or.inr (occursFree_eq_false_of_below replacementBelow (issued.above entry inside))
        have copied := readUnder_freshCopy (replacementBelow.mono le) (ρ.new ++ outer)
        have weakened := readUnder_insert unseen outer
        rw [List.nil_append, List.nil_append, List.length_nil, newLength] at weakened
        rw [if_pos (beq_iff_eq.mpr same), copied, weakened, readUnder,
          readOccurrence_of_not_mem (same ▸ absent), ← same, readOccurrence_cons_self, oldLength]
        simp [Nameless.shift, Nameless.instantiate]
      · have unseen : ∀ other ∈ [id], other ∈ ρ.old ∨ (Term.var v).occursFree other = false := by
          intro other member
          rw [List.mem_singleton.mp member]
          exact Or.inr (beq_eq_false_iff_ne.mpr same)
        have weakened := readUnder_insert unseen outer
        rw [oldLength, List.length_singleton, List.singleton_append] at weakened
        rw [if_neg (by simpa using same), weakened, Nameless.instantiate_shift]
        exact Renaming.readOccurrence_apply issued.distinct
          (issued.not_mem_new ((below_var _ _).mp below)) outer
  | abs binder body ih =>
      rw [substituteUnder]
      by_cases same : binder.id = id
      · -- The abstraction hides `id`, so the index of `id` is not mentioned below it.
        have unseen : ∀ other ∈ [id],
            other ∈ ρ.old ∨ (Term.abs binder body).occursFree other = false := by
          intro other member
          rw [List.mem_singleton.mp member]
          exact Or.inr (by simp [occursFree, same])
        have weakened := readUnder_insert unseen outer
        rw [oldLength, List.length_singleton, List.singleton_append] at weakened
        rw [if_pos (beq_iff_eq.mpr same), weakened, Nameless.instantiate_shift]
        split
        · rename_i empty
          rw [List.isEmpty_iff.mp empty]
          rfl
        · exact readUnder_renameFrom issued le below outer
      · obtain ⟨_, inBody⟩ := (below_abs _ _ _).mp below
        have absentInside : id ∉ binder.id :: ρ.old := by
          simp only [List.mem_cons, not_or]
          exact ⟨Ne.symm same, absent⟩
        rw [if_neg (by simpa using same)]
        exact congrArg Nameless.lam
          (ih (issued.pass le binder) (Nat.le_succ_of_le le) inBody absentInside
            (List.length_map _) (List.length_map _))
  | app function argument ihFunction ihArgument =>
      obtain ⟨inFunction, inArgument⟩ := (below_app _ _ _).mp below
      have grown := le_substituteUnder id replacement ρ function supply
      simp only [substituteUnder, readUnder, Nameless.instantiate]
      rw [ihFunction issued le inFunction absent oldLength newLength,
        ihArgument (issued.mono grown) (Nat.le_trans le grown) inArgument absent oldLength
          newLength]

theorem readUnder_substitute {target replacement : Term} {supply : Nat} (id : Nat)
    (below : target.Below supply) (replacementBelow : replacement.Below supply)
    (scope : List Nat) :
    (target.substitute id replacement supply).1.readUnder scope =
      (target.readUnder (id :: scope)).instantiate 0 (replacement.readUnder scope) :=
  readUnder_substituteUnder (Renaming.issued_nil supply supply) (Nat.le_refl supply) below
    replacementBelow (by simp [Renaming.old]) scope

end UntypedLambda.Term
