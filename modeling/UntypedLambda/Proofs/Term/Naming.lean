import Mathlib.Data.List.Nodup
import Mathlib.Data.List.Perm.Subperm
import UntypedLambda.Proofs.Surface.Scanning
import UntypedLambda.Proofs.Term.FreeNames
import UntypedLambda.Term.Display

set_option autoImplicit false

/-! The names by which the binders of a term are shown. Every binder receives a candidate that no
free variable and no other binder has, and binders that are told apart already keep their names. -/

namespace UntypedLambda.Term

/-! ### Candidates -/

theorem candidate_injective (name : String) : Function.Injective (candidate name) := by
  have digits (number : Nat) : (toString number).toList ≠ [] := by
    rw [Surface.toList_toString]
    exact Nat.toDigits_ne_nil
  have bare (number : Nat) : name ≠ name ++ toString number := by
    intro same
    have texts := congrArg String.toList same
    rw [String.toList_append] at texts
    exact digits number (List.self_eq_append_right.mp texts)
  intro first second same
  cases first with
  | zero =>
      cases second with
      | zero => rfl
      | succ second => exact absurd same (bare (second + 1))
  | succ first =>
      cases second with
      | zero => exact absurd same.symm (bare (first + 1))
      | succ second =>
          have texts := congrArg String.toList same
          simp only [candidate, String.toList_append, List.append_cancel_left_eq,
            Surface.toList_toString] at texts
          have values := congrArg (Nat.ofDigitChars 10 · 0) texts
          simpa only [Nat.ofDigitChars_ten_toDigits] using values

theorem isIdentifier_candidate {name : String} (identifier : Surface.isIdentifier name = true)
    (number : Nat) : Surface.isIdentifier (candidate name number) = true := by
  cases number with
  | zero => exact identifier
  | succ number =>
      unfold Surface.isIdentifier at identifier ⊢
      cases spelled : name.toList with
      | nil =>
          rw [spelled] at identifier
          cases identifier
      | cons c cs =>
          rw [spelled, Bool.and_eq_true] at identifier
          rw [candidate, String.toList_append, spelled]
          · simp only [List.cons_append, List.all_append, identifier.1, identifier.2,
              Bool.true_and, List.all_eq_true]
            intro digit member
            rw [Surface.isNamePart, Surface.isDigit_of_mem_toString member, Bool.or_true]
          · exact Nat.succ_ne_zero number

/-- The search passes taken candidates only, and stops at the first other one or after all its
attempts. -/
theorem untakenFrom_cases (taken : Std.TreeSet String) (name : String) (attempts number : Nat) :
    ∃ passed, untakenFrom taken name attempts number = candidate name (number + passed) ∧
      (∀ earlier < passed, taken.contains (candidate name (number + earlier)) = true) ∧
      (passed = attempts ∨ taken.contains (candidate name (number + passed)) = false) := by
  induction attempts generalizing number with
  | zero => exact ⟨0, rfl, fun _ less => absurd less (Nat.not_lt_zero _), Or.inl rfl⟩
  | succ attempts ih =>
      cases found : taken.contains (candidate name number) with
      | false =>
          refine ⟨0, ?_, fun _ less => absurd less (Nat.not_lt_zero _), Or.inr found⟩
          rw [untakenFrom, found]
          rfl
      | true =>
          obtain ⟨passed, result, earlier, stops⟩ := ih (number + 1)
          refine ⟨passed + 1, ?_, ?_, ?_⟩
          · rw [untakenFrom, found, if_pos rfl, result, Nat.add_right_comm, Nat.add_assoc]
          · intro index less
            cases index with
            | zero => exact found
            | succ index =>
                rw [← Nat.add_assoc, Nat.add_right_comm]
                exact earlier index (Nat.lt_of_succ_lt_succ less)
          · rw [← Nat.add_assoc, Nat.add_right_comm]
            exact stops.imp_left (congrArg (· + 1))

/-- One more candidate than there are taken names cannot all be taken. -/
theorem exists_candidate_not_taken (taken : Std.TreeSet String) (name : String) :
    ∃ number ≤ taken.size, taken.contains (candidate name number) = false := by
  by_contra none
  have all (number : Nat) (le : number ≤ taken.size) :
      taken.contains (candidate name number) = true := by
    cases found : taken.contains (candidate name number) with
    | true => rfl
    | false => exact absurd ⟨number, le, found⟩ none
  have distinct : ((List.range (taken.size + 1)).map (candidate name)).Nodup :=
    List.Nodup.map (candidate_injective name) List.nodup_range
  have within : (List.range (taken.size + 1)).map (candidate name) ⊆ taken.toList := by
    intro other member
    obtain ⟨number, inRange, rfl⟩ := List.mem_map.mp member
    rw [Std.TreeSet.mem_toList, ← Std.TreeSet.contains_iff_mem]
    exact all number (Nat.le_of_lt_succ (List.mem_range.mp inRange))
  have bound := (distinct.subperm within).length_le
  rw [List.length_map, List.length_range, Std.TreeSet.length_toList] at bound
  exact Nat.not_succ_le_self _ bound

/-- The name found is a candidate that is not taken. -/
theorem untaken_spec (taken : Std.TreeSet String) (name : String) :
    (∃ number, untaken taken name = candidate name number) ∧
      taken.contains (untaken taken name) = false := by
  obtain ⟨passed, result, earlier, stops⟩ := untakenFrom_cases taken name taken.size 0
  obtain ⟨number, le, free⟩ := exists_candidate_not_taken taken name
  simp only [Nat.zero_add] at result earlier stops
  refine ⟨⟨passed, result⟩, ?_⟩
  rw [untaken, result]
  rcases stops with rfl | free'
  · have last : number = taken.size := by
      by_contra less
      rw [earlier number (by omega)] at free
      cases free
    rw [← last]
    exact free
  · exact free'

/-- The name found is the first candidate that is not taken. -/
theorem untaken_least (taken : Std.TreeSet String) (name : String) :
    ∃ number, untaken taken name = candidate name number ∧
      ∀ smaller < number, taken.contains (candidate name smaller) = true := by
  obtain ⟨passed, result, earlier, _⟩ := untakenFrom_cases taken name taken.size 0
  simp only [Nat.zero_add] at result earlier
  exact ⟨passed, result, earlier⟩

theorem untaken_of_not_taken {taken : Std.TreeSet String} {name : String}
    (free : taken.contains name = false) : untaken taken name = name := by
  unfold untaken
  cases taken.size with
  | zero => rfl
  | succ size =>
      have bare : taken.contains (candidate name 0) = false := free
      rw [untakenFrom, bare]
      rfl

/-! ### The naming of a term -/

theorem addBinders_eq (naming : Naming) (t : Term) :
    naming.addBinders t = t.binders.foldl Naming.addBinder naming := by
  induction t generalizing naming with
  | var v => rfl
  | abs binder body ih => exact ih (naming.addBinder binder)
  | app function argument ihFunction ihArgument =>
      rw [Naming.addBinders, ihFunction, ihArgument, binders, List.foldl_append]

theorem getElem?_insert_name (names : Std.TreeMap Nat String) (id other : Nat) (name : String) :
    (names.insert id name)[other]? = if id = other then some name else names[other]? := by
  simp [Std.TreeMap.getElem?_insert]

theorem addBinder_of_unknown {naming : Naming} {binder : Var}
    (unknown : naming.names[binder.id]? = none) :
    naming.addBinder binder =
      { taken := naming.taken.insert (untaken naming.taken binder.name)
        names := naming.names.insert binder.id (untaken naming.taken binder.name) } := by
  rw [Naming.addBinder, if_neg (by simp [Std.TreeMap.contains_eq_isSome_getElem?, unknown])]

theorem addBinder_of_known {naming : Naming} {binder : Var} {name : String}
    (known : naming.names[binder.id]? = some name) : naming.addBinder binder = naming := by
  rw [Naming.addBinder, if_pos (by simp [Std.TreeMap.contains_eq_isSome_getElem?, known])]

/-- What holds of the names once the given binders are named beside the given free names: exactly
the free names and the names given out are taken, exactly the binders have one, and each is
a candidate for its binder that neither a free variable nor another identity has. -/
structure Naming.Distinguishes (naming : Naming) (free : List String) (binders : List Var) :
    Prop where
  taken (name : String) : naming.taken.contains name = true ↔
    name ∈ free ∨ ∃ id : Nat, naming.names[id]? = some name
  named (id : Nat) : naming.names[id]? ≠ none ↔ ∃ b ∈ binders, b.id = id
  apart (id : Nat) (name : String) : naming.names[id]? = some name → name ∉ free
  injective (first second : Nat) (name : String) : naming.names[first]? = some name →
    naming.names[second]? = some name → first = second
  candidates (id : Nat) (name : String) : naming.names[id]? = some name →
    ∃ b ∈ binders, b.id = id ∧ ∃ number, name = candidate b.name number

namespace Naming.Distinguishes

variable {naming : Naming} {free : List String} {named : List Var}

theorem start (free : List String) :
    Naming.Distinguishes { taken := Std.TreeSet.ofList free, names := {} } free [] where
  taken name := by simp [Std.TreeSet.contains_ofList]
  named id := by simp
  apart id name found := by simp at found
  injective first second name found := by simp at found
  candidates id name found := by simp at found

theorem addBinder_known (names : naming.Distinguishes free named) {binder : Var}
    (known : naming.names[binder.id]? ≠ none) :
    naming.Distinguishes free (named ++ [binder]) where
  taken := names.taken
  named id := by
    rw [names.named]
    constructor
    · rintro ⟨b, member, same⟩
      exact ⟨b, List.mem_append_left _ member, same⟩
    · rintro ⟨b, member, rfl⟩
      rcases List.mem_append.mp member with earlier | last
      · exact ⟨b, earlier, rfl⟩
      · rw [List.mem_singleton.mp last]
        exact (names.named binder.id).mp known
  apart := names.apart
  injective := names.injective
  candidates id name found := by
    obtain ⟨b, member, spelled⟩ := names.candidates id name found
    exact ⟨b, List.mem_append_left _ member, spelled⟩

theorem insert (names : naming.Distinguishes free named) {binder : Var} {name : String}
    (unknown : naming.names[binder.id]? = none) (new : naming.taken.contains name = false)
    (spelled : ∃ number, name = candidate binder.name number) :
    Naming.Distinguishes
      { taken := naming.taken.insert name, names := naming.names.insert binder.id name }
      free (named ++ [binder]) := by
  have notTaken : ¬ (name ∈ free ∨ ∃ id : Nat, naming.names[id]? = some name) := by
    rw [← names.taken, new]
    exact Bool.false_ne_true
  have known {id : Nat} {other : String} (given : naming.names[id]? = some other) :
      binder.id ≠ id := by
    rintro rfl
    rw [unknown] at given
    cases given
  refine ⟨fun other => ?_, fun id => ?_, fun id other => ?_, fun first second other => ?_,
    fun id other => ?_⟩
  · rw [Std.TreeSet.contains_insert, Bool.or_eq_true, names.taken, beq_iff_eq,
      Std.LawfulEqCmp.compare_eq_iff_eq]
    constructor
    · rintro (rfl | inFree | ⟨id, given⟩)
      · exact Or.inr ⟨binder.id, by rw [getElem?_insert_name, if_pos rfl]⟩
      · exact Or.inl inFree
      · exact Or.inr ⟨id, by
          rw [getElem?_insert_name, if_neg (known given), given]⟩
    · rintro (inFree | ⟨id, given⟩)
      · exact Or.inr (Or.inl inFree)
      · rw [getElem?_insert_name] at given
        split at given
        · exact Or.inl (Option.some.inj given)
        · exact Or.inr (Or.inr ⟨id, given⟩)
  · rw [getElem?_insert_name]
    simp only [List.mem_append, List.mem_singleton, or_and_right, exists_or, exists_eq_left]
    rw [← names.named]
    by_cases same : binder.id = id
    · simp [same]
    · simp [same]
  · rw [getElem?_insert_name]
    split
    · intro given
      rw [← Option.some.inj given]
      exact fun inFree => notTaken (Or.inl inFree)
    · exact names.apart id other
  · rw [getElem?_insert_name, getElem?_insert_name]
    split
    · rename_i atFirst
      split
      · rename_i atSecond
        exact fun _ _ => atFirst.symm.trans atSecond
      · intro given elsewhere
        rw [← Option.some.inj given] at elsewhere
        exact absurd (Or.inr ⟨second, elsewhere⟩) notTaken
    · split
      · intro elsewhere given
        rw [← Option.some.inj given] at elsewhere
        exact absurd (Or.inr ⟨first, elsewhere⟩) notTaken
      · exact names.injective first second other
  · rw [getElem?_insert_name]
    split
    · rename_i here
      intro given
      rw [← Option.some.inj given]
      exact ⟨binder, List.mem_append_right _ List.mem_cons_self, here, spelled⟩
    · intro given
      obtain ⟨b, member, of⟩ := names.candidates id other given
      exact ⟨b, List.mem_append_left _ member, of⟩

theorem addBinder (names : naming.Distinguishes free named) (binder : Var) :
    (naming.addBinder binder).Distinguishes free (named ++ [binder]) := by
  cases known : naming.names[binder.id]? with
  | none =>
      obtain ⟨spelled, new⟩ := untaken_spec naming.taken binder.name
      rw [addBinder_of_unknown known]
      exact names.insert known new spelled
  | some name =>
      rw [addBinder_of_known known]
      exact names.addBinder_known (by simp [known])

theorem foldl (names : naming.Distinguishes free named) (binders : List Var) :
    (binders.foldl Naming.addBinder naming).Distinguishes free (named ++ binders) := by
  induction binders generalizing naming named with
  | nil => simpa using names
  | cons binder binders ih => simpa using ih (names.addBinder binder)

end Naming.Distinguishes

theorem naming_distinguishes (t : Term) : t.naming.Distinguishes t.freeNames t.binders := by
  rw [Term.naming, addBinders_eq]
  exact (Naming.Distinguishes.start t.freeNames).foldl t.binders

/-! ### Names of variables -/

section

variable {t : Term}

theorem getElem?_nameOf {b v : Var} (member : b ∈ t.binders) (same : b.id = v.id) :
    t.naming.names[v.id]? = some (t.naming.nameOf v) := by
  have known := (t.naming_distinguishes.named v.id).mpr ⟨b, member, same⟩
  rw [Naming.nameOf, Std.TreeMap.getD_eq_getD_getElem?]
  cases found : t.naming.names[v.id]? with
  | none => exact absurd found known
  | some name => rfl

/-- A variable that no binder has the identity of is shown by its own name. -/
theorem nameOf_of_unbound {v : Var} (unbound : ∀ b ∈ t.binders, b.id ≠ v.id) :
    t.naming.nameOf v = v.name := by
  have unknown : t.naming.names[v.id]? = none := by
    by_contra known
    obtain ⟨b, member, same⟩ := (t.naming_distinguishes.named v.id).mp known
    exact unbound b member same
  rw [Naming.nameOf, Std.TreeMap.getD_eq_getD_getElem?, unknown]
  rfl

theorem nameOf_not_mem_freeNames {b : Var} (member : b ∈ t.binders) :
    t.naming.nameOf b ∉ t.freeNames :=
  t.naming_distinguishes.apart _ _ (getElem?_nameOf member rfl)

/-- Binders are shown by the same name exactly when they have the same identity. -/
theorem nameOf_eq_iff {b c v : Var} (member : b ∈ t.binders) (member' : c ∈ t.binders)
    (same : c.id = v.id) : t.naming.nameOf b = t.naming.nameOf v ↔ b.id = v.id := by
  constructor
  · intro sameName
    have here := getElem?_nameOf member rfl
    rw [sameName] at here
    exact t.naming_distinguishes.injective _ _ _ here (getElem?_nameOf member' same)
  · intro sameId
    have here := getElem?_nameOf member sameId
    have there := getElem?_nameOf member (rfl : b.id = b.id)
    rw [sameId, here] at there
    exact (Option.some.inj there).symm

theorem isIdentifier_nameOf
    (identifiers : ∀ v ∈ t.vars, Surface.isIdentifier v.name = true) {v : Var}
    (member : v ∈ t.vars) : Surface.isIdentifier (t.naming.nameOf v) = true := by
  by_cases bound : ∃ b ∈ t.binders, b.id = v.id
  · obtain ⟨b, inBinders, same⟩ := bound
    obtain ⟨c, inBinders', _, number, spelled⟩ :=
      t.naming_distinguishes.candidates _ _ (getElem?_nameOf inBinders same)
    rw [spelled]
    exact isIdentifier_candidate (identifiers c (mem_vars_of_mem_binders inBinders')) number
  · rw [nameOf_of_unbound fun b inBinders same => bound ⟨b, inBinders, same⟩]
    exact identifiers v member

end

/-! ### Names that are kept -/

/-- A list of binders with names that are not taken and differ pairwise is named so. -/
theorem getElem?_foldl_addBinder {naming : Naming} {free : List String} {named rest : List Var}
    (names : naming.Distinguishes free named)
    (kept : ∀ b ∈ named, naming.names[b.id]? = some b.name)
    (distinct : ((named ++ rest).map Var.name).Nodup)
    (apart : ∀ b ∈ rest, b.name ∉ free)
    (oneName : ∀ b ∈ named ++ rest, ∀ c ∈ named ++ rest, b.id = c.id → b.name = c.name) :
    ∀ b ∈ named ++ rest, (rest.foldl Naming.addBinder naming).names[b.id]? = some b.name := by
  induction rest generalizing naming named with
  | nil => simpa using kept
  | cons binder rest ih =>
      have different {b : Var} (member : b ∈ named) : b.name ≠ binder.name := by
        rw [List.map_append, List.nodup_append] at distinct
        exact distinct.2.2 _ (List.mem_map_of_mem member) _ List.mem_cons_self
      have here : binder ∈ named ++ binder :: rest :=
        List.mem_append_right _ List.mem_cons_self
      have unknown : naming.names[binder.id]? = none := by
        by_contra known
        obtain ⟨b, member, same⟩ := (names.named binder.id).mp known
        exact different member (oneName b (List.mem_append_left _ member) binder here same)
      have new : naming.taken.contains binder.name = false := by
        rw [Bool.eq_false_iff, ne_eq, names.taken]
        rintro (inFree | ⟨id, given⟩)
        · exact apart binder List.mem_cons_self inFree
        · obtain ⟨b, member, rfl⟩ := (names.named id).mp (by simp [given])
          rw [kept b member] at given
          exact different member (Option.some.inj given)
      have keptNext : ∀ b ∈ named ++ [binder],
          (naming.addBinder binder).names[b.id]? = some b.name := by
        intro b member
        rw [addBinder_of_unknown unknown, untaken_of_not_taken new, getElem?_insert_name]
        split
        · rename_i same
          rcases List.mem_append.mp member with earlier | last
          · exact congrArg some
              (oneName binder here b (List.mem_append_left _ earlier) same)
          · rw [List.mem_singleton.mp last]
        · rename_i other
          rcases List.mem_append.mp member with earlier | last
          · exact kept b earlier
          · exact absurd (congrArg Var.id (List.mem_singleton.mp last).symm) other
      have whole : named ++ binder :: rest = (named ++ [binder]) ++ rest := by simp
      rw [whole] at distinct oneName ⊢
      exact ih (names.addBinder binder) keptNext distinct
        (fun b member => apart b (List.mem_cons_of_mem _ member)) oneName

/-- Binders with different names that are not free, each identity with one name, keep them. -/
theorem nameOf_eq_name {t : Term} (distinct : (t.binders.map Var.name).Nodup)
    (apart : ∀ b ∈ t.binders, b.name ∉ t.freeNames)
    (oneName : ∀ v ∈ t.vars, ∀ w ∈ t.vars, v.id = w.id → v.name = w.name) {v : Var}
    (member : v ∈ t.vars) : t.naming.nameOf v = v.name := by
  by_cases bound : ∃ b ∈ t.binders, b.id = v.id
  · obtain ⟨b, inBinders, same⟩ := bound
    have named : t.naming.names[b.id]? = some b.name := by
      rw [Term.naming, addBinders_eq]
      refine getElem?_foldl_addBinder (.start t.freeNames) (fun _ none => nomatch none) distinct
        apart (fun b member c member' => ?_) b inBinders
      exact oneName b (mem_vars_of_mem_binders member) c
        (mem_vars_of_mem_binders member')
    rw [same, getElem?_nameOf inBinders same] at named
    rw [Option.some.inj named]
    exact oneName b (mem_vars_of_mem_binders inBinders) v member same
  · exact nameOf_of_unbound fun b inBinders same => bound ⟨b, inBinders, same⟩

end UntypedLambda.Term
