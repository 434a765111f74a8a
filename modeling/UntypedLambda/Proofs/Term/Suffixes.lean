import UntypedLambda.Proofs.Term.Naming

set_option autoImplicit false

/-! Which binders are shown by their own names. Names are given out in the order in which the
abstractions begin, and a binder receives its first candidate that is no free name and was given to
no binder before it. A numbered candidate can be the own name of a binder that comes later, and
that binder is numbered in its turn. -/

namespace UntypedLambda.Term

/-- The binder `b` follows the binders `before`, and it is the first one with its identity. -/
def Introduces (t : Term) (before : List Var) (b : Var) : Prop :=
  before ++ [b] <+: t.binders ∧ ∀ c ∈ before, c.id ≠ b.id

/-- The first binder with the name `name` is shown by it. Every later one with another identity is
shown by the name and a number, which gives neither a free name nor the name of another binder. -/
structure KeepsName (t : Term) (name : String) : Prop where
  first {before : List Var} {b : Var} : t.Introduces before b → b.name = name →
    (∀ c ∈ before, c.name ≠ name) → t.naming.nameOf b = name
  later {before : List Var} {b : Var} : t.Introduces before b → b.name = name →
    (∃ c ∈ before, c.name = name) →
    (∃ number, t.naming.nameOf b = name ++ toString (number + 1)) ∧
      t.naming.nameOf b ∉ t.freeNames ∧
      ∀ c ∈ t.binders, c.id ≠ b.id → c.name ≠ t.naming.nameOf b

/-! ### Names that are given out -/

theorem getElem?_addBinder_of_known {naming : Naming} {id : Nat} {name : String}
    (known : naming.names[id]? = some name) (binder : Var) :
    (naming.addBinder binder).names[id]? = some name := by
  cases found : naming.names[binder.id]? with
  | none =>
      rw [addBinder_of_unknown found, getElem?_insert_name, if_neg, known]
      rintro rfl
      rw [found] at known
      cases known
  | some other => rw [addBinder_of_known found, known]

/-- A name that was given out stays. -/
theorem getElem?_foldl_of_known {naming : Naming} {id : Nat} {name : String}
    (known : naming.names[id]? = some name) (binders : List Var) :
    (binders.foldl Naming.addBinder naming).names[id]? = some name := by
  induction binders generalizing naming with
  | nil => exact known
  | cons binder binders ih => exact ih (getElem?_addBinder_of_known known binder)

section

variable {t : Term} {before : List Var} {b c : Var}

theorem Introduces.mem (introduces : t.Introduces before b) : b ∈ t.binders :=
  introduces.1.subset (List.mem_append_right _ List.mem_cons_self)

theorem Introduces.mem_of_before (introduces : t.Introduces before b) (member : c ∈ before) :
    c ∈ t.binders :=
  introduces.1.subset (List.mem_append_left _ member)

/-- A new binder receives a name that is not taken by the free variables and by what the binders
before it are shown by. -/
theorem Introduces.nameOf_eq_untaken (introduces : t.Introduces before b) :
    ∃ taken : Std.TreeSet String, t.naming.nameOf b = untaken taken b.name ∧
      ∀ name, taken.contains name = true ↔
        name ∈ t.freeNames ∨ ∃ c ∈ before, t.naming.nameOf c = name := by
  obtain ⟨after, whole⟩ := introduces.1
  let reached : Naming := before.foldl Naming.addBinder ⟨Std.TreeSet.ofList t.freeNames, {}⟩
  have distinguishes : reached.Distinguishes t.freeNames before :=
    (Naming.Distinguishes.start t.freeNames).foldl before
  have all : t.naming = after.foldl Naming.addBinder (reached.addBinder b) := by
    rw [Term.naming, addBinders_eq, ← whole, List.foldl_append, List.foldl_append]
    rfl
  have shown {c : Var} (member : c ∈ t.binders) {name : String}
      (given : (reached.addBinder b).names[c.id]? = some name) : t.naming.nameOf c = name := by
    have known := getElem?_foldl_of_known given after
    rw [← all, getElem?_nameOf member rfl] at known
    exact Option.some.inj known
  have unknown : reached.names[b.id]? = none := by
    by_contra known
    obtain ⟨c, member, same⟩ := (distinguishes.named b.id).mp known
    exact introduces.2 c member same
  refine ⟨reached.taken, shown introduces.mem ?_, fun name => ?_⟩
  · rw [addBinder_of_unknown unknown, getElem?_insert_name, if_pos rfl]
  rw [distinguishes.taken]
  refine or_congr_right ⟨?_, ?_⟩
  · rintro ⟨id, given⟩
    obtain ⟨c, member, rfl⟩ := (distinguishes.named id).mp (by simp [given])
    exact ⟨c, member,
      shown (introduces.mem_of_before member) (getElem?_addBinder_of_known given b)⟩
  · rintro ⟨c, member, rfl⟩
    obtain ⟨name, given⟩ := Option.ne_none_iff_exists'.mp
      ((distinguishes.named c.id).mpr ⟨c, member, rfl⟩)
    refine ⟨c.id, ?_⟩
    rw [given, shown (introduces.mem_of_before member) (getElem?_addBinder_of_known given b)]

/-- The name of a new binder is its first candidate that is neither a free name nor given out. -/
theorem Introduces.nameOf_least (introduces : t.Introduces before b) :
    ∃ number, t.naming.nameOf b = candidate b.name number ∧
      ∀ smaller < number, candidate b.name smaller ∈ t.freeNames ∨
        ∃ c ∈ before, t.naming.nameOf c = candidate b.name smaller := by
  obtain ⟨taken, shown, takenIff⟩ := introduces.nameOf_eq_untaken
  obtain ⟨number, found, smaller⟩ := untaken_least taken b.name
  exact ⟨number, shown.trans found, fun index less => (takenIff _).mp (smaller index less)⟩

theorem Introduces.nameOf_eq_name (introduces : t.Introduces before b)
    (apart : b.name ∉ t.freeNames) (unused : ∀ c ∈ before, t.naming.nameOf c ≠ b.name) :
    t.naming.nameOf b = b.name := by
  obtain ⟨taken, shown, takenIff⟩ := introduces.nameOf_eq_untaken
  rw [shown]
  apply untaken_of_not_taken
  rw [Bool.eq_false_iff, ne_eq, takenIff]
  rintro (inFree | ⟨c, member, same⟩)
  · exact apart inFree
  · exact unused c member same

end

/-! ### Terms in which an identity has one name -/

/-- Among variables one of which is as asked for, there is a first one that is. -/
theorem exists_first_with {vars : List Var} (wanted : Var → Bool) {v : Var} (member : v ∈ vars)
    (holds : wanted v = true) :
    ∃ before first, before ++ [first] <+: vars ∧ wanted first = true ∧
      ∀ c ∈ before, wanted c = false := by
  obtain ⟨first, found⟩ :=
    Option.isSome_iff_exists.mp (List.find?_isSome.mpr ⟨v, member, holds⟩)
  obtain ⟨asked, before, after, whole, earlier⟩ := List.find?_eq_some_iff_append.mp found
  refine ⟨before, first, ⟨after, ?_⟩, asked, fun c inBefore => ?_⟩
  · rw [whole, List.append_assoc]
    rfl
  · rw [← Bool.not_eq_true']
    exact earlier c inBefore

section

variable {t : Term} (oneName : ∀ b ∈ t.binders, ∀ c ∈ t.binders, b.id = c.id → b.name = c.name)

include oneName

/-- Every binder is the first one of its identity somewhere, because that one has its name too. -/
theorem exists_introduces {b : Var} (member : b ∈ t.binders) :
    ∃ before, t.Introduces before b := by
  obtain ⟨before, first, within, same, earlier⟩ :=
    exists_first_with (fun c => c.id == b.id) member (beq_self_eq_true b.id)
  have inBinders : first ∈ t.binders :=
    within.subset (List.mem_append_right _ List.mem_cons_self)
  have sameId : first.id = b.id := eq_of_beq same
  have sameName : first.name = b.name := oneName first inBinders b member sameId
  obtain rfl : first = b := by
    cases first
    cases b
    exact congr (congrArg Var.mk sameName) sameId
  exact ⟨before, within, fun c inBefore => ne_of_beq_false (earlier c inBefore)⟩

/-- The first binder with a name is the first one of its identity. -/
theorem exists_first_introduces {b : Var} (member : b ∈ t.binders) :
    ∃ before first, t.Introduces before first ∧ first.name = b.name ∧
      ∀ c ∈ before, c.name ≠ b.name := by
  obtain ⟨before, first, within, same, earlier⟩ :=
    exists_first_with (fun c => c.name == b.name) member (beq_self_eq_true b.name)
  have sameName : first.name = b.name := eq_of_beq same
  have different : ∀ c ∈ before, c.name ≠ b.name :=
    fun c inBefore => ne_of_beq_false (earlier c inBefore)
  refine ⟨before, first, ⟨within, fun c inBefore sameId => ?_⟩, sameName, different⟩
  have inBinders : first ∈ t.binders :=
    within.subset (List.mem_append_right _ List.mem_cons_self)
  have inBinders' : c ∈ t.binders := within.subset (List.mem_append_left _ inBefore)
  exact different c inBefore ((oneName c inBinders' first inBinders sameId).trans sameName)

/-- The own name of an earlier binder is a free name or given out: that binder received it unless it
was taken before. -/
theorem Introduces.name_taken {before : List Var} {b c : Var}
    (introduces : t.Introduces before b) (member : c ∈ before) :
    c.name ∈ t.freeNames ∨ ∃ d ∈ before, t.naming.nameOf d = c.name := by
  obtain ⟨sooner, first⟩ := exists_introduces oneName (introduces.mem_of_before member)
  have absent : c ∉ sooner := fun inSooner => first.2 c inSooner rfl
  have inside : sooner ++ [c] <+: before := by
    have within : before <+: t.binders := (List.prefix_append before [b]).trans introduces.1
    rcases List.prefix_or_prefix_of_prefix first.1 within with shorter | longer
    · exact shorter
    · rcases List.prefix_concat_iff.mp longer with same | inSooner
      · exact same ▸ List.prefix_rfl
      · exact absurd (inSooner.subset member) absent
  have sub : sooner ⊆ before := fun d inSooner =>
    inside.subset (List.mem_append_left _ inSooner)
  by_cases kept : t.naming.nameOf c = c.name
  · exact Or.inr ⟨c, member, kept⟩
  · obtain ⟨number, shown, smaller⟩ := first.nameOf_least
    have positive : 0 < number := by
      rw [Nat.pos_iff_ne_zero]
      rintro rfl
      exact kept shown
    exact (smaller 0 positive).imp_right fun ⟨d, inSooner, same⟩ => ⟨d, sub inSooner, same⟩

/-- No binder takes the own name of an earlier one. -/
theorem Introduces.nameOf_ne_earlier {before : List Var} {b c : Var}
    (introduces : t.Introduces before b) (member : c ∈ before) :
    c.name ≠ t.naming.nameOf b := by
  intro same
  rcases introduces.name_taken oneName member with inFree | ⟨d, inBefore, shown⟩
  · rw [same] at inFree
    exact nameOf_not_mem_freeNames introduces.mem inFree
  · have sameId := (nameOf_eq_iff (introduces.mem_of_before inBefore) introduces.mem rfl).mp
      (shown.trans same)
    exact introduces.2 d inBefore sameId

/-- A name that keeps is given to binders of that name only, and its binders are given no other
binder's name. -/
theorem KeepsName.name_eq {name : String} (keeps : t.KeepsName name) {b c : Var}
    (inBinders : b ∈ t.binders) (inBinders' : c ∈ t.binders)
    (either : b.name = name ∨ c.name = name) (shown : t.naming.nameOf b = c.name) :
    b.name = c.name := by
  rcases either with rfl | rfl
  · obtain ⟨before, introduces⟩ := exists_introduces oneName inBinders
    by_cases repeated : ∃ d ∈ before, d.name = b.name
    · obtain ⟨_, _, apart⟩ := keeps.later introduces rfl repeated
      by_contra different
      refine apart c inBinders' (fun sameId => different ?_) shown.symm
      exact (oneName c inBinders' b inBinders sameId).symm
    · rw [← shown]
      exact (keeps.first introduces rfl fun d member same => repeated ⟨d, member, same⟩).symm
  · obtain ⟨before, first, introduces, same, new⟩ := exists_first_introduces oneName inBinders'
    have atFirst := keeps.first introduces same new
    have sameId := (nameOf_eq_iff inBinders introduces.mem rfl).mp (shown.trans atFirst.symm)
    exact (oneName b inBinders first introduces.mem sameId).trans same

/-- A name keeps when no binder is given another binder's name, as far as one of them has it. -/
theorem keepsName_of_name_eq {name : String} (apart : name ∉ t.freeNames)
    (names : ∀ b ∈ t.binders, ∀ c ∈ t.binders, b.name = name ∨ c.name = name →
      t.naming.nameOf b = c.name → b.name = c.name) : t.KeepsName name where
  first := by
    rintro before b introduces rfl new
    refine introduces.nameOf_eq_name apart fun c member shown => ?_
    have inBinders := introduces.mem_of_before member
    exact new c member (names c inBinders b introduces.mem (Or.inr rfl) shown)
  later := by
    rintro before b introduces rfl ⟨c, member, same⟩
    have renamed : t.naming.nameOf b ≠ b.name := by
      rw [← same]
      exact (introduces.nameOf_ne_earlier oneName member).symm
    refine ⟨?_, nameOf_not_mem_freeNames introduces.mem, fun d inBinders _ shown => ?_⟩
    · obtain ⟨number, shown, _⟩ := introduces.nameOf_least
      cases number with
      | zero => exact absurd shown renamed
      | succ number => exact ⟨number, shown⟩
    · have own := names b introduces.mem d inBinders (Or.inl rfl) shown.symm
      exact renamed (shown.symm.trans own.symm)

/-- A binder that is given a name other than its own is given its own name and a number. -/
theorem name_eq_of_not_numbered {b : Var} (inBinders : b ∈ t.binders) {name : String}
    (unlike : ∀ number : Nat, name ≠ b.name ++ toString (number + 1))
    (shown : t.naming.nameOf b = name) : b.name = name := by
  obtain ⟨before, introduces⟩ := exists_introduces oneName inBinders
  obtain ⟨number, found, _⟩ := introduces.nameOf_least
  cases number with
  | zero => exact found.symm.trans shown
  | succ number => exact absurd (shown.symm.trans found) (unlike number)

end

/-- Every binder is shown by its first candidate that is no free name and was given to no binder
before it. So it takes no free name, no own name of an earlier binder and no name that another
identity is shown by. A name that is not free keeps exactly when no binder of that name is given the
own name of a different binder, and no binder of a different name is given that name; and it does
when neither happens to be the other with a number after it. -/
theorem binder_keeps_name_iff (t : Term)
    (oneName : ∀ b ∈ t.binders, ∀ c ∈ t.binders, b.id = c.id → b.name = c.name) :
    (∀ before b, t.Introduces before b →
      (∃ number, t.naming.nameOf b = candidate b.name number ∧
        ∀ smaller < number, candidate b.name smaller ∈ t.freeNames ∨
          ∃ c ∈ before, t.naming.nameOf c = candidate b.name smaller) ∧
      t.naming.nameOf b ∉ t.freeNames ∧
      (∀ c ∈ before, c.name ≠ t.naming.nameOf b) ∧
      ∀ c ∈ t.binders, c.id ≠ b.id → t.naming.nameOf c ≠ t.naming.nameOf b) ∧
    ∀ name, name ∉ t.freeNames →
      (t.KeepsName name ↔ ∀ b ∈ t.binders, ∀ c ∈ t.binders, b.name = name ∨ c.name = name →
        t.naming.nameOf b = c.name → b.name = c.name) ∧
      ((∀ b ∈ t.binders, ∀ c ∈ t.binders, b.name = name ∨ c.name = name →
        ∀ number : Nat, c.name ≠ b.name ++ toString (number + 1)) → t.KeepsName name) := by
  refine ⟨fun before b introduces => ⟨introduces.nameOf_least, ?_, ?_, ?_⟩, fun name apart => ?_⟩
  · exact nameOf_not_mem_freeNames introduces.mem
  · exact fun c member => introduces.nameOf_ne_earlier oneName member
  · exact fun c member other same =>
      other ((nameOf_eq_iff member introduces.mem rfl).mp same)
  refine ⟨⟨?_, keepsName_of_name_eq oneName apart⟩, fun unlike => ?_⟩
  · exact fun keeps b inBinders c inBinders' => keeps.name_eq oneName inBinders inBinders'
  · refine keepsName_of_name_eq oneName apart fun b inBinders c inBinders' either => ?_
    exact name_eq_of_not_numbered oneName inBinders (unlike b inBinders c inBinders' either)

/-- The last binder passes `x1`, the name of the binder before it. -/
theorem suffix_passes_earlier_name :
    let t : Term := .abs ⟨"x", 0⟩ (.abs ⟨"x1", 1⟩ (.abs ⟨"x", 2⟩
      (.app (.app (.var ⟨"x", 0⟩) (.var ⟨"x1", 1⟩)) (.var ⟨"x", 2⟩))))
    t.KeepsName "x" ∧ t.KeepsName "x1" ∧ t.render = "λx x1 x2.x x1 x2" := by
  intro t
  obtain ⟨_, keeps⟩ := binder_keeps_name_iff t (by decide)
  exact ⟨(keeps "x" (by decide)).1.mpr (by decide), (keeps "x1" (by decide)).1.mpr (by decide),
    by decide⟩

/-- The second binder receives `x1`, the name of the binder after it, and that one, the first of its
name, is numbered. -/
theorem suffix_takes_later_name :
    let t : Term := .abs ⟨"x", 0⟩ (.abs ⟨"x", 1⟩ (.abs ⟨"x1", 2⟩
      (.app (.app (.var ⟨"x", 0⟩) (.var ⟨"x", 1⟩)) (.var ⟨"x1", 2⟩))))
    (∀ b ∈ t.binders, t.occursFree b.id = false) ∧ t.freeNames = [] ∧
      ¬ t.KeepsName "x" ∧ ¬ t.KeepsName "x1" ∧ t.render = "λx x1 x11.x x1 x11" := by
  intro t
  refine ⟨by decide, by decide, fun keeps => ?_, fun keeps => ?_, by decide⟩
  · have second : t.Introduces [⟨"x", 0⟩] ⟨"x", 1⟩ := ⟨by decide, by decide⟩
    obtain ⟨_, _, apart⟩ := keeps.later second rfl (by decide)
    exact apart ⟨"x1", 2⟩ (by decide) (by decide) (by decide)
  · have last : t.Introduces [⟨"x", 0⟩, ⟨"x", 1⟩] ⟨"x1", 2⟩ := ⟨by decide, by decide⟩
    have bare := keeps.first last rfl (by decide)
    exact absurd bare (by decide)

end UntypedLambda.Term
