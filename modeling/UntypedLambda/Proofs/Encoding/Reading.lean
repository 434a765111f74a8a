import UntypedLambda.Proofs.Encoding.Identities
import UntypedLambda.Proofs.Encoding.Nameless
import UntypedLambda.Proofs.Nameless.Contraction

set_option autoImplicit false

/-! The readings of encodings, and what a reading says of the term that has it. The binders of an
encoding come from the supply above its parts, so they bind nothing in them. -/

namespace UntypedLambda.Term

/-! ### Readings by name -/

theorem readByName_abs (scope : List Var) (binder : Var) (body : Term) :
    (Term.abs binder body).readByName scope = .lam (body.readByName (binder :: scope)) :=
  rfl

theorem readByName_app (scope : List Var) (function argument : Term) :
    (Term.app function argument).readByName scope =
      .app (function.readByName scope) (argument.readByName scope) :=
  rfl

theorem namelessByName_abs (binder : Var) (body : Term) :
    (Term.abs binder body).namelessByName = .lam (body.readByName [binder]) :=
  rfl

/-- A term reads as the index of a binder exactly when it is an occurrence of it. -/
theorem readByName_eq_bound_iff {inner : List Var} {v : Var} (absent : v.id ∉ inner.map Var.id)
    (outer : List Var) (t : Term) :
    t.readByName (inner ++ v :: outer) = .bound inner.length ↔ t.isVar v.id = true := by
  cases t with
  | var w =>
      have mentioned := mentions_readUnder absent (outer.map Var.id) (.var w)
      rw [List.length_map] at mentioned
      have here : (Term.var w).readByName (inner ++ v :: outer) =
          ((Term.var w).readUnder (inner.map Var.id ++ v.id :: outer.map Var.id)).map Var.name := by
        rw [readByName, List.map_append, List.map_cons]
      change _ ↔ (Term.var w).occursFree v.id = true
      rw [here, ← mentioned]
      rcases readOccurrence_cases (inner.map Var.id ++ v.id :: outer.map Var.id) w with
        ⟨_, index, reads⟩ | ⟨_, reads⟩
      · rw [readUnder, reads]
        simp [Nameless.map, Nameless.mentions]
      · rw [readUnder, reads]
        simp [Nameless.map, Nameless.mentions]
  | abs binder body => simp [readByName_abs, isVar]
  | app function argument => simp [readByName_app, isVar]

theorem readByName_eq_bound_zero_iff (v : Var) (outer : List Var) (t : Term) :
    t.readByName (v :: outer) = .bound 0 ↔ t.isVar v.id = true :=
  @readByName_eq_bound_iff [] v List.not_mem_nil outer t

theorem readByName_eq_bound_one_iff {v w : Var} (different : v.id ≠ w.id) (outer : List Var)
    (t : Term) : t.readByName (w :: v :: outer) = .bound 1 ↔ t.isVar v.id = true := by
  have absent : v.id ∉ [w].map Var.id := by simpa using different
  exact readByName_eq_bound_iff absent outer t

theorem readByName_var_head (scope : List Var) (v : Var) :
    (Term.var v).readByName (v :: scope) = .bound 0 :=
  (readByName_eq_bound_zero_iff v scope (.var v)).mpr (beq_self_eq_true v.id)

theorem readByName_var_second {v w : Var} (different : v.id ≠ w.id) (scope : List Var) :
    (Term.var v).readByName (w :: v :: scope) = .bound 1 :=
  (readByName_eq_bound_one_iff different scope (.var v)).mpr (beq_self_eq_true v.id)

theorem readByName_abstractions (scope vars : List Var) (body : Term) :
    (abstractions vars body).readByName scope =
      Nameless.abstractions vars.length (body.readByName (vars.reverse ++ scope)) := by
  induction vars generalizing scope with
  | nil => rfl
  | cons v vars ih =>
      rw [abstractions, List.foldr_cons, readByName_abs, ← abstractions, ih, List.reverse_cons,
        List.append_assoc, List.length_cons, Nameless.abstractions, Nameless.abstractions,
        Function.iterate_succ_apply']
      rfl

theorem readByName_applications (scope : List Var) (head : Term) (arguments : List Term) :
    (applications head arguments).readByName scope =
      Nameless.applications (head.readByName scope) (arguments.map (readByName scope)) := by
  induction arguments generalizing head with
  | nil => rfl
  | cons argument arguments ih => exact ih (.app head argument)

/-- Binders whose identities are not free in a term bind nothing in it. -/
theorem readByName_append {t : Term} {inner : List Var}
    (unseen : ∀ v ∈ inner, t.occursFree v.id = false) (scope : List Var) :
    t.readByName (inner ++ scope) = (t.readByName scope).shift 0 inner.length := by
  have unseenIds : ∀ id ∈ inner.map Var.id, id ∈ ([] : List Nat) ∨ t.occursFree id = false := by
    intro id member
    obtain ⟨v, inside, rfl⟩ := List.mem_map.mp member
    exact Or.inr (unseen v inside)
  have inserted := readUnder_insert unseenIds (scope.map Var.id)
  rw [List.nil_append, List.nil_append, List.length_nil, List.length_map] at inserted
  rw [readByName, List.map_append, inserted, Nameless.map_shift, readByName]

theorem readByName_append_of_below {t : Term} {supply : Nat} (below : t.Below supply)
    (inner : List Var) (above : ∀ v ∈ inner, supply ≤ v.id) (scope : List Var) :
    t.readByName (inner ++ scope) = (t.readByName scope).shift 0 inner.length :=
  readByName_append (fun v member => occursFree_eq_false_of_below below (above v member)) scope

/-- The reading of a whole term has no index that is bound outside it. -/
theorem shift_namelessByName (t : Term) (cutoff amount : Nat) :
    t.namelessByName.shift cutoff amount = t.namelessByName := by
  rw [namelessByName, ← Nameless.map_shift, nameless, shift_readUnder [] t (Nat.zero_le cutoff)]

theorem readByName_of_below {t : Term} {base : Nat} (below : t.Below base) {scope : List Var}
    (above : ∀ v ∈ scope, base ≤ v.id) : t.readByName scope = t.namelessByName := by
  have appended := readByName_append_of_below below scope above []
  rw [List.append_nil] at appended
  exact appended.trans (shift_namelessByName t 0 scope.length)

/-- A term stands below binders as it would stand without them exactly when none of them binds
anything in it. -/
theorem readByName_eq_shift_iff {vars : List Var} (distinct : (vars.map Var.id).Nodup) (t : Term)
    (whole : Nameless String) :
    t.readByName vars = whole.shift 0 vars.length ↔
      (∀ v ∈ vars, t.occursFree v.id = false) ∧ t.namelessByName = whole := by
  have raised (unseen : ∀ v ∈ vars, t.occursFree v.id = false) :
      t.readByName vars = t.namelessByName.shift 0 vars.length := by
    have appended := readByName_append unseen []
    rwa [List.append_nil] at appended
  constructor
  · intro reads
    have unseen : ∀ v ∈ vars, t.occursFree v.id = false := by
      intro v member
      obtain ⟨inner, outer, rfl⟩ := List.append_of_mem member
      have absent : v.id ∉ inner.map Var.id := by
        rw [List.map_append, List.nodup_append'] at distinct
        exact fun inside => distinct.2.2 inside List.mem_cons_self
      have mentioned := mentions_readUnder absent (outer.map Var.id) t
      rw [← List.map_cons, ← List.map_append, ← Nameless.map_mentions Var.name, ← readByName,
        reads, List.length_map] at mentioned
      rw [← mentioned]
      apply Nameless.mentions_shift_of_lt (Nat.zero_le _)
      simp
    exact ⟨unseen, Nameless.shift_zero_injective ((raised unseen).symm.trans reads)⟩
  · rintro ⟨unseen, rfl⟩
    exact raised unseen

theorem map_readByName_eq_shift_iff (v : Var) (ts : List Term) (wholes : List (Nameless String)) :
    ts.map (readByName [v]) = wholes.map (Nameless.shift 0 1) ↔
      (∀ t ∈ ts, t.occursFree v.id = false) ∧ ts.map namelessByName = wholes := by
  have single (t : Term) (whole : Nameless String) :
      t.readByName [v] = whole.shift 0 1 ↔ t.occursFree v.id = false ∧ t.namelessByName = whole := by
    have distinct : ([v].map Var.id).Nodup := List.nodup_singleton v.id
    simpa using readByName_eq_shift_iff distinct t whole
  induction ts generalizing wholes with
  | nil => cases wholes <;> simp
  | cons t ts ih =>
      cases wholes with
      | nil => simp
      | cons whole wholes =>
          simp only [List.map_cons, List.cons.injEq, single, ih, List.forall_mem_cons]
          exact and_and_and_comm

/-! ### Terms from their readings -/

theorem readByName_var_cases (scope : List Var) (v : Var) :
    (∃ index, (Term.var v).readByName scope = .bound index) ∨
      ∃ name, (Term.var v).readByName scope = .free name := by
  rcases readOccurrence_cases (scope.map Var.id) v with ⟨_, index, reads⟩ | ⟨_, reads⟩
  · exact Or.inl ⟨index, by rw [readByName, readUnder, reads]; rfl⟩
  · exact Or.inr ⟨v.name, by rw [readByName, readUnder, reads]; rfl⟩

theorem exists_of_readByName_lam {scope : List Var} {t : Term} {inner : Nameless String}
    (reads : t.readByName scope = .lam inner) :
    ∃ binder body, t = .abs binder body ∧ body.readByName (binder :: scope) = inner := by
  cases t with
  | var v =>
      rcases readByName_var_cases scope v with ⟨_, other⟩ | ⟨_, other⟩ <;>
        cases other.symm.trans reads
  | abs binder body => exact ⟨binder, body, rfl, Nameless.lam.inj reads⟩
  | app function argument => cases reads

theorem exists_of_namelessByName_lam {t : Term} {inner : Nameless String}
    (reads : t.namelessByName = .lam inner) :
    ∃ binder body, t = .abs binder body ∧ body.readByName [binder] = inner :=
  @exists_of_readByName_lam [] t inner reads

theorem exists_of_readByName_app {scope : List Var} {t : Term} {left right : Nameless String}
    (reads : t.readByName scope = .app left right) :
    ∃ function argument, t = .app function argument ∧ function.readByName scope = left ∧
      argument.readByName scope = right := by
  cases t with
  | var v =>
      rcases readByName_var_cases scope v with ⟨_, other⟩ | ⟨_, other⟩ <;>
        cases other.symm.trans reads
  | abs binder body => cases reads
  | app function argument =>
      exact ⟨function, argument, rfl, (Nameless.app.inj reads).1, (Nameless.app.inj reads).2⟩

end UntypedLambda.Term

namespace UntypedLambda.Encoding

open Term

/-! ### Encodings -/

theorem iterated_readByName (scope : List Var) (f : Var) (t : Term) (n : Nat) :
    (iterated f t n).readByName scope =
      (Nameless.app ((Term.var f).readByName scope))^[n] (t.readByName scope) := by
  induction n generalizing t with
  | zero => rfl
  | succ n ih => rw [iterated, ih, Function.iterate_succ_apply, readByName_app]

theorem numeral_readByName (n supply : Nat) (scope : List Var) :
    (numeral n supply).1.readByName scope = Nameless.numeral n := by
  have different : supply ≠ supply + 1 := by omega
  simp only [numeral, readByName_abstractions, iterated_readByName, List.reverse_cons,
    List.reverse_nil, List.nil_append, List.cons_append, List.length_cons, List.length_nil]
  rw [readByName_var_second different, readByName_var_head]
  rfl

theorem nil_readByName (supply : Nat) (scope : List Var) :
    (nil supply).1.readByName scope = Nameless.nil := by
  simp only [nil, readByName_abstractions, List.reverse_cons, List.reverse_nil, List.nil_append,
    List.cons_append, List.length_cons, List.length_nil, readByName_var_head]
  rfl

theorem tuple_readByName {elements : List Term} {supply : Nat}
    (below : ∀ t ∈ elements, t.Below supply) (scope : List Var) :
    (tuple elements supply).1.readByName scope =
      Nameless.tuple (elements.map (readByName scope)) := by
  have raised : elements.map (readByName (⟨"p", supply⟩ :: scope)) =
      (elements.map (readByName scope)).map (Nameless.shift 0 1) := by
    rw [List.map_map]
    refine List.map_congr_left fun t member => ?_
    exact readByName_append_of_below (below t member) [⟨"p", supply⟩] (by simp) scope
  rw [tuple, readByName_abs, readByName_applications, readByName_var_head, raised]
  rfl

theorem cons_readByName {head tail : Term} {supply : Nat} (headBelow : head.Below supply)
    (tailBelow : tail.Below supply) (scope : List Var) :
    (cons head tail supply).1.readByName scope =
      Nameless.cons (head.readByName scope) (tail.readByName scope) := by
  have different : supply ≠ supply + 1 := by omega
  have raised {t : Term} (below : t.Below supply) :
      t.readByName (⟨"y", supply + 1⟩ :: ⟨"x", supply⟩ :: scope) =
        (t.readByName scope).shift 0 2 :=
    readByName_append_of_below below [⟨"y", supply + 1⟩, ⟨"x", supply⟩] (by simp) scope
  simp only [cons, readByName_abstractions, readByName_applications, List.reverse_cons,
    List.reverse_nil, List.nil_append, List.cons_append, List.length_cons, List.length_nil,
    List.map_cons, List.map_nil]
  rw [readByName_var_second different, raised headBelow, raised tailBelow]
  rfl

theorem cons_below {head tail : Term} {supply : Nat} (headBelow : head.Below supply)
    (tailBelow : tail.Below supply) : (cons head tail supply).1.Below (supply + 2) := by
  have grown : supply ≤ supply + 2 := Nat.le_add_right supply 2
  have first : supply < supply + 2 := by omega
  simp only [cons, abstractions, applications, List.foldr_cons, List.foldr_nil, List.foldl_cons,
    List.foldl_nil, below_abs, below_app, below_var]
  exact ⟨first, Nat.lt_succ_self _, ⟨first, headBelow.mono grown⟩, tailBelow.mono grown⟩

theorem nil_below (supply : Nat) : (nil supply).1.Below (supply + 2) := by
  simp [nil, abstractions, below_abs, below_var]

theorem list_below {elements : List Term} {supply : Nat} (below : ∀ t ∈ elements, t.Below supply) :
    (list elements supply).1.Below (list elements supply).2 := by
  induction elements with
  | nil => exact nil_below supply
  | cons head tail ih =>
      rw [List.forall_mem_cons] at below
      exact cons_below (below.1.mono (le_list tail supply)) (ih below.2)

theorem list_readByName {elements : List Term} {supply : Nat}
    (below : ∀ t ∈ elements, t.Below supply) (scope : List Var) :
    (list elements supply).1.readByName scope =
      Nameless.list (elements.map (readByName scope)) := by
  induction elements with
  | nil => exact nil_readByName supply scope
  | cons head tail ih =>
      rw [List.forall_mem_cons] at below
      rw [list, cons_readByName (below.1.mono (le_list tail supply)) (list_below below.2),
        ih below.2]
      rfl

end UntypedLambda.Encoding
