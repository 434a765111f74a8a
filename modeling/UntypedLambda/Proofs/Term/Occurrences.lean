import Mathlib.Data.List.Induction
import UntypedLambda.Proofs.Term.FreeNames
import UntypedLambda.Term.Walk

set_option autoImplicit false

/-! The places in a term where variables occur free. Whether an identity is free and which names are
free is found by going through a term with a stack of pending parts as well as by recursion, and
both ways agree with the places. -/

namespace UntypedLambda.Term

/-! ### Places -/

inductive Branch where
  | body
  | function
  | argument
  deriving DecidableEq, Repr

/-- A variable stands at a place, which is the way to it, below the given binders, outermost
first. -/
inductive Occurs : Term → List Branch → List Var → Var → Prop where
  | here (v : Var) : Occurs (.var v) [] [] v
  | body (binder : Var) {body : Term} {place : List Branch} {binders : List Var} {v : Var} :
      Occurs body place binders v → Occurs (.abs binder body) (.body :: place) (binder :: binders) v
  | function {function : Term} (argument : Term) {place : List Branch} {binders : List Var}
      {v : Var} : Occurs function place binders v →
      Occurs (.app function argument) (.function :: place) binders v
  | argument (function : Term) {argument : Term} {place : List Branch} {binders : List Var}
      {v : Var} : Occurs argument place binders v →
      Occurs (.app function argument) (.argument :: place) binders v

def FreeAt (t : Term) (place : List Branch) (v : Var) : Prop :=
  ∃ binders, t.Occurs place binders v ∧ ∀ binder ∈ binders, binder.id ≠ v.id

/-- Where the ways to two places part, the first goes into the function of an application and the
second into the argument. -/
inductive LeftOf : List Branch → List Branch → Prop where
  | parts (first second : List Branch) : LeftOf (.function :: first) (.argument :: second)
  | within (branch : Branch) {first second : List Branch} : LeftOf first second →
      LeftOf (branch :: first) (branch :: second)

def StandsBefore (t : Term) (name other : String) : Prop :=
  ∃ place v, t.FreeAt place v ∧ v.name = name ∧
    ∀ place' w, t.FreeAt place' w → w.name = other → LeftOf place place'

/-! ### The places from left to right -/

def inBranch (branch : Branch) (places : List (List Branch × Var)) : List (List Branch × Var) :=
  places.map (Prod.map (List.cons branch) id)

theorem map_snd_inBranch (branch : Branch) (places : List (List Branch × Var)) :
    (inBranch branch places).map Prod.snd = places.map Prod.snd := by
  rw [inBranch, List.map_map]
  rfl

theorem mem_inBranch {branch : Branch} {places : List (List Branch × Var)} {place : List Branch}
    {v : Var} :
    (place, v) ∈ inBranch branch places ↔ ∃ rest, place = branch :: rest ∧ (rest, v) ∈ places := by
  rw [inBranch, List.mem_map]
  constructor
  · rintro ⟨⟨rest, w⟩, member, same⟩
    cases same
    exact ⟨rest, rfl, member⟩
  · rintro ⟨rest, rfl, member⟩
    exact ⟨(rest, v), member, rfl⟩

theorem pairwise_inBranch (branch : Branch) {places : List (List Branch × Var)}
    (ordered : places.Pairwise fun first second => LeftOf first.1 second.1) :
    (inBranch branch places).Pairwise fun first second => LeftOf first.1 second.1 :=
  ordered.map _ fun _ _ left => .within branch left

def freePlaces (bound : List Nat) : Term → List (List Branch × Var)
  | .var v => if v.id ∈ bound then [] else [([], v)]
  | .abs binder body => inBranch .body (body.freePlaces (binder.id :: bound))
  | .app function argument =>
      inBranch .function (function.freePlaces bound) ++
        inBranch .argument (argument.freePlaces bound)

theorem map_snd_freePlaces (bound : List Nat) (t : Term) :
    (t.freePlaces bound).map Prod.snd = (t.readUnder bound).labels := by
  induction t generalizing bound with
  | var v =>
      rcases readOccurrence_cases bound v with ⟨inside, index, reads⟩ | ⟨outside, reads⟩
      · rw [freePlaces, if_pos inside, readUnder, reads]
        rfl
      · rw [freePlaces, if_neg outside, readUnder, reads]
        rfl
  | abs binder body ih => rw [freePlaces, map_snd_inBranch, ih, readUnder, Nameless.labels]
  | app function argument ihFunction ihArgument =>
      rw [freePlaces, List.map_append, map_snd_inBranch, map_snd_inBranch, ihFunction, ihArgument,
        readUnder, Nameless.labels]

theorem mem_freePlaces {bound : List Nat} {t : Term} {place : List Branch} {v : Var} :
    (place, v) ∈ t.freePlaces bound ↔ v.id ∉ bound ∧ t.FreeAt place v := by
  induction t generalizing bound place with
  | var w =>
      rw [freePlaces]
      constructor
      · intro member
        split at member
        · cases member
        · rename_i outside
          cases List.mem_singleton.mp member
          exact ⟨outside, [], .here v, fun _ none => nomatch none⟩
      · rintro ⟨outside, binders, occurs, _⟩
        cases occurs
        rw [if_neg outside]
        exact List.mem_singleton_self _
  | abs binder body ih =>
      rw [freePlaces, mem_inBranch]
      constructor
      · rintro ⟨rest, rfl, member⟩
        obtain ⟨outside, binders, occurs, unbound⟩ := ih.mp member
        rw [List.mem_cons, not_or] at outside
        refine ⟨outside.2, binder :: binders, .body binder occurs, ?_⟩
        exact List.forall_mem_cons.mpr ⟨Ne.symm outside.1, unbound⟩
      · rintro ⟨outside, binders, occurs, unbound⟩
        cases occurs with
        | body _ occurs =>
            obtain ⟨different, unbound⟩ := List.forall_mem_cons.mp unbound
            refine ⟨_, rfl, ih.mpr ⟨?_, _, occurs, unbound⟩⟩
            rw [List.mem_cons, not_or]
            exact ⟨Ne.symm different, outside⟩
  | app function argument ihFunction ihArgument =>
      rw [freePlaces, List.mem_append, mem_inBranch, mem_inBranch]
      constructor
      · rintro (⟨rest, rfl, member⟩ | ⟨rest, rfl, member⟩)
        · obtain ⟨outside, binders, occurs, unbound⟩ := ihFunction.mp member
          exact ⟨outside, binders, .function argument occurs, unbound⟩
        · obtain ⟨outside, binders, occurs, unbound⟩ := ihArgument.mp member
          exact ⟨outside, binders, .argument function occurs, unbound⟩
      · rintro ⟨outside, binders, occurs, unbound⟩
        cases occurs with
        | function _ occurs =>
            exact Or.inl ⟨_, rfl, ihFunction.mpr ⟨outside, binders, occurs, unbound⟩⟩
        | argument _ occurs =>
            exact Or.inr ⟨_, rfl, ihArgument.mpr ⟨outside, binders, occurs, unbound⟩⟩

theorem pairwise_freePlaces (bound : List Nat) (t : Term) :
    (t.freePlaces bound).Pairwise fun first second => LeftOf first.1 second.1 := by
  induction t generalizing bound with
  | var v =>
      rw [freePlaces]
      split
      · exact List.Pairwise.nil
      · exact List.pairwise_singleton _ _
  | abs binder body ih => exact pairwise_inBranch .body (ih _)
  | app function argument ihFunction ihArgument =>
      refine List.pairwise_append.mpr
        ⟨pairwise_inBranch .function (ihFunction _), pairwise_inBranch .argument (ihArgument _), ?_⟩
      rintro ⟨first, v⟩ inFunction ⟨second, w⟩ inArgument
      obtain ⟨_, rfl, _⟩ := mem_inBranch.mp inFunction
      obtain ⟨_, rfl, _⟩ := mem_inBranch.mp inArgument
      exact .parts _ _

/-! ### Names in the order of their first occurrences -/

def FirstBefore (names : List String) (name other : String) : Prop :=
  ∃ front, front ++ [name] <+: names ∧ other ∉ front ++ [name]

/-- Names that are added one after another are in the order of their first occurrences. -/
theorem pairwise_foldl_addName (names : List String) :
    (names.foldl addName []).reverse.Pairwise (FirstBefore names) := by
  induction names using List.reverseRecOn with
  | nil => exact List.Pairwise.nil
  | append_singleton names last ih =>
      have earlier : (names.foldl addName []).reverse.Pairwise (FirstBefore (names ++ [last])) :=
        ih.imp fun ⟨front, begins, absent⟩ =>
          ⟨front, begins.trans (List.prefix_append names [last]), absent⟩
      rw [List.foldl_append, List.foldl_cons, List.foldl_nil, addName]
      split
      · exact earlier
      · rename_i new
        rw [List.contains_iff_mem, mem_foldl_addName, not_or] at new
        rw [List.reverse_cons]
        refine List.pairwise_append.mpr ⟨earlier, List.pairwise_singleton _ _, ?_⟩
        intro name member other isLast
        rw [List.mem_reverse, mem_foldl_addName] at member
        obtain ⟨front, back, split⟩ := List.append_of_mem (member.resolve_left List.not_mem_nil)
        have begins : front ++ [name] <+: names := ⟨back, by rw [split, ← List.append_cons]⟩
        rw [List.mem_singleton.mp isLast]
        exact ⟨front, begins.trans (List.prefix_append names [last]),
          fun among => new.2 (begins.subset among)⟩

theorem freeNames_eq_foldl (t : Term) :
    t.freeNames = (((t.freePlaces []).map fun free => free.2.name).foldl addName []).reverse := by
  rw [freeNames, collectFree_eq, ← map_snd_freePlaces, List.map_map]
  rfl

theorem mem_freeNames_iff_freeAt (t : Term) (name : String) :
    name ∈ t.freeNames ↔ ∃ place v, t.FreeAt place v ∧ v.name = name := by
  rw [freeNames_eq_foldl, List.mem_reverse, mem_foldl_addName, List.mem_map]
  constructor
  · rintro (none | ⟨⟨place, v⟩, member, named⟩)
    · cases none
    · exact ⟨place, v, (mem_freePlaces.mp member).2, named⟩
  · rintro ⟨place, v, free, named⟩
    exact Or.inr ⟨(place, v), mem_freePlaces.mpr ⟨List.not_mem_nil, free⟩, named⟩

/-- What is first among the names of the places from left to right is first in the term. -/
theorem standsBefore_of_firstBefore {t : Term} {name other : String}
    (first : FirstBefore ((t.freePlaces []).map fun free => free.2.name) name other) :
    t.StandsBefore name other := by
  obtain ⟨front, ⟨back, begins⟩, absent⟩ := first
  rw [List.append_assoc, List.singleton_append] at begins
  obtain ⟨placesBefore, places, split, rfl, rest⟩ := List.map_eq_append_iff.mp begins.symm
  obtain ⟨⟨place, v⟩, placesAfter, rfl, rfl, -⟩ := List.map_eq_cons_iff.mp rest
  have ordered := pairwise_freePlaces [] t
  rw [split] at ordered
  have here : (place, v) ∈ t.freePlaces [] := by simp [split]
  refine ⟨place, v, (mem_freePlaces.mp here).2, rfl, fun place' w free named => ?_⟩
  have there : (place', w) ∈ t.freePlaces [] := mem_freePlaces.mpr ⟨List.not_mem_nil, free⟩
  rw [List.mem_append, List.mem_singleton, not_or] at absent
  rw [split, List.mem_append, List.mem_cons] at there
  rcases there with inBefore | same | inAfter
  · exact absurd (List.mem_map.mpr ⟨_, inBefore, named⟩) absent.1
  · cases same
    exact absurd named.symm absent.2
  · exact (List.pairwise_cons.mp (List.pairwise_append.mp ordered).2.1).1 _ inAfter

theorem pairwise_freeNames (t : Term) : t.freeNames.Pairwise t.StandsBefore := by
  rw [freeNames_eq_foldl]
  exact (pairwise_foldl_addName _).imp standsBefore_of_firstBefore

theorem nodup_freeNames (t : Term) : t.freeNames.Nodup := by
  rw [freeNames_eq_foldl]
  refine (pairwise_foldl_addName _).imp ?_
  rintro name other ⟨front, -, absent⟩ rfl
  exact absent (List.mem_append_right front (List.mem_singleton_self name))

theorem occursFree_iff_freeAt (t : Term) (id : Nat) :
    t.occursFree id = true ↔ ∃ place v, t.FreeAt place v ∧ v.id = id := by
  constructor
  · intro free
    obtain ⟨v, member, same⟩ := exists_mem_labels_of_occursFree List.not_mem_nil free
    rw [← map_snd_freePlaces, List.mem_map] at member
    obtain ⟨⟨place, w⟩, member, rfl⟩ := member
    exact ⟨place, w, (mem_freePlaces.mp member).2, same⟩
  · rintro ⟨place, v, free, rfl⟩
    have member : (place, v) ∈ t.freePlaces [] := mem_freePlaces.mpr ⟨List.not_mem_nil, free⟩
    have labelled := List.mem_map_of_mem (f := Prod.snd) member
    rw [map_snd_freePlaces] at labelled
    exact (occursFree_of_mem_labels labelled).2

/-! ### Walks with a stack -/

theorem searchPending_eq_any (id : Nat) (pending : List Term) :
    searchPending id pending = pending.any fun t => t.occursFree id := by
  fun_induction searchPending id pending with
  | case1 => rfl
  | case2 v pending same => rw [List.any_cons, occursFree, same, Bool.true_or]
  | case3 v pending different ih =>
      rw [List.any_cons, occursFree, Bool.eq_false_iff.mpr different, Bool.false_or, ih]
  | case4 binder body pending same ih =>
      rw [List.any_cons, occursFree, bne, same, Bool.not_true, Bool.false_and, Bool.false_or, ih]
  | case5 binder body pending different ih =>
      rw [List.any_cons, occursFree, bne, Bool.eq_false_iff.mpr different, Bool.not_false,
        Bool.true_and, ih, List.any_cons]
  | case6 function argument pending ih =>
      rw [ih, List.any_cons, List.any_cons, List.any_cons, occursFree, Bool.or_assoc]

/-- The names are collected from the pending parts in turn, as long as those seen are the names so
far. -/
theorem collectPending_eq_foldl (seen : Std.HashSet String) (names : List String)
    (pending : List Unvisited) (known : ∀ name, seen.contains name = names.contains name) :
    collectPending seen names pending =
      (pending.foldl (fun found part => part.term.collectFree part.bound found)
        names.reverse).reverse := by
  fun_induction collectPending seen names pending with
  | case1 seen names => exact (List.reverse_reverse names).symm
  | case2 seen names bound v pending inside ih =>
      rw [ih known, List.foldl_cons, collectFree, inside, Bool.true_or, if_pos rfl]
  | case3 seen names bound v pending outside old ih =>
      rw [known] at old
      rw [ih known, List.foldl_cons, collectFree, List.contains_reverse, old, Bool.or_true,
        if_pos rfl]
  | case4 seen names bound v pending outside new ih =>
      rw [known] at new
      have known' : ∀ name, (seen.insert v.name).contains name =
          (names ++ [v.name]).contains name := by
        intro name
        rw [Std.HashSet.contains_insert, known, List.contains_append, List.contains_cons,
          List.contains_nil, Bool.or_false, Bool.or_comm, Bool.beq_comm]
      rw [ih known', List.foldl_cons, collectFree, List.contains_reverse,
        Bool.eq_false_iff.mpr outside, Bool.eq_false_iff.mpr new, List.reverse_append]
      rfl
  | case5 seen names bound binder body pending ih =>
      rw [ih known, List.foldl_cons, List.foldl_cons, collectFree]
  | case6 seen names bound function argument pending ih =>
      rw [ih known, List.foldl_cons, List.foldl_cons, List.foldl_cons, collectFree]

theorem searchFree_eq (t : Term) (id : Nat) : t.searchFree id = t.occursFree id := by
  rw [searchFree, searchPending_eq_any, List.any_cons, List.any_nil, Bool.or_false]

theorem walkFreeNames_eq (t : Term) : t.walkFreeNames = t.freeNames :=
  collectPending_eq_foldl _ _ _ fun _ => Std.HashSet.contains_empty

/-- The walks with a stack compute the free occurrences of any term, as the recursions do. The one
for an identity finds it exactly if it occurs at a place under no abstraction that binds it. The one
for names lists, each once and from left to right by their first such occurrences, the names of the
variables that stand at a place under no abstraction that binds their own identity. -/
theorem walks_compute_free_occurrences (t : Term) :
    (∀ id, (t.searchFree id = true ↔ ∃ place v, t.FreeAt place v ∧ v.id = id) ∧
      t.occursFree id = t.searchFree id) ∧
    (∀ name, name ∈ t.walkFreeNames ↔ ∃ place v, t.FreeAt place v ∧ v.name = name) ∧
    t.walkFreeNames.Nodup ∧ t.walkFreeNames.Pairwise t.StandsBefore ∧
    t.freeNames = t.walkFreeNames := by
  rw [walkFreeNames_eq]
  refine ⟨fun id => ?_, mem_freeNames_iff_freeAt t, nodup_freeNames t, pairwise_freeNames t, rfl⟩
  rw [searchFree_eq]
  exact ⟨occursFree_iff_freeAt t id, rfl⟩

/-- The identity 0 is bound in the function and free in the argument, the identity 1 is bound where
another variable called `z` is free, and it is free itself later on. -/
theorem walk_past_bound_identities :
    let t : Term := .app (.abs ⟨"x", 0⟩ (.app (.var ⟨"x", 0⟩) (.abs ⟨"z", 1⟩ (.var ⟨"z", 2⟩))))
      (.app (.app (.var ⟨"x", 0⟩) (.var ⟨"z", 1⟩)) (.var ⟨"y", 3⟩))
    t.walkFreeNames = ["z", "x", "y"] ∧ t.searchFree 0 = true ∧ t.StandsBefore "z" "x" := by
  intro t
  obtain ⟨search, -, -, ordered, same⟩ := walks_compute_free_occurrences t
  have names : t.walkFreeNames = ["z", "x", "y"] := by
    rw [← same]
    decide
  refine ⟨names, ?_, ?_⟩
  · rw [← (search 0).2]
    decide
  · rw [names] at ordered
    exact (List.pairwise_cons.mp ordered).1 "x" List.mem_cons_self

end UntypedLambda.Term
