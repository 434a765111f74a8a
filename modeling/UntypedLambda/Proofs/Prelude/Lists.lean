import UntypedLambda.Proofs.Prelude.Reduction
import UntypedLambda.Proofs.Term.Conversion
import UntypedLambda.Proofs.Term.Iterates
import UntypedLambda.Proofs.Term.Lifting

set_option autoImplicit false

/-! Lists and pairs with the prelude. Runs in normal order bring out an element of a list or of a
pair without entering the others, whatever they are, and capture nothing that is free in them. -/

namespace UntypedLambda

open Surface Term Relation Iteration

/-- An application of given terms and of definitions, which stand for copies with new binders. -/
inductive Compound where
  | given (t : Term)
  | defined (name : String)
  | app (function argument : Compound)

namespace Compound

def call (name : String) (arguments : List Compound) : Compound :=
  arguments.foldl .app (.defined name)

def build? (context : Context) : Compound → Nat → Option (Term × Nat)
  | .given t, supply => some (t, supply)
  | .defined name, supply => context.lookup? name supply
  | .app function argument, supply => do
      let left ← function.build? context supply
      let right ← argument.build? context left.2
      return (.app left.1 right.1, right.2)

def Fits (known : List (String × Nameless String)) (supply : Nat) : Compound → Prop
  | .given t => t.Below supply
  | .defined name => (known.lookup name).isSome = true
  | .app function argument => function.Fits known supply ∧ argument.Fits known supply

def reading (known : List (String × Nameless String)) : Compound → Nameless String
  | .given t => t.namelessByName
  | .defined name => (known.lookup name).getD (.free name)
  | .app function argument => .app (function.reading known) (argument.reading known)

section Build

variable {known : List (String × Nameless String)} {context : Context}

theorem Fits.mono {compound : Compound} {supply supply' : Nat}
    (fits : compound.Fits known supply) (le : supply ≤ supply') :
    compound.Fits known supply' := by
  induction compound with
  | given t => exact Term.Below.mono fits le
  | defined name => exact fits
  | app function argument ihFunction ihArgument =>
      exact ⟨ihFunction fits.1, ihArgument fits.2⟩

/-- A compound that fits is built, and reads as the compound of the readings. -/
theorem exists_build? {base supply : Nat} (knows : Prelude.Knows known context base)
    (le : base ≤ supply) {compound : Compound} (fits : compound.Fits known supply) :
    ∃ t left, compound.build? context supply = some (t, left) ∧ supply ≤ left ∧
      t.Below left ∧ t.namelessByName = compound.reading known := by
  induction compound generalizing supply with
  | given t => exact ⟨t, supply, rfl, Nat.le_refl supply, fits, rfl⟩
  | defined name =>
      obtain ⟨meaning, found⟩ := Option.isSome_iff_exists.mp fits
      obtain ⟨t, defined, rfl⟩ := Prelude.exists_find? knows found
      have below := (knows.below.find? defined).mono le
      refine ⟨(t.freshCopy supply).1, (t.freshCopy supply).2, ?_, le_renameFrom [] t supply,
        freshCopy_below below, ?_⟩
      · rw [build?, Context.lookup?, defined]
        rfl
      · rw [reading, found]
        exact congrArg (Nameless.map Var.name) (readUnder_freshCopy below [])
  | app function argument ihFunction ihArgument =>
      obtain ⟨left, between, built, grown, below, reads⟩ := ihFunction le fits.1
      obtain ⟨right, after, built', grown', below', reads'⟩ :=
        ihArgument (Nat.le_trans le grown) (fits.2.mono grown)
      refine ⟨.app left right, after, ?_, Nat.le_trans grown grown', ?_, ?_⟩
      · simp [build?, built, built']
      · exact (below_app _ _ _).mpr ⟨below.mono grown', below'⟩
      · rw [reading, ← reads, ← reads']
        rfl

end Build

/-- A compound is built, and finitely many beta steps in normal order take its term to the
target, up to bound variables. -/
def Leads (context : Context) (supply : Nat) (compound : Compound) (target : Term) : Prop :=
  ∃ t left, compound.build? context supply = some (t, left) ∧
    ∀ later, left ≤ later → ∃ count final,
      after? (advance? .beta .leftmostOutermost) count (t, later) = some final ∧
        final.1.alphaEqual target = true

/-- What the reading comes to by weak head reduction, the term comes to in normal order. -/
theorem leads_of_weakReduces {known : List (String × Nameless String)} {context : Context}
    {base supply : Nat} (knows : Prelude.Knows known context base) (le : base ≤ supply)
    {compound : Compound} (fits : compound.Fits known supply) {target : Term}
    (steps : Nameless.WeakReduces (compound.reading known) target.namelessByName) :
    compound.Leads context supply target := by
  obtain ⟨t, left, built, _, below, reads⟩ := exists_build? knows le fits
  rw [← reads] at steps
  refine ⟨t, left, built, fun later le => ?_⟩
  obtain ⟨count, reached⟩ :=
    reflTransGen_iff_after?.mp (Nameless.normalOrder_of_weakReduces steps)
  have shown := (views_namelessByName .beta).after? count (t, later) (below.mono le)
  rw [Mode.contractFirst?, reached, Option.map_eq_some_iff] at shown
  obtain ⟨final, reached, same⟩ := shown
  exact ⟨count, final, reached, (alphaEqual_iff _ _).mpr same⟩

end Compound

namespace Prelude

open Compound

def tails (list : Term) (count : Nat) : Compound :=
  (fun rest => call "tail" [rest])^[count] (.given list)

def conses (elements : List Term) : Compound :=
  elements.foldr (fun element rest => call "cons" [.given element, rest]) (.defined "nil")

theorem tails_fits {list : Term} {supply : Nat} (below : list.Below supply) (count : Nat) :
    (tails list count).Fits dictionary supply := by
  induction count with
  | zero => exact below
  | succ count ih =>
      rw [tails, Function.iterate_succ_apply']
      exact ⟨rfl, ih⟩

theorem reading_tails (list : Term) (count : Nat) :
    (tails list count).reading dictionary =
      (Nameless.app tailOf)^[count] list.namelessByName := by
  induction count with
  | zero => rfl
  | succ count ih =>
      rw [tails, Function.iterate_succ_apply', Function.iterate_succ_apply', ← ih]
      rfl

theorem conses_fits {elements : List Term} {supply : Nat}
    (below : ∀ element ∈ elements, element.Below supply) :
    (conses elements).Fits dictionary supply := by
  induction elements with
  | nil => rfl
  | cons element elements ih =>
      rw [List.forall_mem_cons] at below
      exact ⟨⟨rfl, below.1⟩, ih below.2⟩

theorem reading_conses (elements : List Term) :
    (conses elements).reading dictionary =
      (elements.map Term.namelessByName).foldr
        (fun element rest => Nameless.applications prepend [element, rest]) Nameless.nil := by
  induction elements with
  | nil => rfl
  | cons element elements ih =>
      rw [List.map_cons, List.foldr_cons, ← ih]
      rfl

section Operations

variable {context : Context} {base supply : Nat}

section Lists

variable {elements : List Term} {list : Term}

/-- The elements from an index on are left when as many tails are taken. -/
theorem tails_reduces (reads : list.namelessByName = Nameless.list (elements.map namelessByName))
    {count : Nat} (le : count ≤ elements.length) :
    Nameless.WeakReduces ((tails list count).reading dictionary)
      (Nameless.list ((elements.drop count).map namelessByName)) := by
  rw [reading_tails, reads, List.map_drop]
  exact tails_reduce _ (by rwa [List.length_map])

theorem tails_reduces_cons
    (reads : list.namelessByName = Nameless.list (elements.map namelessByName)) {index : Nat}
    (inside : index < elements.length) :
    Nameless.WeakReduces ((tails list index).reading dictionary)
      (Nameless.cons elements[index].namelessByName
        (Nameless.list ((elements.drop (index + 1)).map namelessByName))) := by
  have dropped := tails_reduces reads (Nat.le_of_lt inside)
  rwa [List.drop_eq_getElem_cons inside] at dropped

variable (knows : Knows dictionary context base) (le : base ≤ supply)
  (reads : list.namelessByName = Nameless.list (elements.map namelessByName))

include knows le reads

/-- The chain of the elements reduces to the list. -/
theorem conses_convertible (inside : ∀ element ∈ elements, element.Below supply) :
    ∃ chain left, (conses elements).build? context supply = some (chain, left) ∧
      Convertible .beta chain list := by
  obtain ⟨chain, left, built, _, _, chainReads⟩ := exists_build? knows le (conses_fits inside)
  refine ⟨chain, left, built, ?_⟩
  have steps := prepends_reduce (elements.map namelessByName)
  rw [← reading_conses, ← chainReads, ← reads] at steps
  obtain ⟨reduct, contracted, same⟩ := exists_contractsTo_of_reduces steps
  exact (convertible_of_contractsTo contracted).trans _ _ _
    (.rel _ _ (Or.inl ((alphaEqual_iff _ _).mpr same)))

variable (below : list.Below supply)

include below

theorem head_leads {index : Nat} (inside : index < elements.length) :
    (call "head" [tails list index]).Leads context supply elements[index] := by
  have fits : (call "head" [tails list index]).Fits dictionary supply :=
    ⟨rfl, tails_fits below index⟩
  exact leads_of_weakReduces knows le fits (headOf_reduces (tails_reduces_cons reads inside))

theorem isnil_leads_to_no {no : Term} (selects : no.namelessByName = selectSecond) {index : Nat}
    (inside : index < elements.length) :
    (call "isnil" [tails list index]).Leads context supply no := by
  have fits : (call "isnil" [tails list index]).Fits dictionary supply :=
    ⟨rfl, tails_fits below index⟩
  refine leads_of_weakReduces knows le fits ?_
  rw [selects]
  exact emptyTest_reduces_of_cons (tails_reduces_cons reads inside)

theorem isnil_leads_to_yes {yes : Term} (selects : yes.namelessByName = selectFirst) :
    (call "isnil" [tails list elements.length]).Leads context supply yes := by
  have fits : (call "isnil" [tails list elements.length]).Fits dictionary supply :=
    ⟨rfl, tails_fits below elements.length⟩
  have left := tails_reduces reads (Nat.le_refl elements.length)
  rw [List.drop_length] at left
  refine leads_of_weakReduces knows le fits ?_
  rw [selects]
  exact emptyTest_reduces_of_nil left

end Lists

section Pairs

variable {a b tuple : Term} (knows : Knows dictionary context base) (le : base ≤ supply)

include knows le

theorem pair_leads (belowA : a.Below supply) (belowB : b.Below supply)
    (reads : tuple.namelessByName = Nameless.tuple [a.namelessByName, b.namelessByName]) :
    (call "pair" [.given a, .given b]).Leads context supply tuple := by
  have fits : (call "pair" [.given a, .given b]).Fits dictionary supply :=
    ⟨⟨rfl, belowA⟩, belowB⟩
  refine leads_of_weakReduces knows le fits ?_
  rw [reads]
  exact pairing_reduces a.namelessByName b.namelessByName

theorem projections_lead {p : Compound} (fits : p.Fits dictionary supply)
    (steps : Nameless.WeakReduces (p.reading dictionary)
      (Nameless.tuple [a.namelessByName, b.namelessByName])) :
    (call "fst" [p]).Leads context supply a ∧ (call "snd" [p]).Leads context supply b := by
  have fitsFirst : (call "fst" [p]).Fits dictionary supply := ⟨rfl, fits⟩
  have fitsSecond : (call "snd" [p]).Fits dictionary supply := ⟨rfl, fits⟩
  exact ⟨leads_of_weakReduces knows le fitsFirst (firstOf_reduces steps),
    leads_of_weakReduces knows le fitsSecond (secondOf_reduces steps)⟩

end Pairs

end Operations

/-- Lists and pairs with the prelude agree with the encodings, whatever terms the elements are. In
normal order finitely many beta steps take the head of what repeated tails leave of a list to the
element, and the test for the empty list to the definition of `false`, or to that of `true` when no
element is left. The elements put in front of the empty list are convertible to the list. A pair is
taken to the tuple, and its projections, and those of any term that is equal to the tuple up to
bound variables, to the two elements. The definitions are copied from any later supply. -/
theorem lists_and_pairs_agree_with_encodings (loading : Settings) (start : Nat) :
    ∃ context supply yes no, load loading start = .ok (context, supply) ∧
      context.find? "true" = some yes ∧ context.find? "false" = some no ∧
      ∀ later, supply ≤ later →
        (∀ elements : List Term, (∀ element ∈ elements, element.Below later) →
          let list := Encoding.list elements later
          ∀ still, list.2 ≤ still →
            (∀ index (inside : index < elements.length),
              (call "head" [tails list.1 index]).Leads context still elements[index] ∧
              (call "isnil" [tails list.1 index]).Leads context still no) ∧
            (call "isnil" [tails list.1 elements.length]).Leads context still yes ∧
            ∃ chain left, (conses elements).build? context still = some (chain, left) ∧
              Convertible .beta chain list.1) ∧
        ∀ a b : Term, a.Below later → b.Below later →
          let pair := call "pair" [.given a, .given b]
          let tuple := (Encoding.tuple [a, b] later).1
          ∀ still, later ≤ still →
            pair.Leads context still tuple ∧
            ∀ p, p = pair ∨ (∃ t : Term, t.Below still ∧ t.alphaEqual tuple = true ∧ p = .given t) →
              (call "fst" [p]).Leads context still a ∧ (call "snd" [p]).Leads context still b := by
  obtain ⟨context, supply, loaded, _, knows⟩ := exists_load loading start
  obtain ⟨yes, foundYes, selectsFirst⟩ :=
    exists_find? knows (show dictionary.lookup "true" = some selectFirst from rfl)
  obtain ⟨no, foundNo, selectsSecond⟩ :=
    exists_find? knows (show dictionary.lookup "false" = some selectSecond from rfl)
  refine ⟨context, supply, yes, no, loaded, foundYes, foundNo, fun later le => ⟨?_, ?_⟩⟩
  · intro elements below list still le'
    have grown := Nat.le_trans (Encoding.le_list elements later) le'
    have known := Nat.le_trans le grown
    have reads : list.1.namelessByName = Nameless.list (elements.map namelessByName) :=
      Encoding.list_readByName below []
    have listBelow : list.1.Below still := (Encoding.list_below below).mono le'
    refine ⟨fun index inside => ⟨?_, ?_⟩, ?_, ?_⟩
    · exact head_leads knows known reads listBelow inside
    · exact isnil_leads_to_no knows known reads listBelow selectsSecond inside
    · exact isnil_leads_to_yes knows known reads listBelow selectsFirst
    · exact conses_convertible knows known reads fun element member =>
        (below element member).mono grown
  · intro a b belowA belowB pair tuple still le'
    have known := Nat.le_trans le le'
    have reads : tuple.namelessByName = Nameless.tuple [a.namelessByName, b.namelessByName] :=
      Encoding.tuple_readByName (by simp [belowA, belowB]) []
    have belowA' := belowA.mono le'
    have belowB' := belowB.mono le'
    refine ⟨pair_leads knows known belowA' belowB' reads, ?_⟩
    rintro p (rfl | ⟨t, below, same, rfl⟩)
    · exact projections_lead knows known ⟨⟨rfl, belowA'⟩, belowB'⟩
        (pairing_reduces a.namelessByName b.namelessByName)
    · refine projections_lead knows known below ?_
      rw [reading, (alphaEqual_iff _ _).mp same, reads]

/-- The first element diverges, and in the second one `h` and `t` are free, which are the names of
binders of the prelude. -/
theorem list_with_divergent_element :
    let half : Term := .abs ⟨"w", 0⟩ (.app (.var ⟨"w", 0⟩) (.var ⟨"w", 0⟩))
    let divergent : Term := .app half half
    let wanted : Term := .app (.var ⟨"h", 1⟩) (.var ⟨"t", 2⟩)
    ∃ context supply, load {} 0 = .ok (context, supply) ∧
      let list := Encoding.list [divergent, wanted] (supply + 3)
      let pair := (Encoding.tuple [divergent, wanted] (supply + 3)).1
      (call "head" [call "tail" [.given list.1]]).Leads context list.2 wanted ∧
        (call "snd" [.given pair]).Leads context (supply + 4) wanted := by
  intro half divergent wanted
  obtain ⟨context, supply, _, _, loaded, _, _, agree⟩ := lists_and_pairs_agree_with_encodings {} 0
  have le : 3 ≤ supply + 3 := Nat.le_add_left 3 supply
  have below : divergent.Below (supply + 3) := Below.mono (by decide : divergent.Below 3) le
  have below' : wanted.Below (supply + 3) := Below.mono (by decide : wanted.Below 3) le
  obtain ⟨lists, pairs⟩ := agree (supply + 3) (Nat.le_add_right supply 3)
  obtain ⟨elements, _⟩ := lists [divergent, wanted] (by simp [below, below']) _ (Nat.le_refl _)
  obtain ⟨_, projections⟩ := pairs divergent wanted below below' (supply + 4) (Nat.le_succ _)
  have grown : supply + 3 ≤ supply + 4 := Nat.le_succ (supply + 3)
  have pairBelow : (Encoding.tuple [divergent, wanted] (supply + 3)).1.Below (supply + 4) := by
    rw [Encoding.tuple, below_abs, applications, List.foldl_cons, List.foldl_cons, List.foldl_nil,
      below_app, below_app, below_var]
    exact ⟨Nat.lt_succ_self _, ⟨Nat.lt_succ_self _, below.mono grown⟩, below'.mono grown⟩
  have same := (alphaEqual_iff (Encoding.tuple [divergent, wanted] (supply + 3)).1 _).mpr rfl
  exact ⟨context, supply, loaded, (elements 1 (by decide)).1,
    (projections (.given _) (Or.inr ⟨_, pairBelow, same, rfl⟩)).2⟩

end Prelude

end UntypedLambda
