import Mathlib.Data.List.Induction
import UntypedLambda.Proofs.Encoding.Reading
import UntypedLambda.Proofs.Term.Clean

set_option autoImplicit false

/-! What the decoders recognize. A decoder looks at the shape of a term and at the identities of its
binders. Where no abstraction encloses another with the same identity, it succeeds exactly on the
encodings, up to bound variables, and it gives back what was encoded. -/

namespace UntypedLambda

namespace Term

/-- Whether no abstraction encloses another with the same identity. -/
def Unshadowed : Term → Prop
  | .var _ => True
  | .abs binder body => (∀ b ∈ body.binders, b.id ≠ binder.id) ∧ body.Unshadowed
  | .app function argument => function.Unshadowed ∧ argument.Unshadowed

instance decidableUnshadowed : (t : Term) → Decidable t.Unshadowed
  | .var _ => isTrue trivial
  | .abs _ body => @instDecidableAnd _ _ inferInstance (decidableUnshadowed body)
  | .app function argument =>
      @instDecidableAnd _ _ (decidableUnshadowed function) (decidableUnshadowed argument)

theorem Unshadowed.ne {x y : Var} {body : Term}
    (unshadowed : (Term.abs x (.abs y body)).Unshadowed) : x.id ≠ y.id :=
  fun same => unshadowed.1 y List.mem_cons_self same.symm

theorem Clean.unshadowed {supply : Nat} {t : Term} (clean : t.Clean supply) :
    t.Unshadowed := by
  induction t with
  | var v => trivial
  | abs binder body ih =>
      obtain ⟨_, different, cleanBody⟩ := (clean_abs_iff _ _ _).mp clean
      exact ⟨different, ih cleanBody⟩
  | app function argument ihFunction ihArgument =>
      obtain ⟨cleanFunction, cleanArgument, _⟩ := (clean_app_iff _ _ _).mp clean
      exact ⟨ihFunction cleanFunction, ihArgument cleanArgument⟩

end Term

namespace Encoding

open Term

/-! ### Numbers -/

theorem iterations?_eq_some_iff {f x : Var} (different : f.id ≠ x.id) (t : Term) (n : Nat) :
    iterations? f.id x.id t = some n ↔
      t.readByName [x, f] = (Nameless.app (.bound 1))^[n] (.bound 0) := by
  induction t generalizing n with
  | var v =>
      cases n with
      | zero =>
          rw [Function.iterate_zero_apply, readByName_eq_bound_zero_iff, iterations?, isVar]
          by_cases same : v.id = x.id
          · simp [same]
          · simp [same]
      | succ n =>
          rw [Function.iterate_succ_apply', iterations?]
          constructor
          · intro decoded
            split at decoded
            · cases decoded
            · cases decoded
          · intro reads
            obtain ⟨function, argument, shape, _⟩ := exists_of_readByName_app reads
            cases shape
  | abs binder body =>
      constructor
      · intro decoded
        cases decoded
      · cases n with
        | zero =>
            intro reads
            cases reads
        | succ n =>
            rw [Function.iterate_succ_apply']
            intro reads
            cases reads
  | app function argument ihFunction ihArgument =>
      cases n with
      | zero =>
          rw [iterations?]
          constructor
          · intro decoded
            split at decoded
            · simp at decoded
            · cases decoded
          · intro reads
            cases reads
      | succ n =>
          rw [Function.iterate_succ_apply', readByName_app, Nameless.app.injEq,
            readByName_eq_bound_one_iff different, iterations?]
          by_cases applied : function.isVar f.id = true
          · simpa [applied] using ihArgument n
          · simp [applied]

theorem asNumeral?_eq_some_iff {t : Term} (unshadowed : t.Unshadowed) (n : Nat) :
    asNumeral? t = some n ↔
      t.namelessByName = Nameless.numeral n ∨ n = 1 ∧ t.namelessByName = .lam (.bound 0) := by
  -- Both readings are those of an abstraction.
  have other (noAbs : ∀ f body, t ≠ .abs f body) :
      ¬ (t.namelessByName = Nameless.numeral n ∨ n = 1 ∧ t.namelessByName = .lam (.bound 0)) := by
    rintro (reads | ⟨_, reads⟩)
    · obtain ⟨f, body, shape, _⟩ := exists_of_namelessByName_lam reads
      exact noAbs f body shape
    · obtain ⟨f, body, shape, _⟩ := exists_of_namelessByName_lam reads
      exact noAbs f body shape
  cases t with
  | var v => simp [asNumeral?, other]
  | app function argument => simp [asNumeral?, other]
  | abs f body =>
      rw [namelessByName_abs, Nameless.lam.injEq, readByName_eq_bound_zero_iff]
      cases body with
      | var v =>
          have notNumeral : Nameless.lam ((Term.var v).readByName [f]) ≠ Nameless.numeral n := by
            intro reads
            obtain ⟨x, inner, shape, _⟩ := exists_of_readByName_lam (Nameless.lam.inj reads)
            cases shape
          by_cases same : (Term.var v).isVar f.id = true
          · simp [asNumeral?, same, notNumeral, eq_comm]
          · simp [asNumeral?, same, notNumeral]
      | abs x inner =>
          simp [asNumeral?, isVar, iterations?_eq_some_iff unshadowed.ne, readByName_abs,
            Nameless.numeral, Nameless.abstractions]
      | app function argument =>
          simp [asNumeral?, isVar, readByName_app, Nameless.numeral, Nameless.abstractions]

/-! ### Tuples -/

theorem applications_cases (head : Term) (arguments : List Term) :
    (arguments = [] ∧ applications head arguments = head) ∨
      ∃ front last, arguments = front ++ [last] ∧
        applications head arguments = .app (applications head front) last := by
  cases arguments using List.reverseRecOn with
  | nil => exact Or.inl ⟨rfl, rfl⟩
  | append_singleton front last _ =>
      exact Or.inr ⟨front, last, rfl, applications_concat head front last⟩

theorem argumentsOf?_eq_some_iff (p : Nat) (t : Term) (rest elements : List Term) :
    argumentsOf? p t rest = some elements ↔
      ∃ v arguments, t = applications (.var v) arguments ∧ v.id = p ∧
        (∀ a ∈ arguments, a.occursFree p = false) ∧ elements = arguments ++ rest := by
  induction t generalizing rest with
  | var v =>
      rw [argumentsOf?]
      constructor
      · intro decoded
        split at decoded
        · rename_i same
          cases decoded
          exact ⟨v, [], rfl, beq_iff_eq.mp same, by simp, rfl⟩
        · cases decoded
      · rintro ⟨w, arguments, shape, same, _, rfl⟩
        rcases applications_cases (.var w) arguments with ⟨rfl, alone⟩ | ⟨_, _, _, applied⟩
        · cases shape
          rw [if_pos (beq_iff_eq.mpr same), List.nil_append]
        · rw [applied] at shape
          cases shape
  | abs binder body =>
      constructor
      · intro decoded
        cases decoded
      · rintro ⟨w, arguments, shape, _⟩
        rcases applications_cases (.var w) arguments with ⟨rfl, _⟩ | ⟨_, _, _, applied⟩
        · cases shape
        · rw [applied] at shape
          cases shape
  | app function argument ihFunction ihArgument =>
      rw [argumentsOf?]
      constructor
      · intro decoded
        split at decoded
        · cases decoded
        · rename_i avoided
          obtain ⟨v, front, rfl, same, avoids, rfl⟩ := (ihFunction _).mp decoded
          refine ⟨v, front ++ [argument], (applications_concat ..).symm, same, ?_, by simp⟩
          intro a member
          rcases List.mem_append.mp member with inFront | last
          · exact avoids a inFront
          · rw [List.mem_singleton.mp last]
            exact Bool.eq_false_iff.mpr avoided
      · rintro ⟨v, arguments, shape, same, avoids, rfl⟩
        rcases applications_cases (.var v) arguments with ⟨rfl, _⟩ | ⟨front, last, rfl, applied⟩
        · cases shape
        · rw [applied] at shape
          cases shape
          have lastAvoids : ¬ argument.occursFree p = true :=
            Bool.eq_false_iff.mp (avoids argument (by simp))
          rw [if_neg lastAvoids, ihFunction]
          exact ⟨v, front, rfl, same, fun a member => avoids a (List.mem_append_left _ member),
            by simp⟩

theorem asTuple?_eq_some_iff (t : Term) (elements : List Term) :
    asTuple? t = some elements ↔ elements ≠ [] ∧
      ∃ p v, t = .abs p (applications (.var v) elements) ∧ v.id = p.id ∧
        ∀ e ∈ elements, e.occursFree p.id = false := by
  cases t with
  | var v => simp [asTuple?]
  | app function argument => simp [asTuple?]
  | abs p body =>
      have spine := argumentsOf?_eq_some_iff p.id body [] elements
      simp only [List.append_nil] at spine
      rw [asTuple?]
      constructor
      · intro decoded
        split at decoded
        · rename_i first others found
          cases decoded
          obtain ⟨v, arguments, rfl, same, avoids, rfl⟩ := spine.mp found
          exact ⟨List.cons_ne_nil _ _, p, v, rfl, same, avoids⟩
        · cases decoded
      · rintro ⟨nonempty, p', v, shape, same, avoids⟩
        cases shape
        rw [spine.mpr ⟨v, elements, rfl, same, avoids, rfl⟩]
        cases elements with
        | nil => exact absurd rfl nonempty
        | cons first others => rfl

theorem exists_of_readByName_applications {scope : List Var} {t : Term} {index : Nat}
    {parts : List (Nameless String)}
    (reads : t.readByName scope = Nameless.applications (.bound index) parts) :
    ∃ v arguments, t = applications (.var v) arguments ∧
      (Term.var v).readByName scope = .bound index ∧ arguments.map (readByName scope) = parts := by
  induction parts using List.reverseRecOn generalizing t with
  | nil =>
      cases t with
      | var v => exact ⟨v, [], rfl, reads, rfl⟩
      | abs binder body => cases reads
      | app function argument => cases reads
  | append_singleton front last ih =>
      rw [Nameless.applications, List.foldl_concat] at reads
      obtain ⟨function, argument, rfl, inFunction, rfl⟩ := exists_of_readByName_app reads
      obtain ⟨v, arguments, rfl, head, rfl⟩ := ih inFunction
      exact ⟨v, arguments ++ [argument], (applications_concat ..).symm, head, by simp⟩

theorem asTuple?_reads (t : Term) {parts : List (Nameless String)} (nonempty : parts ≠ []) :
    (asTuple? t).map (List.map namelessByName) = some parts ↔
      t.namelessByName = Nameless.tuple parts := by
  rw [Option.map_eq_some_iff]
  constructor
  · rintro ⟨elements, decoded, rfl⟩
    obtain ⟨_, p, v, rfl, same, avoids⟩ := (asTuple?_eq_some_iff t elements).mp decoded
    have head : (Term.var v).readByName [p] = .bound 0 :=
      (readByName_eq_bound_zero_iff p [] (.var v)).mpr (beq_iff_eq.mpr same)
    have raised := (map_readByName_eq_shift_iff p elements _).mpr ⟨avoids, rfl⟩
    rw [namelessByName_abs, readByName_applications, head, raised]
    rfl
  · intro reads
    obtain ⟨p, body, rfl, inBody⟩ := exists_of_namelessByName_lam reads
    obtain ⟨v, elements, rfl, head, arguments⟩ := exists_of_readByName_applications inBody
    obtain ⟨avoids, rfl⟩ := (map_readByName_eq_shift_iff p elements parts).mp arguments
    have same := beq_iff_eq.mp ((readByName_eq_bound_zero_iff p [] (.var v)).mp head)
    have some : elements ≠ [] := fun none => nonempty (congrArg (List.map namelessByName) none)
    exact ⟨elements, (asTuple?_eq_some_iff _ _).mpr ⟨some, p, v, rfl, same, avoids⟩, rfl⟩

theorem asTuple?_tuple {elements : List Term} {supply : Nat} (nonempty : elements ≠ [])
    (below : ∀ e ∈ elements, e.Below supply) :
    asTuple? (tuple elements supply).1 = some elements := by
  refine (asTuple?_eq_some_iff _ _).mpr ⟨nonempty, ⟨"p", supply⟩, ⟨"p", supply⟩, rfl, rfl, ?_⟩
  exact fun e member => occursFree_eq_false_of_below (below e member) (Nat.le_refl supply)

/-! ### Lists -/

theorem avoids_eq_true_iff (x y : Nat) (t : Term) :
    avoids x y t = true ↔ t.occursFree x = false ∧ t.occursFree y = false := by
  simp [avoids]

theorem asList?_eq_some_nil_iff (t : Term) :
    asList? t = some [] ↔ ∃ x y v, t = .abs x (.abs y (.var v)) ∧ v.id = y.id := by
  constructor
  · intro decoded
    fun_cases asList? t with
    | case1 x y v same => exact ⟨x, y, v, rfl, beq_iff_eq.mp same⟩
    | case2 x y v different => simp [asList?, different] at decoded
    | case3 x y headOf head tail accepted => simp [asList?, accepted] at decoded
    | case4 x y headOf head tail refused => simp [asList?, refused] at decoded
    | case5 t noNil noCons => simp [asList?] at decoded
  · rintro ⟨x, y, v, rfl, same⟩
    simp [asList?, same]

theorem asList?_eq_some_cons_iff (t head : Term) (elements : List Term) :
    asList? t = some (head :: elements) ↔
      ∃ x y headOf tail, t = .abs x (.abs y (.app (.app headOf head) tail)) ∧
        headOf.isVar x.id = true ∧ avoids x.id y.id head = true ∧
        avoids x.id y.id tail = true ∧ asList? tail = some elements := by
  constructor
  · intro decoded
    fun_cases asList? t with
    | case1 x y v same => simp [asList?, same] at decoded
    | case2 x y v different => simp [asList?, different] at decoded
    | case3 x y headOf head' tail accepted =>
        rw [asList?, if_pos accepted] at decoded
        obtain ⟨_, inTail, same⟩ := Option.map_eq_some_iff.mp decoded
        cases same
        simp only [Bool.and_eq_true] at accepted
        exact ⟨x, y, headOf, tail, rfl, accepted.1.1, accepted.1.2, accepted.2, inTail⟩
    | case4 x y headOf head' tail refused => simp [asList?, refused] at decoded
    | case5 t noNil noCons => simp [asList?] at decoded
  · rintro ⟨x, y, headOf, tail, rfl, applied, inHead, inTail, decoded⟩
    simp [asList?, applied, inHead, inTail, decoded]

/-- The reading of one pair of head and tail. -/
theorem namelessByName_eq_cons_iff {x y : Var} (different : x.id ≠ y.id) (headOf head tail : Term)
    (first rest : Nameless String) :
    (Term.abs x (.abs y (.app (.app headOf head) tail))).namelessByName =
        Nameless.cons first rest ↔
      headOf.isVar x.id = true ∧ (avoids x.id y.id head = true ∧ head.namelessByName = first) ∧
        (avoids x.id y.id tail = true ∧ tail.namelessByName = rest) := by
  have part (t : Term) (whole : Nameless String) :
      t.readByName [y, x] = whole.shift 0 2 ↔
        avoids x.id y.id t = true ∧ t.namelessByName = whole := by
    have distinct : ([y, x].map Var.id).Nodup := by simpa using different.symm
    have unseen : (∀ v ∈ [y, x], t.occursFree v.id = false) ↔ avoids x.id y.id t = true := by
      simp [avoids_eq_true_iff, and_comm]
    rw [← unseen]
    exact readByName_eq_shift_iff distinct t whole
  rw [namelessByName_abs, readByName_abs, readByName_app, readByName_app]
  change _ = Nameless.lam (.lam (.app (.app (.bound 1) (first.shift 0 2)) (rest.shift 0 2))) ↔ _
  rw [Nameless.lam.injEq, Nameless.lam.injEq, Nameless.app.injEq, Nameless.app.injEq,
    readByName_eq_bound_one_iff different, part, part, and_assoc]

/-- A term is decoded as a list exactly when it reads as one. -/
theorem asList?_reads {t : Term} (unshadowed : t.Unshadowed) (parts : List (Nameless String)) :
    (asList? t).map (List.map namelessByName) = some parts ↔
      t.namelessByName = Nameless.list parts := by
  induction parts generalizing t with
  | nil =>
      rw [Option.map_eq_some_iff]
      constructor
      · rintro ⟨elements, decoded, noParts⟩
        rw [List.map_eq_nil_iff.mp noParts, asList?_eq_some_nil_iff] at decoded
        obtain ⟨x, y, v, rfl, same⟩ := decoded
        have last := (readByName_eq_bound_zero_iff y [x] (.var v)).mpr (beq_iff_eq.mpr same)
        exact congrArg Nameless.lam (congrArg Nameless.lam last)
      · intro reads
        obtain ⟨x, outer, rfl, inOuter⟩ := exists_of_namelessByName_lam reads
        obtain ⟨y, inner, rfl, inInner⟩ := exists_of_readByName_lam inOuter
        have last := (readByName_eq_bound_zero_iff y [x] inner).mp inInner
        cases inner with
        | var v =>
            exact ⟨[], (asList?_eq_some_nil_iff _).mpr ⟨x, y, v, rfl, beq_iff_eq.mp last⟩, rfl⟩
        | abs binder body => cases last
        | app function argument => cases last
  | cons first rest ih =>
      rw [Option.map_eq_some_iff]
      constructor
      · rintro ⟨elements, decoded, same⟩
        obtain ⟨head, others, rfl, inHead, inOthers⟩ := List.map_eq_cons_iff.mp same
        obtain ⟨x, y, headOf, tail, rfl, applied, headAvoids, tailAvoids, inTail⟩ :=
          (asList?_eq_some_cons_iff t head others).mp decoded
        have tailReads : tail.namelessByName = Nameless.list rest := by
          rw [← ih unshadowed.2.2.2, inTail, Option.map_some, inOthers]
        exact (namelessByName_eq_cons_iff unshadowed.ne headOf head tail first _).mpr
          ⟨applied, ⟨headAvoids, inHead⟩, tailAvoids, tailReads⟩
      · intro reads
        obtain ⟨x, outer, rfl, inOuter⟩ := exists_of_namelessByName_lam reads
        obtain ⟨y, inner, rfl, inInner⟩ := exists_of_readByName_lam inOuter
        obtain ⟨pair, tail, rfl, inPair, _⟩ := exists_of_readByName_app inInner
        obtain ⟨headOf, head, rfl, _, _⟩ := exists_of_readByName_app inPair
        obtain ⟨applied, ⟨headAvoids, inHead⟩, tailAvoids, tailReads⟩ :=
          (namelessByName_eq_cons_iff unshadowed.ne headOf head tail first _).mp reads
        obtain ⟨others, decoded, inOthers⟩ :=
          Option.map_eq_some_iff.mp ((ih unshadowed.2.2.2).mpr tailReads)
        refine ⟨head :: others, (asList?_eq_some_cons_iff _ _ _).mpr ?_, by simp [inHead, inOthers]⟩
        exact ⟨x, y, headOf, tail, rfl, applied, headAvoids, tailAvoids, decoded⟩

theorem asList?_list {elements : List Term} {supply : Nat}
    (below : ∀ e ∈ elements, e.Below supply) :
    asList? (list elements supply).1 = some elements := by
  induction elements with
  | nil => exact (asList?_eq_some_nil_iff _).mpr ⟨_, _, _, rfl, rfl⟩
  | cons head tail ih =>
      obtain ⟨headBelow, tailBelow⟩ := List.forall_mem_cons.mp below
      have avoided {t : Term} (inside : t.Below (list tail supply).2) :
          avoids (list tail supply).2 ((list tail supply).2 + 1) t = true := by
        rw [avoids_eq_true_iff]
        exact ⟨occursFree_eq_false_of_below inside (Nat.le_refl _),
          occursFree_eq_false_of_below inside (Nat.le_succ _)⟩
      refine (asList?_eq_some_cons_iff _ _ _).mpr ⟨_, _, _, _, rfl, ?_, ?_, ?_, ih tailBelow⟩
      · exact beq_self_eq_true _
      · exact avoided (headBelow.mono (le_list tail supply))
      · exact avoided (list_below tailBelow)

/-! ### Recognition -/

/-- Whether a decoder succeeds on a term exactly when the term is an encoding of some admitted
elements, up to bound variables, and gives back those elements. -/
structure Recognizes (decode : Term → Option (List Term))
    (encode : List Term → Nat → Term × Nat) (admitted : List Term → Prop) (t : Term) : Prop where
  succeeds_iff : (decode t).isSome = true ↔
    ∃ elements supply, admitted elements ∧ (∀ e ∈ elements, e.Below supply) ∧
      t.alphaEqual (encode elements supply).1 = true
  decoded_iff : ∀ elements supply, admitted elements → (∀ e ∈ elements, e.Below supply) →
    (t.alphaEqual (encode elements supply).1 = true ↔
      ∃ decoded, decode t = some decoded ∧
        List.Forall₂ (fun found element => found.alphaEqual element = true) decoded elements)

theorem exists_supply (elements : List Term) : ∃ supply, ∀ e ∈ elements, e.Below supply := by
  induction elements with
  | nil => exact ⟨0, by simp⟩
  | cons head tail ih =>
      obtain ⟨first, headBelow⟩ := head.exists_below
      obtain ⟨second, tailBelow⟩ := ih
      refine ⟨max first second, List.forall_mem_cons.mpr ⟨?_, ?_⟩⟩
      · exact headBelow.mono (Nat.le_max_left first second)
      · exact fun e member => (tailBelow e member).mono (Nat.le_max_right first second)

theorem forall₂_alphaEqual_iff (found elements : List Term) :
    List.Forall₂ (fun left right => left.alphaEqual right = true) found elements ↔
      found.map namelessByName = elements.map namelessByName := by
  simp only [alphaEqual_iff]
  rw [← List.forall₂_eq_eq_eq, List.forall₂_map_left_iff, List.forall₂_map_right_iff]

/-- A decoder that finds the readings of the elements in the reading of the term recognizes the
encodings. -/
theorem Recognizes.of_readings {decode : Term → Option (List Term)}
    {encode : List Term → Nat → Term × Nat} {admitted : List Term → Prop} {t : Term}
    {enclose : List (Nameless String) → Nameless String}
    (encodes : ∀ elements supply, (∀ e ∈ elements, e.Below supply) →
      (encode elements supply).1.namelessByName = enclose (elements.map namelessByName))
    (decodes : ∀ elements, admitted elements →
      ((decode t).map (List.map namelessByName) = some (elements.map namelessByName) ↔
        t.namelessByName = enclose (elements.map namelessByName)))
    (admits : ∀ elements, decode t = some elements → admitted elements) :
    Recognizes decode encode admitted t := by
  have decodedIff (elements : List Term) (supply : Nat) (inside : admitted elements)
      (below : ∀ e ∈ elements, e.Below supply) :
      t.alphaEqual (encode elements supply).1 = true ↔
        ∃ decoded, decode t = some decoded ∧
          List.Forall₂ (fun found element => found.alphaEqual element = true) decoded elements := by
    rw [alphaEqual_iff, encodes elements supply below, ← decodes elements inside,
      Option.map_eq_some_iff]
    simp only [forall₂_alphaEqual_iff]
  refine ⟨?_, decodedIff⟩
  constructor
  · intro succeeds
    obtain ⟨elements, decoded⟩ := Option.isSome_iff_exists.mp succeeds
    obtain ⟨supply, below⟩ := exists_supply elements
    have inside := admits elements decoded
    refine ⟨elements, supply, inside, below, (decodedIff elements supply inside below).mpr ?_⟩
    exact ⟨elements, decoded, (forall₂_alphaEqual_iff _ _).mpr rfl⟩
  · rintro ⟨elements, supply, inside, below, same⟩
    obtain ⟨decoded, found, _⟩ := (decodedIff elements supply inside below).mp same
    rw [found]
    rfl

/-- Only the empty list has a second value, which is zero. -/
theorem nil_or_one_decoder (t : Term) :
    t.namelessByName = Nameless.nil ∨
      [(asNumeral? t).isSome, (asList? t).isSome, (asTuple? t).isSome].count true ≤ 1 := by
  cases t with
  | var v => exact Or.inr (by simp [asNumeral?, asList?, asTuple?])
  | app function argument => exact Or.inr (by simp [asNumeral?, asList?, asTuple?])
  | abs x body =>
      cases body with
      | var v =>
          have notTuple : asTuple? (.abs x (.var v)) = none := by
            by_cases same : v.id = x.id <;> simp [asTuple?, argumentsOf?, same]
          have notList : asList? (.abs x (.var v)) = none := rfl
          rw [notTuple, notList]
          exact Or.inr (by cases (asNumeral? _).isSome <;> decide)
      | app function argument =>
          have notNumeral : asNumeral? (.abs x (.app function argument)) = none := rfl
          have notList : asList? (.abs x (.app function argument)) = none := rfl
          rw [notNumeral, notList]
          exact Or.inr (by cases (asTuple? _).isSome <;> decide)
      | abs y inner =>
          have notTuple : asTuple? (.abs x (.abs y inner)) = none := rfl
          by_cases last : inner.isVar y.id = true
          · refine Or.inl (congrArg Nameless.lam (congrArg Nameless.lam ?_))
            exact (readByName_eq_bound_zero_iff y [x] inner).mpr last
          · rw [notTuple]
            cases decoded : asList? (.abs x (.abs y inner)) with
            | none => exact Or.inr (by cases (asNumeral? _).isSome <;> decide)
            | some elements =>
                cases elements with
                | nil =>
                    obtain ⟨_, _, v, shape, same⟩ := (asList?_eq_some_nil_iff _).mp decoded
                    cases shape
                    exact absurd (beq_iff_eq.mpr same) last
                | cons head others =>
                    obtain ⟨_, _, headOf, tail, shape, _⟩ :=
                      (asList?_eq_some_cons_iff _ head others).mp decoded
                    cases shape
                    have notNumeral :
                        asNumeral? (.abs x (.abs y (.app (.app headOf head) tail))) = none := by
                      simp [asNumeral?, isVar, iterations?]
                    rw [notNumeral]
                    exact Or.inr (Nat.le_refl 1)

/-- The decoders succeed exactly on the encodings, up to bound variables, and on the identity, which
is the number one after an eta step. They give back what was encoded. -/
theorem decoders_recognize_encodings {t : Term} (unshadowed : t.Unshadowed) :
    (∀ (n supply : Nat) (a : Var), asNumeral? t = some n ↔
      t.alphaEqual (numeral n supply).1 = true ∨ n = 1 ∧ t.alphaEqual (.abs a (.var a)) = true) ∧
    Recognizes asList? list (fun _ => True) t ∧
    Recognizes asTuple? tuple (fun elements => elements ≠ []) t ∧
    (∀ (elements : List Term) (supply : Nat), (∀ e ∈ elements, e.Below supply) →
      asList? (list elements supply).1 = some elements ∧
      (elements ≠ [] → asTuple? (tuple elements supply).1 = some elements)) ∧
    ∀ x y : Var, t.alphaEqual (.abs x (.abs y (.var y))) = true ∨
      [(asNumeral? t).isSome, (asList? t).isSome, (asTuple? t).isSome].count true ≤ 1 := by
  refine ⟨?numbers, ?lists, ?tuples, ?built, ?overlap⟩
  case numbers =>
    intro n supply a
    have ofNumeral : (numeral n supply).1.namelessByName = Nameless.numeral n :=
      numeral_readByName n supply []
    have ofIdentity : (Term.abs a (.var a)).namelessByName = .lam (.bound 0) :=
      congrArg Nameless.lam (readByName_var_head [] a)
    rw [alphaEqual_iff, alphaEqual_iff, ofNumeral, ofIdentity]
    exact asNumeral?_eq_some_iff unshadowed n
  case lists =>
    exact .of_readings (fun _ _ below => list_readByName below [])
      (fun elements _ => asList?_reads unshadowed (elements.map namelessByName))
      (fun _ _ => trivial)
  case tuples =>
    refine .of_readings (fun _ _ below => tuple_readByName below []) ?_ ?_
    · intro elements nonempty
      exact asTuple?_reads t (fun none => nonempty (List.map_eq_nil_iff.mp none))
    · intro elements decoded
      exact ((asTuple?_eq_some_iff t elements).mp decoded).1
  case built =>
    exact fun _ _ below => ⟨asList?_list below, fun nonempty => asTuple?_tuple nonempty below⟩
  case overlap =>
    intro x y
    have ofNil : (Term.abs x (.abs y (.var y))).namelessByName = Nameless.nil :=
      congrArg Nameless.lam (congrArg Nameless.lam (readByName_var_head [x] y))
    rw [alphaEqual_iff, ofNil]
    exact nil_or_one_decoder t

/-- A list of one tuple, all of whose binders have one name. -/
theorem decoding_of_list_with_tuple :
    let pair (p : Nat) : Term :=
      .abs ⟨"x", p⟩ (.app (.app (.var ⟨"x", p⟩) (.var ⟨"x", 0⟩)) (.var ⟨"y", 1⟩))
    let empty : Term := .abs ⟨"x", 5⟩ (.abs ⟨"x", 6⟩ (.var ⟨"x", 6⟩))
    let t : Term :=
      .abs ⟨"x", 2⟩ (.abs ⟨"x", 3⟩ (.app (.app (.var ⟨"x", 2⟩) (pair 4)) empty))
    t.Unshadowed ∧ ∃ decoded, asList? t = some decoded ∧
      List.Forall₂ (fun found element => found.alphaEqual element = true) decoded [pair 7] := by
  intro pair empty t
  have unshadowed : t.Unshadowed := by decide
  refine ⟨unshadowed, ?_⟩
  have below : ∀ e ∈ [pair 7], e.Below 8 := by decide
  exact ((decoders_recognize_encodings unshadowed).2.1.decoded_iff [pair 7] 8 trivial below).mp
    (by decide)

end Encoding

end UntypedLambda
