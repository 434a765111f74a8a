import UntypedLambda.Proofs.Encoding.Reading
import UntypedLambda.Proofs.Resolution.Identities
import UntypedLambda.Proofs.Resolution.Undefined
import UntypedLambda.Proofs.Term.Clean

set_option autoImplicit false

/-! Expressions as nameless terms. Names are resolved by position alone, without identities, copies
or a supply, and resolution with all of these comes to the same. -/

namespace UntypedLambda

open Surface Term

namespace Surface.Expr

mutual

/-- The nameless term for an expression below binders with the names `scope`, innermost first, where
`definition` gives the readings of the definitions. These have no index that is bound outside them,
so they are the same below any binders. -/
def translate (definition : String → Option (Nameless String)) (scope : List String) :
    Expr → Nameless String
  | .var _ name =>
      match scope.findIdx? (fun binder => binder == name.value) with
      | some index => .bound index
      | none => (definition name.value).getD (.free name.value)
  | .nat _ value => .numeral value
  | .lam _ binders body =>
      .abstractions binders.length
        (body.translate definition ((binders.map Located.value).reverse ++ scope))
  | .app _ function argument =>
      .app (function.translate definition scope) (argument.translate definition scope)
  | .tuple _ elements => .tuple (translateAll definition scope elements)
  | .list _ elements => .list (translateAll definition scope elements)
  | .cons _ head tail => .cons (head.translate definition scope) (tail.translate definition scope)

def translateAll (definition : String → Option (Nameless String)) (scope : List String) :
    List Expr → List (Nameless String)
  | [] => []
  | element :: elements =>
      element.translate definition scope :: translateAll definition scope elements

end

def isUnbound (scope : List String) (name : Name) : Bool :=
  !scope.contains name.value

theorem isUnbound_eq_isNone (scope : List String) (name : Name) :
    isUnbound scope name = (scope.findIdx? fun binder => binder == name.value).isNone := by
  cases found : scope.findIdx? (fun binder => binder == name.value) with
  | some index =>
      obtain ⟨within, same, _⟩ := List.findIdx?_eq_some_iff_getElem.mp found
      rw [isUnbound, ← eq_of_beq same, List.contains_iff_mem.mpr (List.getElem_mem within)]
      rfl
  | none =>
      have absent := List.findIdx?_eq_none_iff.mp found
      rw [isUnbound, Option.isNone_none, Bool.not_eq_true', ← Bool.not_eq_true,
        List.contains_iff_mem]
      exact fun member => by simpa using absent name.value member

theorem isUnbound_append (binders : List Name) (scope : List String) (name : Name) :
    isUnbound ((binders.map Located.value).reverse ++ scope) name =
      (isUnbound scope name && unboundBy binders name) := by
  have outside : unboundBy binders name = !(binders.map Located.value).contains name.value := by
    rw [unboundBy, List.contains_eq_any_beq, List.any_map, List.not_any_eq_all_not]
    congr 1
    funext binder
    exact congrArg Bool.not (Bool.beq_comm ..)
  rw [isUnbound, isUnbound, outside, List.contains_append, List.contains_reverse, Bool.not_or,
    Bool.and_comm]

section Labels

variable {definition : String → Option (Nameless String)}

theorem labels_translate_var (span : Span) (name : Name) (scope : List String) :
    ((Expr.var span name).translate definition scope).labels =
      ([name].filter (isUnbound scope)).flatMap fun name =>
        ((definition name.value).getD (.free name.value)).labels := by
  rw [translate, List.filter_cons, isUnbound_eq_isNone]
  cases scope.findIdx? (fun binder => binder == name.value) with
  | some index => rfl
  | none => simp

mutual

/-- The free names of a translation are those that its free occurrences stand for. -/
theorem labels_translate (e : Expr) (scope : List String) :
    (e.translate definition scope).labels =
      (e.occurrences.filter (isUnbound scope)).flatMap fun name =>
        ((definition name.value).getD (.free name.value)).labels := by
  match e with
  | .var span name => exact labels_translate_var span name scope
  | .nat _ value => exact Nameless.labels_numeral value
  | .lam _ binders body =>
      have hidden : isUnbound ((binders.map Located.value).reverse ++ scope) =
          fun name => isUnbound scope name && unboundBy binders name :=
        funext (isUnbound_append binders scope)
      rw [translate, Nameless.labels_abstractions, labels_translate body, occurrences,
        List.filter_filter, hidden]
  | .app _ function argument =>
      rw [translate, Nameless.labels, labels_translate function, labels_translate argument,
        occurrences, List.filter_append, List.flatMap_append]
  | .tuple _ elements =>
      rw [translate, Nameless.labels_tuple, labels_translateAll elements, occurrences]
  | .list _ elements =>
      rw [translate, Nameless.labels_list, labels_translateAll elements, occurrences]
  | .cons _ head tail =>
      rw [translate, Nameless.labels_cons, labels_translate head, labels_translate tail,
        occurrences, List.filter_append, List.flatMap_append]

theorem labels_translateAll (elements : List Expr) (scope : List String) :
    (translateAll definition scope elements).flatMap Nameless.labels =
      ((allOccurrences elements).filter (isUnbound scope)).flatMap fun name =>
        ((definition name.value).getD (.free name.value)).labels := by
  match elements with
  | [] => rfl
  | element :: rest =>
      rw [translateAll, List.flatMap_cons, labels_translate element, labels_translateAll rest,
        allOccurrences, List.filter_append, List.flatMap_append]

end

end Labels

end Surface.Expr

namespace Context

def reading? (context : Context) (name : String) : Option (Nameless String) :=
  (context.find? name).map Term.namelessByName

def freeNames (context : Context) (name : Name) : List String :=
  ((context.reading? name.value).getD (.free name.value)).labels

end Context

namespace Resolution

/-! ### Occurrences -/

theorem findIdx?_name (scope : List Var) (name : String) :
    (scope.map Var.name).findIdx? (fun binder => binder == name) =
      scope.findIdx? fun v => v.name == name := by
  rw [List.findIdx?_map]
  rfl

/-- The binder found by its name stands at the index that its identity is read as. -/
theorem readByName_var_of_find? {scope : List Var} (distinct : (scope.map Var.id).Nodup)
    {name : String} {v : Var} (found : scope.find? (fun w => w.name == name) = some v) :
    ∃ index, scope.findIdx? (fun w => w.name == name) = some index ∧
      (Term.var v).readByName scope = .bound index := by
  have place := findIdx?_id distinct found
  cases position : scope.findIdx? (fun w => w.name == name) with
  | none =>
      have named := List.find?_some found
      rw [List.findIdx?_eq_none_iff] at position
      rw [position v (List.mem_of_find?_eq_some found)] at named
      cases named
  | some index =>
      rw [position] at place
      refine ⟨index, rfl, ?_⟩
      simp only [readByName, readUnder, readOccurrence, List.findIdx?_map, Function.comp_def, place]
      rfl

theorem readByName_var_of_unbound {scope : List Var} {v : Var} (unbound : ∀ w ∈ scope, w.id ≠ v.id) :
    (Term.var v).readByName scope = .free v.name := by
  rcases readOccurrence_cases (scope.map Var.id) v with ⟨member, _⟩ | ⟨_, reads⟩
  · obtain ⟨w, inScope, same⟩ := List.mem_map.mp member
    exact absurd same (unbound w inScope)
  · rw [readByName, readUnder, reads]
    rfl

theorem findIdx?_eq_none_of_find? {scope : List Var} {name : String}
    (absent : scope.find? (fun v => v.name == name) = none) :
    (scope.map Var.name).findIdx? (fun binder => binder == name) = none := by
  rw [findIdx?_name, List.findIdx?_eq_none_iff]
  simpa using absent

section Readings

variable {context : Context} {strict : Bool} {base : Nat}

theorem resolveName_reads (definitions : context.Below base) {name : Name} {scope : List Var}
    {supply : Nat} {t : Term} {left : Nat} (issued : Issued scope base supply)
    (le : base ≤ supply)
    (resolved : resolveName context strict scope name supply = .ok (t, left)) (span : Span) :
    t.readByName scope =
      (Expr.var span name).translate context.reading? (scope.map Var.name) := by
  unfold resolveName at resolved
  cases found : scope.find? (fun v => v.name == name.value) with
  | some v =>
      rw [found] at resolved
      cases resolved
      obtain ⟨index, position, reads⟩ := readByName_var_of_find? issued.distinct found
      rw [reads, Expr.translate, findIdx?_name, position]
  | none =>
      rw [found] at resolved
      rw [Expr.translate, findIdx?_eq_none_of_find? found, Context.reading?]
      cases definition : context.find? name.value with
      | some meaning =>
          simp only [Context.lookup?, definition, Option.map_some] at resolved
          have copy : meaning.freshCopy supply = (t, left) := Except.ok.inj resolved
          have below := definitions.find? definition
          have copied := readUnder_freshCopy (below.mono le) (scope.map Var.id)
          rw [copy] at copied
          have closed := readByName_of_below below issued.above
          rw [readByName] at closed ⊢
          rw [copied, closed]
          rfl
      | none =>
          simp only [Context.lookup?, definition, Option.map_none] at resolved
          split at resolved
          · cases resolved
          · cases resolved
            exact readByName_var_of_unbound fun w inScope =>
              Nat.ne_of_lt (issued.below w inScope)

mutual

theorem resolve_reads (definitions : context.Below base) (e : Expr) {scope : List Var}
    {supply : Nat} {t : Term} {left : Nat} (issued : Issued scope base supply)
    (le : base ≤ supply) (resolved : resolve context strict scope e supply = .ok (t, left)) :
    t.readByName scope = e.translate context.reading? (scope.map Var.name) := by
  match e with
  | .var span name => exact resolveName_reads definitions issued le resolved span
  | .nat _ value =>
      cases resolved
      exact Encoding.numeral_readByName value supply scope
  | .lam _ binders body =>
      obtain ⟨inner, inBody, returned⟩ := Except.exists_of_bind resolved
      cases returned
      rw [length_freshBinders] at inBody
      have reads := resolve_reads definitions body (issued.enter le binders)
        (Nat.le_trans le (Nat.le_add_right _ _)) inBody
      rw [readByName_abstractions, reads, length_freshBinders, Expr.translate, List.map_append,
        List.map_reverse, map_name_freshBinders]
  | .app _ function argument =>
      obtain ⟨first, inFunction, rest⟩ := Except.exists_of_bind resolved
      obtain ⟨second, inArgument, returned⟩ := Except.exists_of_bind rest
      cases returned
      have grown := (resolve_minted definitions function issued le inFunction).1
      rw [readByName_app, resolve_reads definitions function issued le inFunction,
        resolve_reads definitions argument (issued.mono grown) (Nat.le_trans le grown) inArgument,
        Expr.translate]
  | .tuple _ elements =>
      obtain ⟨parts, inParts, returned⟩ := Except.exists_of_bind resolved
      have series := resolveAll_minted definitions elements issued le inParts
      have reads := Encoding.tuple_readByName (series.terms_below (issued.known_lt le)) scope
      rw [resolveAll_reads definitions elements issued le inParts, Except.ok.inj returned] at reads
      exact reads
  | .list _ elements =>
      obtain ⟨parts, inParts, returned⟩ := Except.exists_of_bind resolved
      have series := resolveAll_minted definitions elements issued le inParts
      have reads := Encoding.list_readByName (series.terms_below (issued.known_lt le)) scope
      rw [resolveAll_reads definitions elements issued le inParts, Except.ok.inj returned] at reads
      exact reads
  | .cons _ head tail =>
      obtain ⟨first, inHead, rest⟩ := Except.exists_of_bind resolved
      obtain ⟨second, inTail, returned⟩ := Except.exists_of_bind rest
      obtain ⟨grown, headMinted⟩ := resolve_minted definitions head issued le inHead
      have issued' := issued.mono grown
      have le' := Nat.le_trans le grown
      obtain ⟨grown', tailMinted⟩ := resolve_minted definitions tail issued' le' inTail
      have headBelow := (headMinted.below (issued'.known_lt le')).mono grown'
      have tailBelow := tailMinted.below ((issued'.mono grown').known_lt (Nat.le_trans le' grown'))
      have reads := Encoding.cons_readByName headBelow tailBelow scope
      rw [resolve_reads definitions head issued le inHead,
        resolve_reads definitions tail issued' le' inTail, Except.ok.inj returned] at reads
      exact reads

theorem resolveAll_reads (definitions : context.Below base) (elements : List Expr)
    {scope : List Var} {supply : Nat} {ts : List Term} {left : Nat}
    (issued : Issued scope base supply) (le : base ≤ supply)
    (resolved : resolveAll context strict scope elements supply = .ok (ts, left)) :
    ts.map (readByName scope) =
      Expr.translateAll context.reading? (scope.map Var.name) elements := by
  match elements with
  | [] =>
      cases resolved
      rfl
  | element :: rest =>
      obtain ⟨first, inElement, others⟩ := Except.exists_of_bind resolved
      obtain ⟨parts, inRest, returned⟩ := Except.exists_of_bind others
      cases returned
      have grown := (resolve_minted definitions element issued le inElement).1
      rw [List.map_cons, resolve_reads definitions element issued le inElement,
        resolveAll_reads definitions rest (issued.mono grown) (Nat.le_trans le grown) inRest,
        Expr.translateAll]

end

end Readings

/-- An expression without names that the settings refuse is resolved to a term that reads as its
translation, and whose binders are its own. -/
theorem exists_resolveTerm {context : Context} {supply : Nat} (definitions : context.Below supply)
    (settings : Settings) (e : Expr)
    (defined : settings.strict = true → ∀ name ∈ e.occurrences, isUndefined context [] name = false) :
    ∃ t left, resolveTerm context settings e supply = .ok (t, left) ∧ supply ≤ left ∧
      t.Clean left ∧ t.namelessByName = e.translate context.reading? [] := by
  obtain ⟨⟨t, left⟩, resolved⟩ := (exists_resolve_iff e [] supply).mpr defined
  obtain ⟨grown, minted⟩ := resolveTerm_minted definitions resolved
  exact ⟨t, left, resolved, grown, minted.clean grown,
    resolve_reads definitions e (issued_nil supply supply) (Nat.le_refl supply) resolved⟩

end Resolution

/-- Resolution is hygienic. With lenient settings it never fails, and its result reads as the
translation of the expression: each name means its innermost binder in the source, else the reading
of its definition, else itself, and encodings stand around the translated parts. What is free in the
result is what the free occurrences of the source stand for, in their order, so that nothing free in
a definition or in an element is captured. -/
theorem resolution_is_hygienic (context : Context) (supply : Nat)
    (definitions : context.Below supply) (settings : Settings) (lenient : settings.strict = false)
    (e : Expr) :
    ∃ t left, resolveTerm context settings e supply = .ok (t, left) ∧
      t.namelessByName = e.translate context.reading? [] ∧
      t.namelessByName.labels = e.occurrences.flatMap context.freeNames := by
  have accepted : ∃ result, resolveTerm context settings e supply = .ok result := by
    refine (Resolution.exists_resolve_iff e [] supply).mpr fun strict => ?_
    rw [lenient] at strict
    cases strict
  obtain ⟨⟨t, left⟩, resolved⟩ := accepted
  have reads : t.namelessByName = e.translate context.reading? [] :=
    Resolution.resolve_reads definitions e (Resolution.issued_nil supply supply)
      (Nat.le_refl supply) resolved
  have everywhere : e.occurrences.filter (Expr.isUnbound []) = e.occurrences :=
    List.filter_eq_self.mpr fun name _ => rfl
  refine ⟨t, left, resolved, reads, ?_⟩
  rw [reads, Expr.labels_translate, everywhere]
  rfl

/-- The binders of the source are called `x` and `p`, that of the encoding of the tuple is called
`p`, and the definition of `g` has `x` and `p` free. -/
theorem resolution_of_crossed_names :
    let context : Context := ⟨[("g", .app (.var ⟨"x", 0⟩) (.var ⟨"p", 1⟩))]⟩
    let name (text : String) : Name := ⟨text, default⟩
    let occurrence (text : String) : Expr := .var default (name text)
    let e : Expr := .lam default [name "x", name "p"]
      (.tuple default [occurrence "x", occurrence "p", occurrence "g"])
    ∃ t left, resolveTerm context {} e 2 = .ok (t, left) ∧
      t.namelessByName = .lam (.lam (.lam
        (.app (.app (.app (.bound 0) (.bound 2)) (.bound 1)) (.app (.free "x") (.free "p"))))) ∧
      t.namelessByName.labels = ["x", "p"] := by
  intro context name occurrence e
  obtain ⟨t, left, resolved, reads, labels⟩ :=
    resolution_is_hygienic context 2 (by decide) {} rfl e
  refine ⟨t, left, resolved, ?_, ?_⟩
  · rw [reads]
    decide
  · rw [labels]
    decide

end UntypedLambda
