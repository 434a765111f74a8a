import UntypedLambda.Proofs.Encoding.FixedPoint
import UntypedLambda.Proofs.Resolution.Translation
import UntypedLambda.Proofs.Term.Lifting

set_option autoImplicit false

/-! Definitions as equations. The combinator leaves room for the definition where the body has its
name, and the name stands for the whole afterwards: to translate the body with the definition known
is to substitute the definition in the translation of the body without it. -/

namespace UntypedLambda

open Surface Term Relation

namespace Surface.Expr

variable {definition definition' : String → Option (Nameless String)}

mutual

/-- A translation depends on the definitions of the free occurrences alone. -/
theorem translate_congr (e : Expr) {scope : List String}
    (same : ∀ name ∈ e.occurrences, isUnbound scope name = true →
      definition name.value = definition' name.value) :
    e.translate definition scope = e.translate definition' scope := by
  match e with
  | .var _ name =>
      rw [translate, translate]
      cases found : scope.findIdx? (fun binder => binder == name.value) with
      | some index => rfl
      | none =>
          have unbound : isUnbound scope name = true := by
            rw [isUnbound_eq_isNone, found]
            rfl
          rw [same name (List.mem_singleton_self name) unbound]
  | .nat _ _ => rfl
  | .lam _ binders body =>
      rw [translate, translate]
      congr 1
      apply translate_congr body
      intro name member unbound
      rw [isUnbound_append, Bool.and_eq_true] at unbound
      exact same name (List.mem_filter.mpr ⟨member, unbound.2⟩) unbound.1
  | .app _ function argument =>
      rw [translate, translate,
        translate_congr function fun name member => same name (List.mem_append_left _ member),
        translate_congr argument fun name member => same name (List.mem_append_right _ member)]
  | .tuple _ elements => rw [translate, translate, translateAll_congr elements same]
  | .list _ elements => rw [translate, translate, translateAll_congr elements same]
  | .cons _ head tail =>
      rw [translate, translate,
        translate_congr head fun name member => same name (List.mem_append_left _ member),
        translate_congr tail fun name member => same name (List.mem_append_right _ member)]

theorem translateAll_congr (elements : List Expr) {scope : List String}
    (same : ∀ name ∈ allOccurrences elements, isUnbound scope name = true →
      definition name.value = definition' name.value) :
    translateAll definition scope elements = translateAll definition' scope elements := by
  match elements with
  | [] => rfl
  | element :: rest =>
      rw [translateAll, translateAll,
        translate_congr element fun name member => same name (List.mem_append_left _ member),
        translateAll_congr rest fun name member => same name (List.mem_append_right _ member)]

end

/-- An outermost binder is looked up last. -/
theorem findIdx?_append_singleton (scope : List String) (outermost name : String) :
    (scope ++ [outermost]).findIdx? (fun binder => binder == name) =
      match scope.findIdx? (fun binder => binder == name) with
      | some index => some index
      | none => if outermost = name then some scope.length else none := by
  rw [List.findIdx?_append]
  cases scope.findIdx? (fun binder => binder == name) with
  | some index => rfl
  | none =>
      by_cases same : outermost = name
      · simp [same]
      · simp [same]

section Instance

variable {whole : Nameless String} {self : String}

theorem instantiate_translate_var (wholeClosed : ∀ amount, whole.shift 0 amount = whole)
    (closed : ∀ name meaning, definition name = some meaning →
      ∀ depth, meaning.instantiate depth whole = meaning)
    (span : Span) (name : Name) (scope : List String) :
    ((Expr.var span name).translate definition (scope ++ [self])).instantiate scope.length whole =
      (Expr.var span name).translate (Function.update definition self (some whole)) scope := by
  rw [translate, translate, findIdx?_append_singleton]
  cases found : scope.findIdx? (fun binder => binder == name.value) with
  | some index =>
      obtain ⟨within, _⟩ := List.findIdx?_eq_some_iff_getElem.mp found
      exact Nameless.instantiate_bound_of_lt within whole
  | none =>
      by_cases same : self = name.value
      · rw [if_pos same, ← same, Function.update_self]
        simp [Nameless.instantiate, wholeClosed]
      · rw [if_neg same, Function.update_of_ne (Ne.symm same)]
        cases meaning : definition name.value with
        | none => rfl
        | some t => exact closed name.value t meaning scope.length

mutual

/-- Substitution for the outermost binder is a definition of its name. -/
theorem instantiate_translate (wholeClosed : ∀ amount, whole.shift 0 amount = whole)
    (closed : ∀ name meaning, definition name = some meaning →
      ∀ depth, meaning.instantiate depth whole = meaning)
    (e : Expr) (scope : List String) :
    (e.translate definition (scope ++ [self])).instantiate scope.length whole =
      e.translate (Function.update definition self (some whole)) scope := by
  match e with
  | .var span name => exact instantiate_translate_var wholeClosed closed span name scope
  | .nat _ value => exact Nameless.instantiate_numeral value scope.length whole
  | .lam _ binders body =>
      -- The binders come in front of the scope, so the outermost one is as much further away.
      have inBody := instantiate_translate wholeClosed closed body
        ((binders.map Located.value).reverse ++ scope)
      rw [List.append_assoc, List.length_append, List.length_reverse, List.length_map,
        Nat.add_comm] at inBody
      rw [translate, Nameless.instantiate_abstractions, inBody, translate]
  | .app _ function argument =>
      rw [translate, Nameless.instantiate, instantiate_translate wholeClosed closed function,
        instantiate_translate wholeClosed closed argument, translate]
  | .tuple _ elements =>
      rw [translate, Nameless.instantiate_tuple,
        instantiate_translateAll wholeClosed closed elements, translate]
  | .list _ elements =>
      rw [translate, Nameless.instantiate_list,
        instantiate_translateAll wholeClosed closed elements, translate]
  | .cons _ head tail =>
      rw [translate, Nameless.instantiate_cons, instantiate_translate wholeClosed closed head,
        instantiate_translate wholeClosed closed tail, translate]

theorem instantiate_translateAll (wholeClosed : ∀ amount, whole.shift 0 amount = whole)
    (closed : ∀ name meaning, definition name = some meaning →
      ∀ depth, meaning.instantiate depth whole = meaning)
    (elements : List Expr) (scope : List String) :
    ((translateAll definition (scope ++ [self]) elements).map fun element =>
        element.instantiate scope.length whole) =
      translateAll (Function.update definition self (some whole)) scope elements := by
  match elements with
  | [] => rfl
  | element :: rest =>
      rw [translateAll, List.map_cons, instantiate_translate wholeClosed closed element,
        instantiate_translateAll wholeClosed closed rest, translateAll]

end

end Instance

end Surface.Expr

/-! ### The new definition -/

theorem Context.reading?_define (context : Context) (name : String) (t : Term) :
    (context.define name t).reading? =
      Function.update context.reading? name (some t.namelessByName) := by
  funext other
  rw [reading?, find?_define]
  by_cases same : other = name
  · rw [if_pos same, same, Function.update_self]
    rfl
  · rw [if_neg same, Function.update_of_ne same]
    rfl

theorem instantiate_namelessByName (t : Term) (depth : Nat) (replacement : Nameless String) :
    t.namelessByName.instantiate depth replacement = t.namelessByName := by
  have closed := Nameless.instantiate_shift depth replacement t.namelessByName
  rwa [shift_namelessByName] at closed

/-- With the definition known, the body reads as its reading without it, with the definition in the
place of the name. -/
theorem translate_define (context : Context) (name : String) (t : Term) (body : Expr) :
    body.translate (context.define name t).reading? [] =
      (body.translate context.reading? [name]).instantiate 0 t.namelessByName := by
  have closed : ∀ other meaning, context.reading? other = some meaning →
      ∀ depth, meaning.instantiate depth t.namelessByName = meaning := by
    intro other meaning found depth
    obtain ⟨definition, _, rfl⟩ := Option.map_eq_some_iff.mp found
    exact instantiate_namelessByName definition depth _
  rw [Context.reading?_define]
  exact (Expr.instantiate_translate (shift_namelessByName t 0) closed body []).symm

theorem isUndefined_define (context : Context) (name : String) (t : Term) (id : Nat)
    (occurrence : Name) :
    Resolution.isUndefined (context.define name t) [] occurrence =
      Resolution.isUndefined context [⟨name, id⟩] occurrence := by
  rw [Resolution.isUndefined, Resolution.isUndefined, Context.contains, Context.find?_define]
  by_cases same : occurrence.value = name
  · simp [same]
  · simp [same, Ne.symm same, Context.contains]

theorem isUndefined_define_of_defined {context : Context} {occurrence : Name}
    (defined : Resolution.isUndefined context [] occurrence = false) (name : String) (t : Term) :
    Resolution.isUndefined (context.define name t) [] occurrence = false := by
  have contained : context.contains occurrence.value = true := by
    simpa [Resolution.isUndefined] using defined
  rw [isUndefined_define context name t 0, Resolution.isUndefined, contained]
  simp

section Equation

variable {context : Context} {settings : Settings} {name : String} {body : Expr} {supply : Nat}
  {d : Term} {left : Nat}

theorem exists_resolve_of_defined
    (defined : resolveDefinition context settings name body supply = .ok (d, left))
    (later : Nat) :
    ∃ result, resolveTerm (context.define name d) settings body later = .ok result := by
  refine (Resolution.exists_resolve_iff body [] later).mpr fun strict occurrence member => ?_
  unfold resolveDefinition at defined
  split at defined
  · obtain ⟨inner, inBody, _⟩ := Except.exists_of_bind defined
    have accepted := (Resolution.exists_resolve_iff body _ _).mp ⟨inner, inBody⟩
    rw [isUndefined_define context name d supply]
    exact accepted strict occurrence member
  · have accepted := (Resolution.exists_resolve_iff body [] supply).mp ⟨_, defined⟩
    exact isUndefined_define_of_defined (accepted strict occurrence member) name d

/-- The reading of a definition, with the combinator where the body mentions the name. -/
theorem resolveDefinition_reads (definitions : context.Below supply)
    (defined : resolveDefinition context settings name body supply = .ok (d, left)) :
    d.namelessByName =
      if body.mentions name then
        .app (Nameless.knot settings.fixpoint) (.lam (body.translate context.reading? [name]))
      else
        body.translate context.reading? [] := by
  unfold resolveDefinition at defined
  split at defined
  · rename_i recursive
    obtain ⟨inner, inBody, returned⟩ := Except.exists_of_bind defined
    have issued : Resolution.Issued [⟨name, supply⟩] supply (supply + 1) := by
      constructor <;> simp
    have reads :=
      Resolution.resolve_reads definitions body issued (Nat.le_succ supply) inBody
    have fixed :=
      Encoding.fix_readByName settings.fixpoint ⟨name, supply⟩ inner.1 inner.2 []
    rw [Except.ok.inj returned, reads] at fixed
    rw [if_pos recursive]
    exact fixed
  · rename_i plain
    rw [if_neg plain]
    exact Resolution.resolve_reads definitions body (Resolution.issued_nil supply supply)
      (Nat.le_refl supply) defined

theorem definition_meets (definitions : context.Below supply)
    (defined : resolveDefinition context settings name body supply = .ok (d, left)) :
    Join (Nameless.Reduces Nameless.betaRoot?)
      (body.translate (context.define name d).reading? []) d.namelessByName := by
  have reads := resolveDefinition_reads definitions defined
  by_cases recursive : body.mentions name = true
  · rw [if_pos recursive] at reads
    rw [translate_define, reads]
    exact Nameless.knot_meets settings.fixpoint _
  · rw [if_neg recursive] at reads
    -- No occurrence has the name that is new, so the body reads as it did.
    have unchanged : body.translate (context.define name d).reading? [] =
        body.translate context.reading? [] := by
      apply Expr.translate_congr
      intro occurrence member _
      rw [Expr.mentions_eq, List.any_eq_true] at recursive
      have different : occurrence.value ≠ name :=
        fun same => recursive ⟨occurrence, member, beq_iff_eq.mpr same⟩
      rw [Context.reading?_define, Function.update_of_ne different]
    rw [unchanged, reads]
    exact ⟨_, .refl, .refl⟩

/-- A definition satisfies its equation. Once it is known, its body can be resolved and its name
looked up, and the two terms have a common reduct under beta contraction, up to bound variables.
Both work from any supply that the definition left. -/
theorem definition_satisfies_equation (definitions : context.Below supply)
    (defined : resolveDefinition context settings name body supply = .ok (d, left))
    {later still : Nat} (le : left ≤ later) (le' : left ≤ still) :
    ∃ t between copy after,
      resolveTerm (context.define name d) settings body later = .ok (t, between) ∧
      (context.define name d).lookup? name still = some (copy, after) ∧
      ∃ first second, ReflTransGen (ContractsTo .beta) t first ∧
        ReflTransGen (ContractsTo .beta) copy second ∧ first.alphaEqual second = true := by
  obtain ⟨grown, minted⟩ := resolveDefinition_minted definitions defined
  have below : d.Below left := minted.below fun id old => Nat.lt_of_lt_of_le old grown
  have known : (context.define name d).Below left := (definitions.mono grown).define below name
  obtain ⟨⟨t, between⟩, resolved⟩ := exists_resolve_of_defined defined later
  have reads : t.namelessByName = body.translate (context.define name d).reading? [] :=
    Resolution.resolve_reads (known.mono le) body (Resolution.issued_nil later later)
      (Nat.le_refl later) resolved
  have found : (context.define name d).lookup? name still = some (d.freshCopy still) := by
    rw [Context.lookup?, Context.find?_define, if_pos rfl]
    rfl
  have copied : (d.freshCopy still).1.namelessByName = d.namelessByName :=
    congrArg (Nameless.map Var.name) (readUnder_freshCopy (below.mono le') [])
  refine ⟨t, between, (d.freshCopy still).1, (d.freshCopy still).2, resolved, found, ?_⟩
  apply exists_common_reduct
  rw [reads, copied]
  exact definition_meets definitions defined

end Equation

/-- The body of `x` is `x (λx. x k)`, where `k` is defined and has `x` free. -/
theorem recursive_definition_satisfies_equation :
    let context : Context := ⟨[("k", .var ⟨"x", 0⟩)]⟩
    let settings : Settings := { fixpoint := .curry }
    let name (text : String) : Name := ⟨text, default⟩
    let occurrence (text : String) : Expr := .var default (name text)
    let body : Expr := .app default (occurrence "x")
      (.lam default [name "x"] (.app default (occurrence "x") (occurrence "k")))
    ∃ d left t between copy after,
      resolveDefinition context settings "x" body 1 = .ok (d, left) ∧
      resolveTerm (context.define "x" d) settings body left = .ok (t, between) ∧
      (context.define "x" d).lookup? "x" left = some (copy, after) ∧
      ∃ first second, ReflTransGen (ContractsTo .beta) t first ∧
        ReflTransGen (ContractsTo .beta) copy second ∧ first.alphaEqual second = true := by
  intro context settings name occurrence body
  obtain ⟨d, left, defined⟩ :
      ∃ d left, resolveDefinition context settings "x" body 1 = .ok (d, left) := ⟨_, _, rfl⟩
  obtain ⟨t, between, copy, after, meets⟩ :=
    definition_satisfies_equation (by decide) defined (Nat.le_refl left) (Nat.le_refl left)
  exact ⟨d, left, t, between, copy, after, defined, meets⟩

end UntypedLambda
