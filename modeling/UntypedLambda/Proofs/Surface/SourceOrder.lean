import UntypedLambda.Proofs.Surface.Joining
import UntypedLambda.Proofs.Surface.Nodes
import UntypedLambda.Proofs.Surface.Occurrences

set_option autoImplicit false

/-! The occurrences of names in an expression, each with the binders around it. Those that are free
are listed from left to right, which is the order in which they stand in the source. -/

namespace UntypedLambda.Surface

namespace Expr

/-- A name stands in an expression below the given binders. The identifiers of a node that is around
another one are its binders. -/
inductive HasOccurrence : Expr → List Name → Name → Prop where
  | here (span : Span) (name : Name) : HasOccurrence (.var span name) [] name
  | inside {e child : Expr} {binders : List Name} {name : Name} : child ∈ e.children →
      HasOccurrence child binders name → HasOccurrence e (e.names ++ binders) name

theorem unboundBy_append (binders inner : List Name) (occurrence : Name) :
    unboundBy (binders ++ inner) occurrence =
      (unboundBy binders occurrence && unboundBy inner occurrence) :=
  List.all_append

theorem mem_allOccurrences_of_mem {elements : List Expr} {e : Expr} (inElements : e ∈ elements)
    {name : Name} (member : name ∈ e.occurrences) : name ∈ allOccurrences elements := by
  induction elements with
  | nil => cases inElements
  | cons element elements ih =>
      rcases List.mem_cons.mp inElements with rfl | later
      · exact List.mem_append_left _ member
      · exact List.mem_append_right _ (ih later)

/-- A free occurrence in a child is free in the node, unless the node binds it. -/
theorem mem_occurrences_of_child {e child : Expr} (inChildren : child ∈ e.children) {name : Name}
    (unbound : unboundBy e.names name = true) (member : name ∈ child.occurrences) :
    name ∈ e.occurrences := by
  cases e with
  | var span _ => cases inChildren
  | nat span value => cases inChildren
  | lam span binders body =>
      rw [List.mem_singleton.mp inChildren] at member
      exact List.mem_filter.mpr ⟨member, unbound⟩
  | app span function argument =>
      rcases List.mem_pair.mp inChildren with rfl | rfl
      · exact List.mem_append_left _ member
      · exact List.mem_append_right _ member
  | tuple span elements => exact mem_allOccurrences_of_mem inChildren member
  | list span elements => exact mem_allOccurrences_of_mem inChildren member
  | cons span head tail =>
      rcases List.mem_pair.mp inChildren with rfl | rfl
      · exact List.mem_append_left _ member
      · exact List.mem_append_right _ member

theorem HasOccurrence.mem_occurrences {e : Expr} {binders : List Name} {name : Name}
    (occurrence : e.HasOccurrence binders name) (unbound : unboundBy binders name = true) :
    name ∈ e.occurrences := by
  induction occurrence with
  | here span name => exact List.mem_cons_self
  | inside inChildren _ ih =>
      rw [unboundBy_append, Bool.and_eq_true] at unbound
      exact mem_occurrences_of_child inChildren unbound.1 (ih unbound.2)

def FreelyHas (e : Expr) (name : Name) : Prop :=
  ∃ binders, e.HasOccurrence binders name ∧ unboundBy binders name = true

theorem FreelyHas.of_child {e child : Expr} {name : Name} (free : child.FreelyHas name)
    (inChildren : child ∈ e.children) (unbound : unboundBy e.names name = true) :
    e.FreelyHas name := by
  obtain ⟨binders, occurrence, unboundInside⟩ := free
  refine ⟨e.names ++ binders, .inside inChildren occurrence, ?_⟩
  rw [unboundBy_append, unbound, unboundInside]
  rfl

mutual

theorem freelyHas_of_mem (e : Expr) {name : Name} (member : name ∈ e.occurrences) :
    e.FreelyHas name := by
  match e with
  | .var span _ =>
      rw [List.mem_singleton.mp member]
      exact ⟨[], .here span _, rfl⟩
  | .nat _ value => cases member
  | .lam _ binders body =>
      obtain ⟨inBody, unbound⟩ := List.mem_filter.mp member
      exact (freelyHas_of_mem body inBody).of_child List.mem_cons_self unbound
  | .app _ function argument =>
      rcases List.mem_append.mp member with inFunction | inArgument
      · exact (freelyHas_of_mem function inFunction).of_child List.mem_cons_self rfl
      · exact (freelyHas_of_mem argument inArgument).of_child
          (List.mem_cons_of_mem _ List.mem_cons_self) rfl
  | .tuple _ elements =>
      obtain ⟨element, inElements, free⟩ := exists_freelyHas_of_mem elements member
      exact free.of_child inElements rfl
  | .list _ elements =>
      obtain ⟨element, inElements, free⟩ := exists_freelyHas_of_mem elements member
      exact free.of_child inElements rfl
  | .cons _ head tail =>
      rcases List.mem_append.mp member with inHead | inTail
      · exact (freelyHas_of_mem head inHead).of_child List.mem_cons_self rfl
      · exact (freelyHas_of_mem tail inTail).of_child
          (List.mem_cons_of_mem _ List.mem_cons_self) rfl

theorem exists_freelyHas_of_mem (elements : List Expr) {name : Name}
    (member : name ∈ allOccurrences elements) : ∃ e ∈ elements, e.FreelyHas name := by
  match elements with
  | [] => cases member
  | element :: rest =>
      rcases List.mem_append.mp member with inFirst | inRest
      · exact ⟨element, List.mem_cons_self, freelyHas_of_mem element inFirst⟩
      · obtain ⟨e, inElements, free⟩ := exists_freelyHas_of_mem rest inRest
        exact ⟨e, List.mem_cons_of_mem _ inElements, free⟩

end

theorem mem_occurrences_iff (e : Expr) (name : Name) :
    name ∈ e.occurrences ↔ e.FreelyHas name :=
  ⟨freelyHas_of_mem e, fun ⟨_, occurrence, unbound⟩ => occurrence.mem_occurrences unbound⟩

theorem occurrences_withSpan (span : Span) (e : Expr) :
    (e.withSpan span).occurrences = e.occurrences := by
  cases e <;> rfl

end Expr

/-! ### The tokens of occurrences -/

mutual

theorem Closed.sublist_occurrences {tokens : List (Located Token)} {e : Expr}
    (closed : Closed tokens e) : (e.occurrences.map Name.token).Sublist tokens := by
  match closed with
  | .ident name => exact List.Sublist.refl _
  | .nat value span => exact List.nil_sublist _
  | .group first last phrase =>
      rw [Expr.occurrences_withSpan]
      exact (phrase.sublist_occurrences.trans (List.sublist_append_left _ _)).cons _
  | .tuple first last elements =>
      exact (elements.sublist_occurrences.trans (List.sublist_append_left _ _)).cons _
  | .empty first last => exact List.nil_sublist _
  | .list first last elements =>
      exact (elements.sublist_occurrences.trans (List.sublist_append_left _ _)).cons _

theorem Application.sublist_occurrences {tokens : List (Located Token)} {e : Expr}
    (application : Application tokens e) : (e.occurrences.map Name.token).Sublist tokens := by
  match application with
  | .head closed => exact closed.sublist_occurrences
  | .apply function argument =>
      rw [Expr.occurrences, List.map_append]
      exact function.sublist_occurrences.append argument.sublist_occurrences

theorem Abstraction.sublist_occurrences {tokens : List (Located Token)} {e : Expr}
    (abstraction : Abstraction tokens e) : (e.occurrences.map Name.token).Sublist tokens := by
  match abstraction with
  | .over first dot binder binders body =>
      rw [Expr.occurrences]
      refine (List.filter_sublist.map Name.token).trans (body.sublist_occurrences.trans ?_)
      exact ((List.sublist_cons_self _ _).trans (List.sublist_append_right _ _)).cons _

/-- The free occurrences of an expression are among its tokens, in the same order. -/
theorem Phrase.sublist_occurrences {tokens : List (Located Token)} {e : Expr}
    (phrase : Phrase tokens e) : (e.occurrences.map Name.token).Sublist tokens := by
  match phrase with
  | .application application => exact application.sublist_occurrences
  | .abstraction abstraction => exact abstraction.sublist_occurrences
  | .apply function argument =>
      rw [Expr.occurrences, List.map_append]
      exact function.sublist_occurrences.append argument.sublist_occurrences
  | .cons span head tail =>
      rw [Expr.occurrences, List.map_append]
      exact head.sublist_occurrences.append (tail.sublist_occurrences.cons _)

theorem Elements.sublist_occurrences {tokens : List (Located Token)} {elements : List Expr}
    (derived : Elements tokens elements) :
    ((Expr.allOccurrences elements).map Name.token).Sublist tokens := by
  match derived with
  | .last phrase =>
      rw [Expr.allOccurrences, Expr.allOccurrences, List.append_nil]
      exact phrase.sublist_occurrences
  | .next span phrase rest =>
      rw [Expr.allOccurrences, List.map_append]
      exact phrase.sublist_occurrences.append (rest.sublist_occurrences.cons _)

end

/-! ### Expressions of a source -/

def Statement.body : Statement → Expr
  | .term body => body
  | .define _ body => body

inductive Expr.ReadFrom (source : String) : Expr → Prop where
  | term {e : Expr} : parseTerm source = .ok e → ReadFrom source e
  | statement {statements : List Statement} {statement : Statement} :
      parseProgram source = .ok statements → statement ∈ statements →
      ReadFrom source statement.body

theorem Grammar.Sentence.exists_phrase {tokens after : List (Located Token)} {statement : Statement}
    (sentence : Sentence phrases tokens after statement) :
    ∃ inner, inner <:+: tokens ∧ Phrase inner statement.body := by
  cases sentence with
  | term phrase => exact ⟨_, List.infix_refl _, phrase⟩
  | define name sign phrase =>
      exact ⟨_, ((List.suffix_cons _ _).trans (List.suffix_cons _ _)).isInfix, phrase⟩

theorem Grammar.Sentences.exists_phrase {tokens after : List (Located Token)}
    {statements : List Statement} (sentences : Sentences phrases tokens after statements)
    {statement : Statement} (member : statement ∈ statements) :
    ∃ inner, inner <:+: tokens ∧ Phrase inner statement.body := by
  induction sentences with
  | one sentence =>
      rw [List.mem_singleton.mp member]
      exact sentence.exists_phrase
  | more span sentence _ ih =>
      rcases List.mem_cons.mp member with rfl | later
      · obtain ⟨inner, part, phrase⟩ := sentence.exists_phrase
        exact ⟨inner, part.trans (List.prefix_append _ _).isInfix, phrase⟩
      · obtain ⟨inner, part, phrase⟩ := ih later
        refine ⟨inner, part.trans ?_, phrase⟩
        exact ((List.suffix_cons _ _).trans (List.suffix_append _ _)).isInfix

namespace Expr.ReadFrom

variable {source : String} {e : Expr}

/-- An expression of a source is read from some of its tokens that are next to each other. -/
theorem exists_phrase (read : e.ReadFrom source) :
    ∃ tokens inner, tokenize source = .ok tokens ∧ inner <:+: tokens ∧ Phrase inner e := by
  cases read with
  | term parsed =>
      obtain ⟨tokens, tokenized, read⟩ := Except.exists_of_bind parsed
      exact ⟨tokens, tokens, tokenized, List.infix_refl tokens, (readExpr_eq_ok_iff _ _ _).mp read⟩
  | statement parsed member =>
      obtain ⟨tokens, tokenized, read⟩ := Except.exists_of_bind parsed
      cases (readProgram_eq_ok_iff _ _ _).mp read with
      | empty => cases member
      | sentences sentences =>
          obtain ⟨inner, part, phrase⟩ := sentences.exists_phrase member
          exact ⟨_, inner, tokenized, part, phrase⟩
      | trailing span sentences =>
          obtain ⟨inner, part, phrase⟩ := sentences.exists_phrase member
          exact ⟨_, inner, tokenized, part.trans (List.prefix_append _ _).isInfix, phrase⟩

/-- The free occurrences stand in the source in the order in which they are listed. -/
theorem pairwise_occurrences (read : e.ReadFrom source) :
    e.occurrences.Pairwise fun first second => first.span.start < second.span.start := by
  obtain ⟨tokens, inner, tokenized, part, phrase⟩ := read.exists_phrase
  have ordered := ((tokenize_eq_ok_iff source tokens).mp tokenized).inOrder
  have sublist := (phrase.sublist_occurrences.trans part.sublist).map Located.span
  rw [List.map_map] at sublist
  have starts : (tokens.map Located.span).Pairwise fun first second =>
      first.start < second.start := by
    refine ordered.pairwise.imp_of_mem fun {first second} inFirst _ before => ?_
    have some := (ordered.inside inFirst).2.1
    omega
  have inOrder := starts.sublist sublist
  rw [List.pairwise_map] at inOrder
  exact inOrder

/-- The text at the place of a free occurrence is the name. -/
theorem textIn_occurrence (read : e.ReadFrom source) {name : Name} (member : name ∈ e.occurrences) :
    name.span.textIn source = name.value := by
  obtain ⟨tokens, inner, tokenized, part, phrase⟩ := read.exists_phrase
  have inTokens : name.token ∈ tokens :=
    part.subset (phrase.sublist_occurrences.subset (List.mem_map_of_mem member))
  rcases (lexeme_of_tokenize tokenized inTokens).spelled with text | ⟨lambda, _⟩
  · change name.span.slice source.toList = name.value.toList at text
    rw [Span.textIn, text, String.ofList_toList]
  · cases lambda

end Expr.ReadFrom

end UntypedLambda.Surface
