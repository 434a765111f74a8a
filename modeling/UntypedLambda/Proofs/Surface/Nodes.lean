import Mathlib.Data.List.Basic
import UntypedLambda.Proofs.Surface.Relocation
import UntypedLambda.Proofs.Surface.Tokenization

set_option autoImplicit false

/-! The nodes of an expression that is read. Each has the place that its tokens cover, with its
parts one after another inside it, and the text at that place is read as the same node. -/

namespace UntypedLambda.Surface

namespace Expr

def names : Expr → List Name
  | .var _ name => [name]
  | .lam _ binders _ => binders
  | _ => []

def children : Expr → List Expr
  | .var _ _ => []
  | .nat _ _ => []
  | .lam _ _ body => [body]
  | .app _ function argument => [function, argument]
  | .tuple _ elements => elements
  | .list _ elements => elements
  | .cons _ head tail => [head, tail]

/-- The places of the identifiers and of the nodes just below a node, in the order of the source. -/
def parts (e : Expr) : List Span :=
  e.names.map Located.span ++ e.children.map span

inductive HasNode : Expr → Expr → Prop where
  | root (e : Expr) : HasNode e e
  | inside {e child node : Expr} : child ∈ e.children → HasNode child node → HasNode e node

theorem names_withSpan (span : Span) (e : Expr) : (e.withSpan span).names = e.names := by
  cases e <;> rfl

theorem children_withSpan (span : Span) (e : Expr) :
    (e.withSpan span).children = e.children := by
  cases e <;> rfl

theorem span_withSpan (span : Span) (e : Expr) : (e.withSpan span).span = span := by
  cases e <;> rfl

theorem parts_withSpan (span : Span) (e : Expr) : (e.withSpan span).parts = e.parts := by
  rw [parts, names_withSpan, children_withSpan, parts]

end Expr

/-! ### Tokens and the place that they cover -/

structure Covers (tokens : List (Located Token)) (span : Span) : Prop where
  first : ∃ token ∈ tokens.head?, token.span.start = span.start
  last : ∃ token ∈ tokens.getLast?, token.span.stop = span.stop

abbrev TokensInOrder (stop start : Nat) (tokens : List (Located Token)) : Prop :=
  Span.InOrder stop start (tokens.map Located.span)

theorem TokensInOrder.append_iff {start stop : Nat} {tokens rest : List (Located Token)} :
    TokensInOrder stop start (tokens ++ rest) ↔
      ∃ middle, TokensInOrder middle start tokens ∧ TokensInOrder stop middle rest := by
  rw [TokensInOrder, List.map_append]
  exact Span.InOrder.append_iff

/-- Some tokens next to each other are in order as all of them are. -/
theorem TokensInOrder.of_infix {start stop : Nat} {inner tokens : List (Located Token)}
    (ordered : TokensInOrder stop start tokens) (part : inner <:+: tokens) :
    TokensInOrder stop start inner := by
  obtain ⟨before, after, rfl⟩ := part
  obtain ⟨middle, others, last⟩ := append_iff.mp ordered
  obtain ⟨middle', first, inside⟩ := append_iff.mp others
  exact inside.widen first.le last.le

namespace Covers

variable {start stop : Nat} {tokens rest : List (Located Token)} {left right span : Span}

theorem single (token : Located Token) : Covers [token] token.span where
  first := ⟨token, rfl, rfl⟩
  last := ⟨token, rfl, rfl⟩

theorem delimited (first last : Located Token) (tokens : List (Located Token)) :
    Covers (first :: (tokens ++ [last])) ⟨first.span.start, last.span.stop⟩ where
  first := ⟨first, rfl, rfl⟩
  last := ⟨last, by rw [← List.cons_append]; exact List.getLast?_concat, rfl⟩

theorem bounds (covers : Covers tokens span) (ordered : TokensInOrder stop start tokens) :
    start ≤ span.start ∧ span.start < span.stop ∧ span.stop ≤ stop := by
  obtain ⟨⟨first, head, begins⟩, last, tail, ends⟩ := covers
  cases tokens with
  | nil => cases head
  | cons token tokens =>
      cases head
      obtain ⟨before, some, later⟩ := ordered
      have inTokens := List.mem_of_getLast? tail
      rcases List.mem_cons.mp inTokens with rfl | inRest
      · have after := later.le
        omega
      · have inside := later.inside (List.mem_map_of_mem inRest)
        omega

/-- The place of tokens that begin and end with others covers the places of both. -/
theorem around (first : Covers tokens left) (last : Covers rest right)
    (middle : List (Located Token))
    (ordered : TokensInOrder stop start (tokens ++ (middle ++ rest))) :
    Covers (tokens ++ (middle ++ rest)) (left.cover right) ∧
      Span.InOrder (left.cover right).stop (left.cover right).start [left, right] := by
  obtain ⟨between, inFirst, others⟩ := TokensInOrder.append_iff.mp ordered
  obtain ⟨between', inMiddle, inLast⟩ := TokensInOrder.append_iff.mp others
  have boundsFirst := first.bounds inFirst
  have boundsMiddle := inMiddle.le
  have boundsLast := last.bounds inLast
  have outer : left.cover right = ⟨left.start, right.stop⟩ :=
    Span.cover_eq (by omega) (by omega)
  rw [outer]
  refine ⟨⟨?_, ?_⟩, Nat.le_refl _, boundsFirst.2.1, by omega, boundsLast.2.1, Nat.le_refl _⟩
  · obtain ⟨token, head, begins⟩ := first.first
    exact ⟨token, by rw [List.head?_append, Option.mem_def.mp head]; rfl, begins⟩
  · obtain ⟨token, tail, ends⟩ := last.last
    refine ⟨token, ?_, ends⟩
    rw [List.getLast?_append, List.getLast?_append, Option.mem_def.mp tail]
    rfl

end Covers

/-! ### The places of nodes -/

structure Placed (tokens : List (Located Token)) (e : Expr) : Prop where
  covers : Covers tokens e.span
  inOrder : Span.InOrder e.span.stop e.span.start e.parts

theorem TokensInOrder.delimited {start stop : Nat} {first last : Located Token}
    {tokens : List (Located Token)}
    (ordered : TokensInOrder stop start (first :: (tokens ++ [last]))) :
    TokensInOrder last.span.start first.span.stop tokens ∧
      first.span.start < first.span.stop ∧ last.span.start < last.span.stop := by
  obtain ⟨_, some, later⟩ := ordered
  obtain ⟨middle, inner, before, some', _⟩ := TokensInOrder.append_iff.mp later
  exact ⟨inner.widen (Nat.le_refl _) before, some, some'⟩

/-- The places of binders are those of their tokens. -/
theorem map_span_binders (binders : List Name) :
    (binders.map Name.token).map Located.span = binders.map Located.span := by
  rw [List.map_map]
  rfl

mutual

theorem Closed.placed {tokens : List (Located Token)} {e : Expr} (closed : Closed tokens e)
    {start stop : Nat} (ordered : TokensInOrder stop start tokens) : Placed tokens e := by
  match closed with
  | .ident name =>
      obtain ⟨_, some, _⟩ := ordered
      exact ⟨.single name.token, Nat.le_refl _, some, Nat.le_refl _⟩
  | .nat value span =>
      obtain ⟨_, some, _⟩ := ordered
      exact ⟨.single ⟨.nat value, span⟩, Nat.le_of_lt some⟩
  | .group first last phrase =>
      obtain ⟨inner, some, some'⟩ := ordered.delimited
      have placed := phrase.placed inner
      have bounds := placed.covers.bounds inner
      refine ⟨?_, ?_⟩
      · rw [Expr.span_withSpan]
        exact .delimited (Symbol.leftParen.at first) (Symbol.rightParen.at last) _
      · rw [Expr.span_withSpan, Expr.parts_withSpan]
        simp only [Symbol.at] at bounds some some'
        exact placed.inOrder.widen (by simp only; omega) (by simp only; omega)
  | .tuple first last elements =>
      obtain ⟨inner, some, some'⟩ := ordered.delimited
      exact ⟨.delimited (Symbol.leftAngle.at first) (Symbol.rightAngle.at last) _,
        (elements.inOrder inner).widen (Nat.le_of_lt some) (Nat.le_of_lt some')⟩
  | .empty first last =>
      obtain ⟨inner, some, some'⟩ := @TokensInOrder.delimited _ _ _ _ [] ordered
      exact ⟨.delimited (Symbol.leftBracket.at first) (Symbol.rightBracket.at last) [],
        inner.widen (Nat.le_of_lt some) (Nat.le_of_lt some')⟩
  | .list first last elements =>
      obtain ⟨inner, some, some'⟩ := ordered.delimited
      exact ⟨.delimited (Symbol.leftBracket.at first) (Symbol.rightBracket.at last) _,
        (elements.inOrder inner).widen (Nat.le_of_lt some) (Nat.le_of_lt some')⟩

theorem Application.placed {tokens : List (Located Token)} {e : Expr}
    (application : Application tokens e) {start stop : Nat}
    (ordered : TokensInOrder stop start tokens) : Placed tokens e := by
  match application with
  | .head closed => exact closed.placed ordered
  | .apply function argument =>
      obtain ⟨middle, before, after⟩ := TokensInOrder.append_iff.mp ordered
      obtain ⟨covers, parts⟩ :=
        (function.placed before).covers.around (argument.placed after).covers [] ordered
      exact ⟨covers, parts⟩

theorem Abstraction.placed {tokens : List (Located Token)} {e : Expr}
    (abstraction : Abstraction tokens e) {start stop : Nat}
    (ordered : TokensInOrder stop start tokens) : Placed tokens e := by
  match abstraction with
  | .over first dot binder binders phrase =>
      obtain ⟨_, some, later⟩ := ordered
      obtain ⟨middle, names, before, someDot, inBody⟩ := TokensInOrder.append_iff.mp later
      have placed := phrase.placed inBody
      have bounds := placed.covers.bounds inBody
      refine ⟨⟨⟨_, rfl, rfl⟩, ?_⟩, ?_⟩
      · obtain ⟨token, tail, ends⟩ := placed.covers.last
        refine ⟨token, ?_, ends⟩
        rw [← List.cons_append, List.getLast?_append, List.getLast?_cons, Option.mem_def.mp tail]
        rfl
      · rw [TokensInOrder, map_span_binders] at names
        refine Span.InOrder.append_iff.mpr ⟨middle, names.widen (Nat.le_of_lt some) (Nat.le_refl _),
          ?_, bounds.2.1, Nat.le_refl _⟩
        exact Nat.le_trans before (Nat.le_trans (Nat.le_of_lt someDot) bounds.1)

theorem Phrase.placed {tokens : List (Located Token)} {e : Expr} (phrase : Phrase tokens e)
    {start stop : Nat} (ordered : TokensInOrder stop start tokens) : Placed tokens e := by
  match phrase with
  | .application application => exact application.placed ordered
  | .abstraction abstraction => exact abstraction.placed ordered
  | .apply function argument =>
      obtain ⟨middle, before, after⟩ := TokensInOrder.append_iff.mp ordered
      obtain ⟨covers, parts⟩ :=
        (function.placed before).covers.around (argument.placed after).covers [] ordered
      exact ⟨covers, parts⟩
  | .cons span head tail =>
      obtain ⟨middle, before, _, _, after⟩ := TokensInOrder.append_iff.mp ordered
      obtain ⟨covers, parts⟩ := (head.placed before).covers.around (tail.placed after).covers
        [Symbol.cons.at span] ordered
      exact ⟨covers, parts⟩

theorem Elements.inOrder {tokens : List (Located Token)} {elements : List Expr}
    (derived : Elements tokens elements) {start stop : Nat}
    (ordered : TokensInOrder stop start tokens) :
    Span.InOrder stop start (elements.map Expr.span) := by
  match derived with
  | .last phrase => exact (phrase.placed ordered).covers.bounds ordered
  | .next span phrase rest =>
      obtain ⟨middle, first, before, some, later⟩ := TokensInOrder.append_iff.mp ordered
      obtain ⟨starts, someFirst, stops⟩ := (phrase.placed first).covers.bounds first
      refine ⟨starts, someFirst, (rest.inOrder later).widen ?_ (Nat.le_refl _)⟩
      exact Nat.le_trans stops (Nat.le_trans before (Nat.le_of_lt some))

end

/-! ### The tokens of nodes -/

mutual

theorem Closed.exists_child {tokens : List (Located Token)} {e child : Expr}
    (closed : Closed tokens e) (member : child ∈ e.children) :
    ∃ inner, inner <:+: tokens ∧ Phrase inner child := by
  match closed with
  | .ident name => cases member
  | .nat value span => cases member
  | .group first last phrase =>
      rw [Expr.children_withSpan] at member
      obtain ⟨inner, part, derived⟩ := phrase.exists_child member
      exact ⟨inner, part.trans ⟨[_], [_], rfl⟩, derived⟩
  | .tuple first last elements =>
      obtain ⟨inner, part, derived⟩ := elements.exists_element member
      exact ⟨inner, part.trans ⟨[_], [_], rfl⟩, derived⟩
  | .empty first last => cases member
  | .list first last elements =>
      obtain ⟨inner, part, derived⟩ := elements.exists_element member
      exact ⟨inner, part.trans ⟨[_], [_], rfl⟩, derived⟩

theorem Application.exists_child {tokens : List (Located Token)} {e child : Expr}
    (application : Application tokens e) (member : child ∈ e.children) :
    ∃ inner, inner <:+: tokens ∧ Phrase inner child := by
  match application with
  | .head closed => exact closed.exists_child member
  | .apply function argument =>
      rcases List.mem_pair.mp member with rfl | rfl
      · exact ⟨_, (List.prefix_append _ _).isInfix, .application function⟩
      · exact ⟨_, (List.suffix_append _ _).isInfix, .application (.head argument)⟩

theorem Phrase.exists_child {tokens : List (Located Token)} {e child : Expr}
    (phrase : Phrase tokens e) (member : child ∈ e.children) :
    ∃ inner, inner <:+: tokens ∧ Phrase inner child := by
  match phrase with
  | .application application => exact application.exists_child member
  | .abstraction (.over first dot binder binders body) =>
      obtain rfl := List.mem_singleton.mp member
      refine ⟨_, ?_, body⟩
      refine List.IsSuffix.isInfix (List.IsSuffix.trans ?_ (List.suffix_cons _ _))
      exact (List.suffix_cons _ _).trans (List.suffix_append _ _)
  | .apply function argument =>
      rcases List.mem_pair.mp member with rfl | rfl
      · exact ⟨_, (List.prefix_append _ _).isInfix, .application function⟩
      · exact ⟨_, (List.suffix_append _ _).isInfix, .abstraction argument⟩
  | .cons span head tail =>
      rcases List.mem_pair.mp member with rfl | rfl
      · exact ⟨_, (List.prefix_append _ _).isInfix, .application head⟩
      · exact ⟨_, ((List.suffix_cons _ _).trans (List.suffix_append _ _)).isInfix, tail⟩

theorem Elements.exists_element {tokens : List (Located Token)} {elements : List Expr}
    {child : Expr} (derived : Elements tokens elements) (member : child ∈ elements) :
    ∃ inner, inner <:+: tokens ∧ Phrase inner child := by
  match derived with
  | .last phrase =>
      obtain rfl := List.mem_singleton.mp member
      exact ⟨_, List.infix_refl _, phrase⟩
  | .next span phrase rest =>
      rcases List.mem_cons.mp member with rfl | later
      · exact ⟨_, (List.prefix_append _ _).isInfix, phrase⟩
      · obtain ⟨inner, part, derived⟩ := rest.exists_element later
        exact ⟨inner, part.trans ((List.suffix_cons _ _).trans (List.suffix_append _ _)).isInfix,
          derived⟩

end

theorem Expr.HasNode.exists_phrase {e node : Expr} (hasNode : e.HasNode node)
    {tokens : List (Located Token)} (phrase : Phrase tokens e) :
    ∃ inner, inner <:+: tokens ∧ Phrase inner node := by
  induction hasNode generalizing tokens with
  | root e => exact ⟨tokens, List.infix_refl tokens, phrase⟩
  | inside member _ ih =>
      obtain ⟨inner, part, derived⟩ := phrase.exists_child member
      obtain ⟨innermost, part', derived'⟩ := ih derived
      exact ⟨innermost, part'.trans part, derived'⟩

mutual

theorem Closed.token_mem {tokens : List (Located Token)} {e : Expr} (closed : Closed tokens e)
    {name : Name} (member : name ∈ e.names) : name.token ∈ tokens := by
  match closed with
  | .ident name => rw [List.mem_singleton.mp member]; exact List.mem_cons_self
  | .nat value span => cases member
  | .group first last phrase =>
      rw [Expr.names_withSpan] at member
      exact List.mem_cons_of_mem _ (List.mem_append_left _ (phrase.token_mem member))
  | .tuple first last elements => cases member
  | .empty first last => cases member
  | .list first last elements => cases member

theorem Application.token_mem {tokens : List (Located Token)} {e : Expr}
    (application : Application tokens e) {name : Name} (member : name ∈ e.names) :
    name.token ∈ tokens := by
  match application with
  | .head closed => exact closed.token_mem member
  | .apply function argument => cases member

/-- The identifiers of a node are among its tokens. -/
theorem Phrase.token_mem {tokens : List (Located Token)} {e : Expr} (phrase : Phrase tokens e)
    {name : Name} (member : name ∈ e.names) : name.token ∈ tokens := by
  match phrase with
  | .application application => exact application.token_mem member
  | .abstraction (.over first dot binder binders body) =>
      exact List.mem_cons_of_mem _ (List.mem_append_left _ (List.mem_map_of_mem member))
  | .apply function argument => cases member
  | .cons span head tail => cases member

end

/-! ### The text at the place of a node -/

/-- The text at the place that some of the tokens cover has those tokens. -/
theorem tokenize_textIn {source : String} {tokens inner : List (Located Token)} {span : Span}
    (tokenized : tokenize source = .ok tokens) (part : inner <:+: tokens)
    (covers : Covers inner span) :
    tokenize (span.textIn source) = .ok (inner.map (Located.moved (· - span.start))) := by
  have lexed := (tokenize_eq_ok_iff source tokens).mp tokenized
  obtain ⟨before, after, split⟩ := part
  obtain ⟨⟨first, head, begins⟩, last, tail, ends⟩ := covers
  obtain ⟨rest, fromFirst⟩ := List.head?_eq_some_iff.mp head
  obtain ⟨init, toLast⟩ := List.getLast?_eq_some_iff.mp tail
  have splitFirst : tokens = before ++ first :: (rest ++ after) := by
    rw [← split, fromFirst, List.append_assoc]
    rfl
  have splitLast : first :: (rest ++ after) = init ++ last :: after := by
    rw [← List.cons_append, ← fromFirst, toLast, List.append_assoc]
    rfl
  obtain ⟨outside, others, text, start, lexedOthers⟩ := lexed.exists_start splitFirst
  obtain ⟨inside, beyond, rfl, stop, lexedInside⟩ := lexedOthers.exists_stop splitLast
  rw [← toLast, Nat.zero_add] at lexedInside
  rw [Nat.zero_add] at start stop
  have place : span = ⟨outside.length, outside.length + inside.length⟩ := by
    rw [← stop, ends, ← start, begins]
  have shifts (length : Nat) : outside.length + length - outside.length =
      outside.length - outside.length + length := by omega
  have moved := lexedInside.before_nothing.moved (· - outside.length) shifts
  rw [Nat.sub_self] at moved
  subst place
  apply tokenize_of_lexed
  rw [Span.textIn, text, Span.slice_append, String.toList_ofList]
  exact moved

/-- Every node has a place in the source, its identifiers and children are one after another inside
that place, and the text there is read as the same node. -/
theorem spans_are_faithful {source : String} {e node : Expr} (parsed : parseTerm source = .ok e)
    (hasNode : e.HasNode node) :
    node.span.start < node.span.stop ∧ node.span.stop ≤ source.length ∧
    (∀ part ∈ node.parts, node.span.start ≤ part.start ∧ part.start < part.stop ∧
      part.stop ≤ node.span.stop) ∧
    node.parts.Pairwise (fun first second => first.stop ≤ second.start) ∧
    parseTerm (node.span.textIn source) = .ok (node.moved (· - node.span.start)) ∧
    ∀ name ∈ node.names, name.span.textIn source = name.value := by
  obtain ⟨tokens, tokenized, read⟩ := Except.exists_of_bind parsed
  have ordered : TokensInOrder source.length 0 tokens := by
    have whole := ((tokenize_eq_ok_iff source tokens).mp tokenized).inOrder
    rwa [Nat.zero_add] at whole
  obtain ⟨inner, part, phrase⟩ := hasNode.exists_phrase ((readExpr_eq_ok_iff _ _ _).mp read)
  have inside := ordered.of_infix part
  obtain ⟨covers, inOrder⟩ := phrase.placed inside
  obtain ⟨_, some, stops⟩ := covers.bounds inside
  refine ⟨some, stops, fun part member => inOrder.inside member, inOrder.pairwise, ?_,
    fun name member => ?_⟩
  · have monotone : Monotone (· - node.span.start) := fun _ _ le => Nat.sub_le_sub_right le _
    simp only [parseTerm, tokenize_textIn tokenized part covers, bind, Except.bind]
    exact (phrase.moved monotone).readExpr _
  · have lexeme := lexeme_of_tokenize tokenized (part.subset (phrase.token_mem member))
    rcases lexeme.spelled with text | ⟨lambda, _⟩
    · change name.span.slice source.toList = name.value.toList at text
      rw [Span.textIn, text, String.ofList_toList]
    · cases lambda

/-- Both pairs of parentheses and the comment belong to the node, which is read by itself as well as
below the binder. -/
theorem span_of_parenthesized_node :
    let node : Expr := .app ⟨3, 17⟩ (.var ⟨5, 6⟩ ⟨"f", ⟨5, 6⟩⟩) (.var ⟨12, 15⟩ ⟨"x", ⟨13, 14⟩⟩)
    let e : Expr := .lam ⟨0, 17⟩ [⟨"x", ⟨1, 2⟩⟩] node
    parseTerm "λx.((f # é\n (x)))" = .ok e ∧ e.HasNode node ∧
      node.parts.Pairwise (fun first second => first.stop ≤ second.start) ∧
      node.span.textIn "λx.((f # é\n (x)))" = "((f # é\n (x)))" ∧
      parseTerm "((f # é\n (x)))" = .ok (node.moved (· - 3)) := by
  intro node e
  have parsed : parseTerm "λx.((f # é\n (x)))" = .ok e := rfl
  have hasNode : e.HasNode node := .inside List.mem_cons_self (.root node)
  obtain ⟨_, _, _, apart, reads, _⟩ := spans_are_faithful parsed hasNode
  have text : node.span.textIn "λx.((f # é\n (x)))" = "((f # é\n (x)))" := rfl
  rw [text] at reads
  exact ⟨parsed, hasNode, apart, text, reads⟩

end UntypedLambda.Surface
