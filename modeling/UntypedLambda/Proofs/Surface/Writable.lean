import UntypedLambda.Proofs.Surface.Program
import UntypedLambda.Proofs.Surface.Scanning

set_option autoImplicit false

/-! The expressions that can be written. Their names are identifiers, their numbers fit into a
token, an abstraction has a binder and a tuple has two elements. Whatever is read from a text is
such an expression. -/

namespace UntypedLambda.Surface

def Token.isWritable : Token → Bool
  | .symbol _ => true
  | .nat value => decide (value < numberBound)
  | .ident name => isIdentifier name

namespace Expr

mutual

def isWritable : Expr → Bool
  | .var _ name => isIdentifier name.value
  | .nat _ value => decide (value < numberBound)
  | .lam _ binders body =>
      !binders.isEmpty && binders.all (fun binder => isIdentifier binder.value) && body.isWritable
  | .app _ function argument => function.isWritable && argument.isWritable
  | .tuple _ elements => decide (2 ≤ elements.length) && allWritable elements
  | .list _ elements => allWritable elements
  | .cons _ head tail => head.isWritable && tail.isWritable

def allWritable : List Expr → Bool
  | [] => true
  | element :: elements => element.isWritable && allWritable elements

end

theorem allWritable_iff (elements : List Expr) :
    allWritable elements = true ↔ ∀ e ∈ elements, e.isWritable = true := by
  induction elements with
  | nil => simp [allWritable]
  | cons element elements ih => rw [allWritable, Bool.and_eq_true, ih, List.forall_mem_cons]

theorem isWritable_withSpan (span : Span) (e : Expr) :
    (e.withSpan span).isWritable = e.isWritable := by
  cases e <;> rfl

end Expr

def Statement.isWritable : Statement → Bool
  | .term body => body.isWritable
  | .define name body => isIdentifier name.value && body.isWritable

/-! ### Tokens of a text -/

def Pending.isWord : Pending → Bool
  | .word _ _ => true
  | _ => false

namespace Scan

structure Writable (scan : Scan) : Prop where
  tokens : ∀ token ∈ scan.tokens, token.value.isWritable = true
  pending : ∀ first letters, scan.pending = .word first letters →
    isIdentifier (String.ofList letters.reverse) = true

namespace Writable

variable {scan next : Scan}

theorem start : Scan.start.Writable where
  tokens := fun _ none => nomatch none
  pending := fun _ _ none => nomatch none

/-- Passing a character keeps the tokens, and a word may become pending. -/
theorem pass (writable : scan.Writable) {pending : Pending}
    (word : ∀ first letters, pending = .word first letters →
      isIdentifier (String.ofList letters.reverse) = true) : (scan.pass pending).Writable where
  tokens := writable.tokens
  pending := word

theorem pass_other (writable : scan.Writable) {pending : Pending}
    (other : pending.isWord = false) : (scan.pass pending).Writable := by
  refine writable.pass fun first letters word => ?_
  rw [word] at other
  cases other

theorem emit (writable : scan.Writable) {token : Token} (new : token.isWritable = true)
    (first : Nat) : (scan.emit token first).Writable where
  tokens := by
    intro other member
    rcases List.mem_cons.mp member with rfl | old
    · exact new
    · exact writable.tokens other old
  pending := fun _ _ none => nomatch none

theorem close (writable : scan.Writable) (closing : scan.close = .ok next) : next.Writable := by
  unfold Scan.close at closing
  split at closing
  · cases closing
    exact writable
  · cases closing
    exact ⟨writable.tokens, fun _ _ none => nomatch none⟩
  · cases closing
  · rename_i first value _
    split at closing
    · rename_i fits
      have new : (Token.nat value).isWritable = true := decide_eq_true fits
      cases closing
      exact writable.emit new _
    · cases closing
  · rename_i first letters word
    have new : (Token.ident (String.ofList letters.reverse)).isWritable = true :=
      writable.pending first letters word
    cases closing
    exact writable.emit new _

theorem begin (writable : scan.Writable) {c : Char} (begun : scan.begin c = .ok next) :
    next.Writable := by
  unfold Scan.begin at begun
  split at begun
  · cases begun
    exact writable.pass_other rfl
  · split at begun
    · cases begun
      exact writable.pass_other rfl
    · split at begun
      · cases begun
        exact writable.pass_other rfl
      · split at begun
        · have new : (Token.nat 0).isWritable = true := by decide
          cases begun
          exact (writable.pass_other rfl).emit new _
        · split at begun
          · rename_i letter
            cases begun
            refine writable.pass fun first letters word => ?_
            cases word
            simp [isIdentifier, letter]
          · split at begun
            · rename_i symbol _
              have new : (Token.symbol symbol).isWritable = true := rfl
              cases begun
              exact (writable.pass_other rfl).emit new _
            · cases begun
              exact writable.pass_other rfl
            · cases begun

theorem restart (writable : scan.Writable) {c : Char} (restarted : scan.restart c = .ok next) :
    next.Writable := by
  unfold Scan.restart at restarted
  split at restarted
  · rename_i closed closing
    exact (writable.close closing).begin restarted
  · cases restarted

theorem isIdentifier_cons {letters : List Char} {c : Char}
    (word : isIdentifier (String.ofList letters.reverse) = true) (part : isNamePart c = true) :
    isIdentifier (String.ofList (c :: letters).reverse) = true := by
  unfold isIdentifier at word ⊢
  rw [String.toList_ofList] at word ⊢
  rw [List.reverse_cons]
  cases turned : letters.reverse with
  | nil =>
      rw [turned] at word
      cases word
  | cons head tail =>
      rw [turned] at word
      simpa [part] using word

/-- The step lemma: a character that is read keeps everything writable. -/
theorem feed (writable : scan.Writable) {c : Char} (fed : scan.feed c = .ok next) :
    next.Writable := by
  unfold Scan.feed at fed
  split at fed
  · exact writable.begin fed
  · cases fed
    split
    · exact writable.pass_other rfl
    · exact writable.pass_other rfl
  · split at fed
    · rename_i symbol _
      have new : (Token.symbol symbol).isWritable = true := rfl
      cases fed
      exact (writable.pass_other rfl).emit new _
    · cases fed
  · split at fed
    · cases fed
      exact writable.pass_other rfl
    · exact writable.restart fed
  · rename_i first letters word
    split at fed
    · rename_i part
      cases fed
      refine writable.pass fun first' letters' same => ?_
      cases same
      exact isIdentifier_cons (writable.pending first letters word) part
    · exact writable.restart fed

theorem foldlM_feed (writable : scan.Writable) {cs : List Char}
    (fed : cs.foldlM Scan.feed scan = .ok next) : next.Writable := by
  induction cs generalizing scan with
  | nil =>
      cases fed
      exact writable
  | cons c cs ih =>
      obtain ⟨middle, first, rest⟩ := Except.exists_of_bind fed
      exact ih (writable.feed first) rest

end Writable

end Scan

theorem isWritable_of_tokenize {source : String} {tokens : List (Located Token)}
    (tokenized : tokenize source = .ok tokens) :
    ∀ token ∈ tokens, token.value.isWritable = true := by
  obtain ⟨scan, fed, rest⟩ := Except.exists_of_bind tokenized
  obtain ⟨closed, closing, returned⟩ := Except.exists_of_bind rest
  cases returned
  have writable := (Scan.Writable.start.foldlM_feed fed).close closing
  exact fun token member => writable.tokens token (List.mem_reverse.mp member)

/-! ### Expressions from tokens -/

def TokensWritable (tokens : List (Located Token)) : Prop :=
  ∀ token ∈ tokens, token.value.isWritable = true

namespace TokensWritable

variable {token : Located Token} {tokens rest : List (Located Token)}

theorem left (writable : TokensWritable (tokens ++ rest)) : TokensWritable tokens :=
  fun token member => writable token (List.mem_append_left _ member)

theorem right (writable : TokensWritable (tokens ++ rest)) : TokensWritable rest :=
  fun token member => writable token (List.mem_append_right _ member)

theorem tail (writable : TokensWritable (token :: tokens)) : TokensWritable tokens :=
  fun token member => writable token (List.mem_cons_of_mem _ member)

theorem binders {names : List Name} (writable : TokensWritable (names.map Name.token)) :
    names.all (fun binder => isIdentifier binder.value) = true := by
  rw [List.all_eq_true]
  exact fun name member => writable name.token (List.mem_map_of_mem member)

end TokensWritable

mutual

theorem Closed.isWritable {tokens : List (Located Token)} {e : Expr} (derived : Closed tokens e)
    (writable : TokensWritable tokens) : e.isWritable = true := by
  match derived with
  | .ident name => exact writable _ List.mem_cons_self
  | .nat value span => exact writable _ List.mem_cons_self
  | .group first last phrase =>
      rw [Expr.isWritable_withSpan]
      exact phrase.isWritable writable.tail.left
  | .tuple first last elements =>
      have inside := elements.allWritable writable.tail.left
      rw [Expr.isWritable, inside]
      simp
  | .empty first last => rfl
  | .list first last elements => exact elements.allWritable writable.tail.left

theorem Application.isWritable {tokens : List (Located Token)} {e : Expr}
    (derived : Application tokens e) (writable : TokensWritable tokens) : e.isWritable = true := by
  match derived with
  | .head closed => exact closed.isWritable writable
  | .apply function argument =>
      rw [Expr.isWritable, function.isWritable writable.left, argument.isWritable writable.right]
      rfl

theorem Abstraction.isWritable {tokens : List (Located Token)} {e : Expr}
    (derived : Abstraction tokens e) (writable : TokensWritable tokens) :
    e.isWritable = true := by
  match derived with
  | .over first dot binder binders phrase =>
      have names := writable.tail.left.binders
      have body := phrase.isWritable writable.tail.right.tail
      rw [Expr.isWritable, names, body]
      rfl

theorem Phrase.isWritable {tokens : List (Located Token)} {e : Expr} (derived : Phrase tokens e)
    (writable : TokensWritable tokens) : e.isWritable = true := by
  match derived with
  | .application application => exact application.isWritable writable
  | .abstraction abstraction => exact abstraction.isWritable writable
  | .apply function argument =>
      rw [Expr.isWritable, function.isWritable writable.left, argument.isWritable writable.right]
      rfl
  | .cons span head tail =>
      rw [Expr.isWritable, head.isWritable writable.left, tail.isWritable writable.right.tail]
      rfl

theorem Elements.allWritable {tokens : List (Located Token)} {elements : List Expr}
    (derived : Elements tokens elements) (writable : TokensWritable tokens) :
    Expr.allWritable elements = true := by
  match derived with
  | .last phrase =>
      rw [Expr.allWritable, phrase.isWritable writable]
      rfl
  | .next span phrase rest =>
      rw [Expr.allWritable, phrase.isWritable writable.left, rest.allWritable writable.right.tail]
      rfl

end

theorem Grammar.Sentence.isWritable {tokens after : List (Located Token)} {statement : Statement}
    (sentence : Sentence phrases tokens after statement) (writable : TokensWritable tokens) :
    statement.isWritable = true := by
  cases sentence with
  | term phrase => exact Phrase.isWritable phrase writable
  | define name sign phrase =>
      have named : isIdentifier name.value = true := writable name.token List.mem_cons_self
      rw [Statement.isWritable, named, Phrase.isWritable phrase writable.tail.tail]
      rfl

theorem Grammar.Sentences.isWritable {tokens after : List (Located Token)}
    {statements : List Statement} (sentences : Sentences phrases tokens after statements)
    (writable : TokensWritable tokens) : ∀ statement ∈ statements, statement.isWritable = true := by
  induction sentences with
  | one sentence =>
      intro statement member
      rw [List.mem_singleton.mp member]
      exact sentence.isWritable writable
  | more span sentence _ ih =>
      intro statement member
      rcases List.mem_cons.mp member with rfl | later
      · exact sentence.isWritable writable.left
      · exact ih writable.right.tail statement later

theorem isWritable_of_parseTerm {source : String} {e : Expr} (parsed : parseTerm source = .ok e) :
    e.isWritable = true := by
  obtain ⟨tokens, tokenized, read⟩ := Except.exists_of_bind parsed
  have phrase := (readExpr_eq_ok_iff _ _ _).mp read
  exact phrase.isWritable (isWritable_of_tokenize tokenized)

theorem isWritable_of_parseProgram {source : String} {statements : List Statement}
    (parsed : parseProgram source = .ok statements) :
    ∀ statement ∈ statements, statement.isWritable = true := by
  obtain ⟨tokens, tokenized, read⟩ := Except.exists_of_bind parsed
  have writable : TokensWritable tokens := isWritable_of_tokenize tokenized
  cases (readProgram_eq_ok_iff _ _ _).mp read with
  | empty => exact fun _ none => nomatch none
  | sentences sentences => exact sentences.isWritable writable
  | trailing span sentences => exact sentences.isWritable writable.left

end UntypedLambda.Surface
