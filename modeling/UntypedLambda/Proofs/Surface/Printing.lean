import UntypedLambda.Proofs.Surface.Bare
import UntypedLambda.Proofs.Surface.Writable
import UntypedLambda.Proofs.Term.Spelling

set_option autoImplicit false

/-! The text of surface syntax. Every form that is no name, number, tuple or list is in parentheses,
so the tokens of an expression end where it ends, whatever follows, and the grammar derives from
them the same expression at another place. -/

namespace UntypedLambda.Surface

open Term (grouped scans_grouped exists_of_bracketed)

/-! ### The tokens of a text -/

namespace Expr

mutual

def spelling : Expr → List Token
  | .var _ name => [.ident name.value]
  | .nat _ value => [.nat value]
  | .lam _ binders body =>
      grouped (.symbol .lambda ::
        (binders.map (fun binder => .ident binder.value) ++ .symbol .dot :: body.spelling))
  | .app _ function argument => grouped (function.spelling ++ argument.spelling)
  | .tuple _ elements => .symbol .leftAngle :: (spellingAll elements ++ [.symbol .rightAngle])
  | .list _ elements => .symbol .leftBracket :: (spellingAll elements ++ [.symbol .rightBracket])
  | .cons _ head tail => grouped (head.spelling ++ .symbol .cons :: tail.spelling)

def spellingAll : List Expr → List Token
  | [] => []
  | [element] => element.spelling
  | element :: elements => element.spelling ++ .symbol .comma :: spellingAll elements

end

end Expr

def Statement.spelling : Statement → List Token
  | .term body => body.spelling
  | .define name body => .ident name.value :: .symbol .define :: body.spelling

def Statement.spellingAll : List Statement → List Token
  | [] => []
  | [statement] => statement.spelling
  | statement :: statements => statement.spelling ++ .symbol .semicolon :: spellingAll statements

/-! ### Texts one after another -/

namespace Expr

theorem bindersOnto_append (binders : List Name) (first second : List Char) :
    bindersOnto binders (first ++ second) = bindersOnto binders first ++ second := by
  induction binders with
  | nil => rfl
  | cons binder binders ih =>
      cases binders with
      | nil => simp [bindersOnto]
      | cons other others => simp [bindersOnto, ih]

mutual

theorem renderOnto_append (e : Expr) (first second : List Char) :
    e.renderOnto (first ++ second) = e.renderOnto first ++ second := by
  match e with
  | .var _ name => simp [renderOnto]
  | .nat _ value => simp [renderOnto]
  | .lam _ binders body =>
      simp only [renderOnto, List.cons_append, ← bindersOnto_append, ← renderOnto_append body]
  | .app _ function argument =>
      simp only [renderOnto, List.cons_append, ← renderOnto_append function,
        ← renderOnto_append argument]
  | .tuple _ elements =>
      simp only [renderOnto, List.cons_append, ← renderAllOnto_append elements]
  | .list _ elements =>
      simp only [renderOnto, List.cons_append, ← renderAllOnto_append elements]
  | .cons _ head tail =>
      simp only [renderOnto, List.cons_append, ← renderOnto_append head,
        ← renderOnto_append tail]

theorem renderAllOnto_append (elements : List Expr) (first second : List Char) :
    renderAllOnto elements (first ++ second) = renderAllOnto elements first ++ second := by
  match elements with
  | [] => rfl
  | [element] => exact renderOnto_append element first second
  | element :: other :: others =>
      simp only [renderAllOnto, List.cons_append, ← renderOnto_append element,
        ← renderAllOnto_append (other :: others)]

end

theorem toList_render_append (e : Expr) (rest : List Char) :
    e.render.toList ++ rest = e.renderOnto rest := by
  rw [render, String.toList_ofList, ← renderOnto_append, List.nil_append]

/-- The texts of several expressions stand with commas between them. -/
theorem renderAllOnto_eq (elements : List Expr) (rest : List Char) :
    renderAllOnto elements rest =
      (String.intercalate ", " (elements.map render)).toList ++ rest := by
  match elements with
  | [] => rfl
  | [element] =>
      rw [renderAllOnto, ← toList_render_append, List.map_singleton, String.intercalate_singleton]
  | element :: other :: others =>
      simp only [renderAllOnto, renderAllOnto_eq (other :: others), ← toList_render_append]
      simp [String.intercalate_cons_cons]

theorem render_nat (span : Span) (value : Nat) : (Expr.nat span value).render = toString value := by
  rw [render, renderOnto, List.append_nil, String.ofList_toList]

theorem render_tuple (span : Span) (elements : List Expr) :
    (Expr.tuple span elements).render =
      "<" ++ String.intercalate ", " (elements.map render) ++ ">" := by
  rw [render, renderOnto, renderAllOnto_eq]
  apply String.toList_inj.mp
  simp

theorem render_list (span : Span) (elements : List Expr) :
    (Expr.list span elements).render =
      "[" ++ String.intercalate ", " (elements.map render) ++ "]" := by
  rw [render, renderOnto, renderAllOnto_eq]
  apply String.toList_inj.mp
  simp

end Expr

/-! ### Scanning the text -/

namespace Expr

theorem scans_bindersOnto (binder : Name) (binders : List Name)
    (names : (binder :: binders).all (fun binder => isIdentifier binder.value) = true) :
    Scans true false (bindersOnto (binder :: binders))
      ((binder :: binders).map fun binder => .ident binder.value) := by
  induction binders generalizing binder with
  | nil =>
      rw [List.all_cons, Bool.and_eq_true] at names
      exact Scans.identifier names.1
  | cons other others ih =>
      rw [List.all_cons, Bool.and_eq_true] at names
      exact (Scans.identifier names.1).append (Scans.blank.append (ih other names.2))

mutual

/-- The text of an expression that can be written scans as its tokens. -/
theorem scans_renderOnto (e : Expr) (writable : e.isWritable = true) :
    Scans true false e.renderOnto e.spelling := by
  match e with
  | .var _ name => exact Scans.identifier writable
  | .nat _ value => exact Scans.number (of_decide_eq_true writable)
  | .lam _ [] body => cases writable
  | .lam _ (binder :: binders) body =>
      rw [isWritable, Bool.and_eq_true, Bool.and_eq_true] at writable
      have lambda := Scans.symbol (by decide : Symbol.ofChar? 'λ' = some .lambda)
      have dot := Scans.symbol (by decide : Symbol.ofChar? '.' = some .dot)
      have names := scans_bindersOnto binder binders writable.1.2
      have inBody := Scans.blank.append (scans_renderOnto body writable.2)
      have whole := lambda.append (names.append (dot.append inBody.of_relaxed))
      exact (scans_grouped whole.of_relaxed).unsettled.of_relaxed
  | .app _ function argument =>
      rw [isWritable, Bool.and_eq_true] at writable
      have inArgument := Scans.blank.append (scans_renderOnto argument writable.2)
      have whole := (scans_renderOnto function writable.1).append inArgument
      exact (scans_grouped whole).unsettled.of_relaxed
  | .tuple _ elements =>
      rw [isWritable, Bool.and_eq_true] at writable
      have first := Scans.symbol (by decide : Symbol.ofChar? '<' = some .leftAngle)
      have last := Scans.symbol (by decide : Symbol.ofChar? '>' = some .rightAngle)
      have inside := scans_renderAllOnto elements writable.2
      exact (first.append (inside.append last)).unsettled.of_relaxed
  | .list _ elements =>
      have first := Scans.symbol (by decide : Symbol.ofChar? '[' = some .leftBracket)
      have last := Scans.symbol (by decide : Symbol.ofChar? ']' = some .rightBracket)
      have inside := scans_renderAllOnto elements writable
      exact (first.append (inside.append last)).unsettled.of_relaxed
  | .cons _ head tail =>
      rw [isWritable, Bool.and_eq_true] at writable
      have sign := Scans.afterColon (by decide : Symbol.afterColon? ':' = some .cons)
      have inTail := Scans.blank.append (scans_renderOnto tail writable.2)
      have rest := Scans.blank.append (sign.append inTail.of_relaxed).of_relaxed
      have whole := (scans_renderOnto head writable.1).append rest
      exact (scans_grouped whole).unsettled.of_relaxed

theorem scans_renderAllOnto (elements : List Expr) (writable : allWritable elements = true) :
    Scans true false (renderAllOnto elements) (spellingAll elements) := by
  match elements with
  | [] => exact Scans.nothing
  | [element] =>
      rw [allWritable, Bool.and_eq_true] at writable
      exact scans_renderOnto element writable.1
  | element :: other :: others =>
      rw [allWritable, Bool.and_eq_true] at writable
      have comma := Scans.symbol (by decide : Symbol.ofChar? ',' = some .comma)
      have rest := Scans.blank.append (scans_renderAllOnto (other :: others) writable.2)
      exact (scans_renderOnto element writable.1).append (comma.append rest.of_relaxed)

end

end Expr

theorem Expr.scans_text (e : Expr) (writable : e.isWritable = true) :
    Scans true false (e.render.toList ++ ·) e.spelling := by
  rw [funext e.toList_render_append]
  exact e.scans_renderOnto writable

theorem Statement.scans_text (statement : Statement) (writable : statement.isWritable = true) :
    Scans true false (statement.render.toList ++ ·) statement.spelling := by
  cases statement with
  | term body => exact body.scans_text writable
  | define name body =>
      rw [isWritable, Bool.and_eq_true] at writable
      have sign := Scans.afterColon (by decide : Symbol.afterColon? '=' = some .define)
      have inBody := Scans.blank.append (body.scans_text writable.2)
      have rest := Scans.blank.append (sign.append inBody.of_relaxed).of_relaxed
      have whole := (Scans.identifier writable.1).append rest
      have text : ((define name body).render.toList ++ ·) = fun rest =>
          name.value.toList ++ ' ' :: ':' :: '=' :: ' ' :: (body.render.toList ++ rest) := by
        funext rest
        simp [render]
      rw [text]
      exact whole

def Statement.join (statements : List Statement) : String :=
  String.intercalate ";" (statements.map render)

theorem Statement.scans_join (statements : List Statement)
    (writable : ∀ statement ∈ statements, statement.isWritable = true) :
    Scans true false ((join statements).toList ++ ·) (spellingAll statements) := by
  induction statements with
  | nil => exact Scans.nothing
  | cons statement statements ih =>
      have first := statement.scans_text (writable statement List.mem_cons_self)
      cases statements with
      | nil => simpa [join, spellingAll] using first
      | cons other others =>
          have rest := ih fun statement member => writable statement (List.mem_cons_of_mem _ member)
          have semicolon := Scans.symbol (by decide : Symbol.ofChar? ';' = some .semicolon)
          have whole := first.append (semicolon.append rest)
          have text : ((join (statement :: other :: others)).toList ++ ·) = fun rest =>
              statement.render.toList ++ ';' :: ((join (other :: others)).toList ++ rest) := by
            funext rest
            simp [join, String.intercalate_cons_cons]
          rw [text]
          exact whole

/-! ### What the tokens derive -/

def DerivesAlike (derivation : List (Located Token) → Expr → Prop)
    (tokens : List (Located Token)) (e : Expr) : Prop :=
  ∃ e', e'.bare = e.bare ∧ derivation tokens e'

namespace DerivesAlike

variable {tokens : List (Located Token)} {e : Expr}

theorem application (derives : DerivesAlike Closed tokens e) :
    DerivesAlike Application tokens e := by
  obtain ⟨e', alike, closed⟩ := derives
  exact ⟨e', alike, .head closed⟩

theorem phrase (derives : DerivesAlike Application tokens e) : DerivesAlike Phrase tokens e := by
  obtain ⟨e', alike, application⟩ := derives
  exact ⟨e', alike, .application application⟩

/-- What is derived in parentheses is closed. -/
theorem grouped {inner : List Token}
    (derives : ∀ tokens : List (Located Token), tokens.map Located.value = inner →
      DerivesAlike Phrase tokens e)
    (values : tokens.map Located.value = Term.grouped inner) : DerivesAlike Closed tokens e := by
  obtain ⟨first, middle, last, inside, rfl⟩ := exists_of_bracketed values
  obtain ⟨e', alike, phrase⟩ := derives middle inside
  exact ⟨_, (Expr.bare_withSpan _ e').trans alike, .group first last phrase⟩

end DerivesAlike

/-- Tokens that are a list of binders by their values. -/
theorem exists_binders {tokens : List (Located Token)} {binders : List Name}
    (values : tokens.map Located.value = binders.map fun binder => .ident binder.value) :
    ∃ others : List Name, tokens = others.map Name.token ∧
      others.map Name.bare = binders.map Name.bare := by
  induction binders generalizing tokens with
  | nil => exact ⟨[], List.map_eq_nil_iff.mp values, rfl⟩
  | cons binder binders ih =>
      obtain ⟨⟨_, span⟩, rest, rfl, rfl, inRest⟩ := List.map_eq_cons_iff.mp values
      obtain ⟨others, rfl, alike⟩ := ih inRest
      refine ⟨⟨binder.value, span⟩ :: others, rfl, ?_⟩
      rw [List.map_cons, List.map_cons, alike]
      rfl

theorem derives_lam {span : Span} {binder : Name} {binders : List Name} {body : Expr}
    (derives : ∀ tokens : List (Located Token), tokens.map Located.value = body.spelling →
      DerivesAlike Phrase tokens body)
    {tokens : List (Located Token)}
    (values : tokens.map Located.value = .symbol .lambda ::
      ((binder :: binders).map (fun binder => .ident binder.value) ++
        .symbol .dot :: body.spelling)) :
    DerivesAlike Phrase tokens (.lam span (binder :: binders) body) := by
  obtain ⟨⟨_, first⟩, rest, rfl, rfl, inRest⟩ := List.map_eq_cons_iff.mp values
  obtain ⟨names, rest, rfl, inNames, inRest⟩ := List.map_eq_append_iff.mp inRest
  obtain ⟨⟨_, dot⟩, tokens, rfl, rfl, inBody⟩ := List.map_eq_cons_iff.mp inRest
  obtain ⟨others, rfl, alike⟩ := exists_binders inNames
  obtain ⟨body', alikeBody, phrase⟩ := derives tokens inBody
  cases others with
  | nil => cases alike
  | cons other others =>
      refine ⟨_, ?_, .abstraction (.over first dot other others phrase)⟩
      rw [Expr.bare, Expr.bare, alike, alikeBody]

mutual

/-- The tokens of an expression that can be written derive it, wherever they stand. -/
theorem Expr.derives (e : Expr) (writable : e.isWritable = true)
    {tokens : List (Located Token)} (values : tokens.map Located.value = e.spelling) :
    DerivesAlike Closed tokens e := by
  match e with
  | .var _ name =>
      obtain ⟨⟨_, span⟩, rest, rfl, rfl, atEnd⟩ := List.map_eq_cons_iff.mp values
      rw [List.map_eq_nil_iff.mp atEnd]
      exact ⟨.var span ⟨name.value, span⟩, rfl, .ident ⟨name.value, span⟩⟩
  | .nat _ value =>
      obtain ⟨⟨_, span⟩, rest, rfl, rfl, atEnd⟩ := List.map_eq_cons_iff.mp values
      rw [List.map_eq_nil_iff.mp atEnd]
      exact ⟨.nat span value, rfl, .nat value span⟩
  | .lam _ [] body => cases writable
  | .lam _ (binder :: binders) body =>
      rw [isWritable, Bool.and_eq_true] at writable
      refine .grouped (fun tokens inside => ?_) values
      exact derives_lam (fun _ inBody => (body.derives writable.2 inBody).application.phrase) inside
  | .app _ function argument =>
      rw [isWritable, Bool.and_eq_true] at writable
      refine .grouped (fun tokens inside => ?_) values
      obtain ⟨first, second, rfl, inFirst, inSecond⟩ := List.map_eq_append_iff.mp inside
      obtain ⟨e, alike, application⟩ := (function.derives writable.1 inFirst).application
      obtain ⟨e', alike', closed⟩ := argument.derives writable.2 inSecond
      refine ⟨_, ?_, .application (.apply application closed)⟩
      rw [bare, bare, alike, alike']
  | .tuple _ elements =>
      rw [isWritable, Bool.and_eq_true] at writable
      obtain ⟨first, middle, last, inside, rfl⟩ := exists_of_bracketed values
      have several : 2 ≤ elements.length := of_decide_eq_true writable.1
      have some : elements ≠ [] := List.ne_nil_of_length_pos (by omega)
      obtain ⟨others, alike, derived⟩ := derivesAll elements some writable.2 inside
      have sameLength : others.length = elements.length := by
        rw [← length_bareAll, alike, length_bareAll]
      match others, sameLength with
      | [], same => simp at same; omega
      | [_], same => simp at same; omega
      | element :: other :: others, _ =>
          refine ⟨_, ?_, .tuple first last derived⟩
          rw [bare, bare, alike]
  | .list _ [] =>
      obtain ⟨first, middle, last, inside, rfl⟩ := exists_of_bracketed values
      rw [List.map_eq_nil_iff.mp inside]
      exact ⟨.list ⟨first.start, last.stop⟩ [], rfl, .empty first last⟩
  | .list _ (element :: elements) =>
      obtain ⟨first, middle, last, inside, rfl⟩ := exists_of_bracketed values
      obtain ⟨others, alike, derived⟩ :=
        derivesAll (element :: elements) (List.cons_ne_nil _ _) writable inside
      refine ⟨_, ?_, .list first last derived⟩
      rw [bare, bare, alike]
  | .cons _ head tail =>
      rw [isWritable, Bool.and_eq_true] at writable
      refine .grouped (fun tokens inside => ?_) values
      obtain ⟨first, second, rfl, inFirst, inSecond⟩ := List.map_eq_append_iff.mp inside
      obtain ⟨⟨_, span⟩, rest, rfl, rfl, inRest⟩ := List.map_eq_cons_iff.mp inSecond
      obtain ⟨e, alike, application⟩ := (head.derives writable.1 inFirst).application
      obtain ⟨e', alike', phrase⟩ := (tail.derives writable.2 inRest).application.phrase
      refine ⟨_, ?_, .cons span application phrase⟩
      rw [bare, bare, alike, alike']

theorem Expr.derivesAll (elements : List Expr) (some : elements ≠ [])
    (writable : allWritable elements = true) {tokens : List (Located Token)}
    (values : tokens.map Located.value = spellingAll elements) :
    ∃ others, bareAll others = bareAll elements ∧ Elements tokens others := by
  match elements with
  | [] => exact absurd rfl some
  | [element] =>
      rw [allWritable, Bool.and_eq_true] at writable
      obtain ⟨e, alike, phrase⟩ := (element.derives writable.1 values).application.phrase
      exact ⟨[e], by rw [bareAll, alike]; rfl, .last phrase⟩
  | element :: other :: others =>
      rw [allWritable, Bool.and_eq_true] at writable
      obtain ⟨first, second, rfl, inFirst, inSecond⟩ := List.map_eq_append_iff.mp values
      obtain ⟨⟨_, span⟩, rest, rfl, rfl, inRest⟩ := List.map_eq_cons_iff.mp inSecond
      obtain ⟨e, alike, phrase⟩ := (element.derives writable.1 inFirst).application.phrase
      obtain ⟨es, alikeRest, derived⟩ :=
        derivesAll (other :: others) (List.cons_ne_nil _ _) writable.2 inRest
      exact ⟨e :: es, by rw [bareAll, bareAll, alike, alikeRest], .next span phrase derived⟩

end

theorem Statement.derives (statement : Statement) (writable : statement.isWritable = true)
    {tokens : List (Located Token)} (values : tokens.map Located.value = statement.spelling)
    (after : List (Located Token)) :
    ∃ statement', statement'.bare = statement.bare ∧
      Grammar.Sentence Grammar.phrases tokens after statement' := by
  cases statement with
  | term body =>
      obtain ⟨e, alike, phrase⟩ := (body.derives writable values).application.phrase
      exact ⟨.term e, congrArg Statement.term alike, .term phrase⟩
  | define name body =>
      rw [isWritable, Bool.and_eq_true] at writable
      obtain ⟨⟨_, span⟩, rest, rfl, rfl, inRest⟩ := List.map_eq_cons_iff.mp values
      obtain ⟨⟨_, sign⟩, tokens, rfl, rfl, inBody⟩ := List.map_eq_cons_iff.mp inRest
      obtain ⟨e, alike, phrase⟩ := (body.derives writable.2 inBody).application.phrase
      refine ⟨.define ⟨name.value, span⟩ e, ?_, .define ⟨name.value, span⟩ sign phrase⟩
      rw [bare, bare, alike]
      rfl

theorem Statement.derivesAll (statements : List Statement) (some : statements ≠ [])
    (writable : ∀ statement ∈ statements, statement.isWritable = true)
    {tokens : List (Located Token)} (values : tokens.map Located.value = spellingAll statements) :
    ∃ statements', statements'.map bare = statements.map bare ∧
      Grammar.Sentences Grammar.phrases tokens [] statements' := by
  induction statements generalizing tokens with
  | nil => exact absurd rfl some
  | cons statement statements ih =>
      have first := writable statement List.mem_cons_self
      cases statements with
      | nil =>
          obtain ⟨statement', alike, sentence⟩ := statement.derives first values []
          exact ⟨[statement'], congrArg (fun bare => [bare]) alike, .one sentence⟩
      | cons other others =>
          obtain ⟨before, rest, rfl, inFirst, inRest⟩ := List.map_eq_append_iff.mp values
          obtain ⟨⟨_, span⟩, after, rfl, rfl, inOthers⟩ := List.map_eq_cons_iff.mp inRest
          obtain ⟨statement', alike, sentence⟩ := statement.derives first inFirst
            (Symbol.semicolon.at span :: after ++ [])
          obtain ⟨others', alikeOthers, sentences⟩ := ih (List.cons_ne_nil _ _)
            (fun statement member => writable statement (List.mem_cons_of_mem _ member)) inOthers
          refine ⟨statement' :: others', ?_, .more span sentence sentences⟩
          rw [List.map_cons, List.map_cons, alike, alikeOthers]

/-! ### Reading the text back -/

theorem Expr.parseTerm_render (e : Expr) (writable : e.isWritable = true) :
    ∃ e', parseTerm e.render = .ok e' ∧ e'.bare = e.bare := by
  obtain ⟨tokens, tokenized, values⟩ := (e.scans_text writable).tokenize
  rw [List.append_nil, String.ofList_toList] at tokenized
  obtain ⟨e', alike, phrase⟩ := (e.derives writable values).application.phrase
  refine ⟨e', ?_, alike⟩
  simp only [parseTerm, tokenized, bind, Except.bind]
  exact phrase.readExpr _

theorem Statement.parseProgram_join (statements : List Statement)
    (writable : ∀ statement ∈ statements, statement.isWritable = true) :
    ∃ statements', parseProgram (join statements) = .ok statements' ∧
      statements'.map bare = statements.map bare := by
  obtain ⟨tokens, tokenized, values⟩ := (scans_join statements writable).tokenize
  rw [List.append_nil, String.ofList_toList] at tokenized
  obtain ⟨statements', alike, program⟩ : ∃ statements', statements'.map bare =
      statements.map bare ∧ Grammar.Program Grammar.phrases tokens statements' := by
    by_cases none : statements = []
    · subst none
      rw [List.map_eq_nil_iff.mp values]
      exact ⟨[], rfl, .empty⟩
    · obtain ⟨statements', alike, sentences⟩ := derivesAll statements none writable values
      exact ⟨statements', alike, .sentences sentences⟩
  refine ⟨statements', ?_, alike⟩
  simp only [parseProgram, tokenized, bind, Except.bind]
  exact (readProgram_eq_ok_iff _ _ _).mpr program

theorem Statement.parseProgram_render (statement : Statement)
    (writable : statement.isWritable = true) :
    ∃ statement', parseProgram statement.render = .ok [statement'] ∧
      statement'.bare = statement.bare := by
  obtain ⟨statements', parsed, alike⟩ := parseProgram_join [statement] fun _ member =>
    List.mem_singleton.mp member ▸ writable
  obtain ⟨statement', rest, rfl, first, none⟩ := List.map_eq_cons_iff.mp alike
  rw [List.map_nil, List.map_eq_nil_iff] at none
  subst none
  exact ⟨statement', parsed, first⟩

/-- Surface syntax that is written as text is read back from it, at other places. Whatever is read
can be written: its names are identifiers, its numbers fit, no abstraction lacks binders and no
tuple has fewer than two elements. -/
theorem printed_syntax_reads_back :
    (∀ e : Expr, e.isWritable = true → ∃ e', parseTerm e.render = .ok e' ∧ e'.bare = e.bare) ∧
    (∀ source e, parseTerm source = .ok e → e.isWritable = true) ∧
    (∀ source statements, parseProgram source = .ok statements →
      ∀ statement ∈ statements, statement.isWritable = true) ∧
    ∀ statements : List Statement, (∀ statement ∈ statements, statement.isWritable = true) →
      ∃ statements', parseProgram (String.intercalate ";" (statements.map Statement.render)) =
          .ok statements' ∧
        statements'.map Statement.bare = statements.map Statement.bare :=
  ⟨Expr.parseTerm_render, fun _ _ => isWritable_of_parseTerm,
    fun _ _ => isWritable_of_parseProgram, Statement.parseProgram_join⟩

/-- Binders in one list stay apart from binders in two. -/
theorem nested_syntax_reads_back :
    let name (text : String) : Name := ⟨text, default⟩
    let occurrence (text : String) : Expr := .var default (name text)
    let statements : List Statement :=
      [.define (name "f") (.lam default [name "x", name "y"]
          (.cons default (occurrence "x") (.list default
            [.nat default 0, .tuple default [occurrence "y", .nat default 12]]))),
        .term (.app default (occurrence "f")
          (.lam default [name "x"] (.lam default [name "y"] (occurrence "x"))))]
    let text := "f := (λx y. (x :: [0, <y, 12>]));(f (λx. (λy. x)))"
    String.intercalate ";" (statements.map Statement.render) = text ∧
      ∃ statements', parseProgram text = .ok statements' ∧
        statements'.map Statement.bare = statements.map Statement.bare := by
  intro name occurrence statements text
  have printed : String.intercalate ";" (statements.map Statement.render) = text := by decide
  refine ⟨printed, ?_⟩
  rw [← printed]
  exact printed_syntax_reads_back.2.2.2 statements (by decide)

end UntypedLambda.Surface
