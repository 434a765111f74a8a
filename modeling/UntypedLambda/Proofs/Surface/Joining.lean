import UntypedLambda.Proofs.Surface.Relocation
import UntypedLambda.Proofs.Surface.Tokenization

set_option autoImplicit false

/-! Sources one after another. A line break ends whatever a source ends with, so the tokens of two
sources with a line break between them are those of the one and then those of the other. With a
semicolon after the line break, so are the statements of two programs. -/

namespace UntypedLambda.Surface

/-! ### Pieces one after another -/

theorem Lexed.append {offset : Nat} {text rest after : List Char}
    {tokens others : List (Located Token)} (first : Lexed offset text (rest ++ after) tokens)
    (second : Lexed (offset + text.length) rest after others) :
    Lexed offset (text ++ rest) after (tokens ++ others) := by
  generalize follows : rest ++ after = following at first
  induction first with
  | nothing => exact second
  | skip skipped _ ih =>
      subst follows
      rw [List.length_append, ← Nat.add_assoc] at second
      rw [← List.append_assoc] at skipped
      rw [List.append_assoc]
      exact .skip skipped (ih second rfl)
  | token lexeme _ ih =>
      subst follows
      rw [List.length_append, ← Nat.add_assoc] at second
      rw [← List.append_assoc] at lexeme
      rw [List.append_assoc]
      exact .token lexeme (ih second rfl)

/-- A line break ends a text, and the text after it begins anew. -/
theorem Lexed.append_newline {text rest after : List Char} {tokens others : List (Located Token)}
    (first : Lexed 0 text [] tokens) (second : Lexed 0 rest after others) :
    Lexed 0 (text ++ '\n' :: rest) after
      (tokens ++ others.map (Located.moved (· + (text.length + 1)))) := by
  have alike : EndsAlike [] ('\n' :: rest ++ after) := fun c head => by
    cases head
    exact Or.inl rfl
  have shifts (length : Nat) : 0 + length + (text.length + 1) = 0 + (text.length + 1) + length := by
    omega
  have later := second.moved (· + (text.length + 1)) shifts
  have lineBreak : Skipped ['\n'] (rest ++ after) := .blank '\n' (by decide)
  have begun : Lexed (0 + text.length) (['\n'] ++ rest) after
      (others.map (Located.moved (· + (text.length + 1)))) := .skip lineBreak (by simpa using later)
  exact Lexed.append (first.before alike) begun

theorem Fails.elsewhere {offset : Nat} {text : List Char} {error : SourceError}
    (fails : Fails offset text error) (offset' : Nat) : ∃ error', Fails offset' text error' := by
  cases fails with
  | stray c rest stray => exact ⟨_, .stray c rest stray⟩
  | colon c rest notCons notDefine => exact ⟨_, .colon c rest notCons notDefine⟩
  | lastColon => exact ⟨_, .lastColon⟩
  | tooLarge value run large => exact ⟨_, .tooLarge value run large⟩

/-- A line break makes nothing of what no piece goes on with. -/
theorem Fails.append_newline {offset : Nat} {text : List Char} {error : SourceError}
    (fails : Fails offset text error) (rest : List Char) :
    ∃ error', Fails offset (text ++ '\n' :: rest) error' := by
  cases fails with
  | stray c others stray => exact ⟨_, .stray c (others ++ '\n' :: rest) stray⟩
  | colon c others notCons notDefine =>
      exact ⟨_, .colon c (others ++ '\n' :: rest) notCons notDefine⟩
  | lastColon => exact ⟨_, .colon '\n' rest (by decide) (by decide)⟩
  | @tooLarge others value run large =>
      have alike : EndsAlike others (others ++ '\n' :: rest) := by
        cases others with
        | nil =>
            intro c head
            cases head
            exact Or.inl rfl
        | cons c others => exact fun _ head => Or.inr head
      rw [List.append_assoc]
      exact ⟨_, .tooLarge value (run.before alike) large⟩

theorem Fails.ne_nil {offset : Nat} {text : List Char} {error : SourceError}
    (fails : Fails offset text error) : text ≠ [] := by
  cases fails with
  | stray c rest stray => exact List.cons_ne_nil _ _
  | colon c rest notCons notDefine => exact List.cons_ne_nil _ _
  | lastColon => exact List.cons_ne_nil _ _
  | tooLarge value run large =>
      intro none
      obtain ⟨c, first, _⟩ := run.first
      rw [(List.append_eq_nil_iff.mp none).1] at first
      cases first

/-! ### Sources one after another -/

theorem toList_newline (first second : String) :
    (first ++ "\n" ++ second).toList = first.toList ++ '\n' :: second.toList := by
  simp

theorem tokenize_newline {first second : String} {tokens others : List (Located Token)}
    (inFirst : tokenize first = .ok tokens) (inSecond : tokenize second = .ok others) :
    tokenize (first ++ "\n" ++ second) =
      .ok (tokens ++ others.map (Located.moved (· + (first.length + 1)))) := by
  rw [tokenize_eq_ok_iff] at inFirst inSecond ⊢
  rw [toList_newline]
  exact inFirst.append_newline inSecond

theorem tokenize_newline_of_error {first : String} {error : SourceError}
    (failed : tokenize first = .error error) (second : String) :
    ∃ error', tokenize (first ++ "\n" ++ second) = .error error' := by
  obtain ⟨before, failing, tokens, split, lexed, fails⟩ := exists_of_tokenize_eq_error failed
  obtain ⟨error', fails'⟩ := fails.append_newline second.toList
  have alike : EndsAlike failing (failing ++ '\n' :: second.toList) := by
    obtain ⟨c, rest, rfl⟩ := List.exists_cons_of_ne_nil fails.ne_nil
    exact fun _ head => Or.inr head
  refine ⟨error', tokenize_of_fails ?_ (lexed.before alike) fails'⟩
  rw [toList_newline, split, List.append_assoc]

theorem newline_tokenize_of_error {first second : String} {tokens : List (Located Token)}
    {error : SourceError} (inFirst : tokenize first = .ok tokens)
    (failed : tokenize second = .error error) :
    ∃ error', tokenize (first ++ "\n" ++ second) = .error error' := by
  rw [tokenize_eq_ok_iff] at inFirst
  obtain ⟨before, failing, others, split, lexed, fails⟩ := exists_of_tokenize_eq_error failed
  obtain ⟨error', fails'⟩ := fails.elsewhere (first.toList ++ '\n' :: before).length
  refine ⟨error', tokenize_of_fails ?_ (inFirst.append_newline lexed) fails'⟩
  rw [toList_newline, split, List.append_assoc]
  rfl

theorem tokenize_newline_isOk_iff (first second : String) :
    (∃ tokens, tokenize (first ++ "\n" ++ second) = .ok tokens) ↔
      (∃ tokens, tokenize first = .ok tokens) ∧ ∃ tokens, tokenize second = .ok tokens := by
  constructor
  · rintro ⟨whole, tokenized⟩
    cases inFirst : tokenize first with
    | error error =>
        obtain ⟨error', failed⟩ := tokenize_newline_of_error inFirst second
        rw [failed] at tokenized
        cases tokenized
    | ok tokens =>
        refine ⟨⟨tokens, rfl⟩, ?_⟩
        cases inSecond : tokenize second with
        | error error =>
            obtain ⟨error', failed⟩ := newline_tokenize_of_error inFirst inSecond
            rw [failed] at tokenized
            cases tokenized
        | ok others => exact ⟨others, rfl⟩
  · rintro ⟨⟨tokens, inFirst⟩, others, inSecond⟩
    exact ⟨_, tokenize_newline inFirst inSecond⟩

/-! ### Programs one after another -/

namespace Grammar

theorem Sentences.before {tokens after : List (Located Token)} {statements : List Statement}
    (sentences : Sentences phrases tokens after statements) (other : List (Located Token)) :
    Sentences phrases tokens other statements := by
  induction sentences with
  | one sentence => exact .one (sentence.before other)
  | more span sentence _ ih => exact .more span (sentence.before _) ih

theorem Sentences.append {tokens rest after after' : List (Located Token)}
    {statements others : List Statement} (first : Sentences phrases tokens after statements)
    (span : Span) (second : Sentences phrases rest after' others) :
    Sentences phrases (tokens ++ Symbol.semicolon.at span :: rest) after'
      (statements ++ others) := by
  induction first with
  | one sentence => exact .more span (sentence.before _) second
  | more span' sentence _ ih =>
      rw [List.append_assoc, List.cons_append]
      exact .more span' (sentence.before _) ih

theorem Sentences.append_program {tokens rest after : List (Located Token)}
    {statements others : List Statement} (first : Sentences phrases tokens after statements)
    (span : Span) (program : Program phrases rest others) :
    Program phrases (tokens ++ Symbol.semicolon.at span :: rest) (statements ++ others) := by
  cases program with
  | empty =>
      rw [List.append_nil]
      exact .trailing span (first.before _)
  | sentences second => exact .sentences (first.append span second)
  | trailing span' second =>
      have whole := Program.trailing span' (first.append span second)
      rwa [List.append_assoc] at whole

/-- A program with statements and without a semicolon at its end. -/
theorem Program.sentences_of_last {tokens : List (Located Token)} {statements : List Statement}
    (program : Program phrases tokens statements) (several : statements ≠ [])
    (last : ∀ token ∈ tokens.getLast?, token.value ≠ .symbol .semicolon) :
    Sentences phrases tokens [] statements := by
  cases program with
  | empty => exact absurd rfl several
  | sentences sentences => exact sentences
  | trailing span sentences =>
      exact absurd rfl (last (Symbol.semicolon.at span) List.getLast?_concat)

end Grammar

theorem parseProgram_eq_ok_iff {source : String} {tokens : List (Located Token)}
    (tokenized : tokenize source = .ok tokens) (statements : List Statement) :
    parseProgram source = .ok statements ↔ Grammar.Program Grammar.phrases tokens statements := by
  rw [← readProgram_eq_ok_iff tokens (endSpan source), parseProgram, tokenized]
  rfl

theorem tokenize_semicolon {source : String} {tokens : List (Located Token)}
    (tokenized : tokenize source = .ok tokens) :
    tokenize (";" ++ source) =
      .ok (Symbol.semicolon.at ⟨0, 1⟩ :: tokens.map (Located.moved (· + 1))) := by
  rw [tokenize_eq_ok_iff] at tokenized ⊢
  have later := tokenized.moved (· + 1) fun length => by omega
  rw [String.toList_append]
  exact .token (.symbol .semicolon) later

/-- Tokens of two sources that a line break joins are those of both, and joined sources have tokens
only if both do. Two programs that a line break and a semicolon join are the statements of both. -/
theorem newline_separates_sources :
    (∀ first second : String,
      ((∃ tokens, tokenize (first ++ "\n" ++ second) = .ok tokens) ↔
        (∃ tokens, tokenize first = .ok tokens) ∧ ∃ tokens, tokenize second = .ok tokens) ∧
      ∀ tokens others, tokenize first = .ok tokens → tokenize second = .ok others →
        tokenize (first ++ "\n" ++ second) =
          .ok (tokens ++ others.map (Located.moved (· + (first.length + 1))))) ∧
    ∀ (first second : String) (tokens : List (Located Token)) (statements others : List Statement),
      tokenize first = .ok tokens →
      (∀ last ∈ tokens.getLast?, last.value ≠ .symbol .semicolon) →
      parseProgram first = .ok statements → statements ≠ [] → parseProgram second = .ok others →
      parseProgram (first ++ "\n" ++ ";" ++ second) =
        .ok (statements ++ others.map (Statement.moved (· + (first.length + 2)))) := by
  refine ⟨fun first second => ⟨tokenize_newline_isOk_iff first second,
    fun tokens others => tokenize_newline⟩, ?_⟩
  intro first second tokens statements others inFirst last parsedFirst several parsedSecond
  obtain ⟨tokens', inSecond, read⟩ := Except.exists_of_bind parsedSecond
  have tokenized := tokenize_newline inFirst (tokenize_semicolon inSecond)
  rw [← String.append_assoc] at tokenized
  rw [parseProgram_eq_ok_iff tokenized]
  have sentences := ((parseProgram_eq_ok_iff inFirst statements).mp parsedFirst).sentences_of_last
    several last
  have monotone : Monotone (· + (first.length + 2)) := fun _ _ le => Nat.add_le_add_right le _
  have program := ((parseProgram_eq_ok_iff inSecond others).mp parsedSecond).moved monotone
  have twice : (· + (first.length + 1)) ∘ (· + 1) = (· + (first.length + 2)) := by
    funext place
    simp only [Function.comp_apply]
    omega
  have same : (tokens'.map (Located.moved (· + 1))).map (Located.moved (· + (first.length + 1))) =
      tokens'.map (Located.moved (· + (first.length + 2))) := by
    rw [List.map_map, ← twice]
    rfl
  rw [List.map_cons, same]
  exact sentences.append_program _ program

/-- The comment at the end of the first source hides neither the line break nor what follows, and
its number does not go on with the digits of the second. -/
theorem lines_after_a_comment :
    ∃ tokens others statements statements', tokenize "f := λx.x 1 # ;" = .ok tokens ∧
      tokenize "23 f;" = .ok others ∧
      tokenize "f := λx.x 1 # ;\n23 f;" =
        .ok (tokens ++ others.map (Located.moved (· + 16))) ∧
      parseProgram "f := λx.x 1 # ;" = .ok statements ∧ parseProgram "23 f;" = .ok statements' ∧
      parseProgram "f := λx.x 1 # ;\n;23 f;" =
        .ok (statements ++ statements'.map (Statement.moved (· + 17))) := by
  obtain ⟨tokens, inFirst⟩ : ∃ tokens, tokenize "f := λx.x 1 # ;" = .ok tokens := ⟨_, rfl⟩
  obtain ⟨others, inSecond⟩ : ∃ tokens, tokenize "23 f;" = .ok tokens := ⟨_, rfl⟩
  obtain ⟨statements, parsed⟩ :
      ∃ statements, parseProgram "f := λx.x 1 # ;" = .ok statements := ⟨_, rfl⟩
  obtain ⟨statements', parsed'⟩ : ∃ statements, parseProgram "23 f;" = .ok statements := ⟨_, rfl⟩
  have several : statements ≠ [] := by
    cases parsed
    exact List.cons_ne_nil _ _
  have last : ∀ last ∈ tokens.getLast?, last.value ≠ .symbol .semicolon := by
    cases inFirst
    decide
  have size : "f := λx.x 1 # ;".length = 15 := rfl
  have joined := (newline_separates_sources.1 _ _).2 tokens others inFirst inSecond
  have program := newline_separates_sources.2 _ _ tokens statements statements' inFirst last
    parsed several parsed'
  rw [size] at joined program
  exact ⟨tokens, others, statements, statements', inFirst, inSecond, joined, parsed, parsed',
    program⟩

end UntypedLambda.Surface
