import Mathlib.Data.List.TakeWhile
import UntypedLambda.Proofs.Surface.Lexemes
import UntypedLambda.Proofs.Surface.Places

set_option autoImplicit false

/-! Every source is pieces up to its end, or up to where a scan fails. So what is tokenized is known
from the pieces alone: each token is the text at its place, nothing but blanks and comments stands
between the tokens, and an error is at the first character that no piece goes on with. -/

namespace UntypedLambda.Surface

/-! ### Every text is pieces -/

inductive Beginning (offset : Nat) (cs : List Char) : Prop where
  | skipped (gap rest : List Char) : cs = gap ++ rest → gap ≠ [] → Skipped gap rest →
      Beginning offset cs
  | lexeme (token : Token) (text rest : List Char) : cs = text ++ rest →
      Lexeme token text rest → Beginning offset cs
  | fails (error : SourceError) : Fails offset cs error → Beginning offset cs

theorem head?_dropWhile_eq_false (p : Char → Bool) (cs : List Char) :
    ∀ c ∈ (cs.dropWhile p).head?, p c = false := by
  intro c head
  have stops := List.head?_dropWhile_not p cs
  rw [head] at stops
  exact stops

theorem beginning_hash (offset : Nat) (rest : List Char) : Beginning offset ('#' :: rest) := by
  have inLine : '\n' ∉ rest.takeWhile (· != '\n') := by
    intro member
    simpa using List.mem_takeWhile_imp member
  have ends : ∀ c ∈ (rest.dropWhile (· != '\n')).head?, c = '\n' := by
    intro c head
    simpa using head?_dropWhile_eq_false (· != '\n') rest c head
  refine .skipped ('#' :: rest.takeWhile (· != '\n')) _ ?_ (List.cons_ne_nil _ _)
    (.comment _ inLine ends)
  rw [List.cons_append, List.takeWhile_append_dropWhile]

theorem beginning_colon (offset : Nat) (rest : List Char) : Beginning offset (':' :: rest) := by
  cases rest with
  | nil => exact .fails _ .lastColon
  | cons c rest =>
      by_cases cons : c = ':'
      · exact .lexeme _ [':', ':'] rest (by rw [cons]; rfl) (.symbol .cons)
      · by_cases define : c = '='
        · exact .lexeme _ [':', '='] rest (by rw [define]; rfl) (.symbol .define)
        · exact .fails _ (.colon c rest cons define)

theorem beginning_digit (offset : Nat) {c : Char} (rest : List Char) (digit : c.isDigit = true)
    (different : c ≠ '0') : Beginning offset (c :: rest) := by
  have run : DigitRun (c :: rest.takeWhile Char.isDigit) (rest.dropWhile Char.isDigit) := by
    refine ⟨⟨c, rfl, different⟩, ?_, head?_dropWhile_eq_false Char.isDigit rest⟩
    intro d member
    rcases List.mem_cons.mp member with rfl | later
    · exact digit
    · exact List.mem_takeWhile_imp later
  obtain ⟨value, _, text⟩ := exists_toDigits run.digits run.first
  have split : c :: rest = (toString value).toList ++ rest.dropWhile Char.isDigit := by
    rw [toList_toString, text, List.cons_append, List.takeWhile_append_dropWhile]
  rw [← text, ← toList_toString] at run
  by_cases fits : value < numberBound
  · exact .lexeme _ _ _ split (.number value run fits)
  · have large : Fails offset _ _ := .tooLarge value run (Nat.le_of_not_lt fits)
    rw [← split] at large
    exact .fails _ large

theorem beginning_letter (offset : Nat) {c : Char} (rest : List Char)
    (letter : isNameStart c = true) : Beginning offset (c :: rest) := by
  have identifier : isIdentifier (String.ofList (c :: rest.takeWhile isNamePart)) = true := by
    rw [isIdentifier, String.toList_ofList]
    simp [letter]
  have lexeme := Lexeme.identifier _ identifier (head?_dropWhile_eq_false isNamePart rest)
  rw [String.toList_ofList] at lexeme
  refine .lexeme _ _ _ ?_ lexeme
  rw [List.cons_append, List.takeWhile_append_dropWhile]

theorem beginning (offset : Nat) (c : Char) (rest : List Char) :
    Beginning offset (c :: rest) := by
  by_cases starts : CanStart c
  · rcases (canStart_iff c).mp starts with blank | rfl | rfl | rfl | letter | spelled | digit
    · exact .skipped [c] rest rfl (List.cons_ne_nil _ _) (.blank c blank)
    · exact beginning_hash offset rest
    · exact beginning_colon offset rest
    · exact .lexeme _ ['0'] rest rfl .zero
    · exact beginning_letter offset rest letter
    · obtain ⟨symbol, spelled⟩ := Option.isSome_iff_exists.mp spelled
      exact .lexeme _ [c] rest rfl (.symbol_of_ofChar? spelled)
    · by_cases zero : c = '0'
      · exact .lexeme (.nat 0) [c] rest rfl (zero ▸ .zero)
      · exact beginning_digit offset rest digit zero
  · exact .fails _ (.stray c rest starts)

/-- Every text is pieces up to its end or to a place where none goes on. -/
theorem exists_lexed (offset : Nat) (cs : List Char) :
    ∃ before failing tokens, cs = before ++ failing ∧ Lexed offset before failing tokens ∧
      (failing = [] ∨ ∃ error, Fails (offset + before.length) failing error) := by
  -- By induction on the length: a piece is not empty, so what follows it is shorter.
  induction size : cs.length using Nat.strong_induction_on generalizing offset cs with
  | _ size ih =>
      subst size
      cases cs with
      | nil => exact ⟨[], [], [], rfl, .nothing, Or.inl rfl⟩
      | cons c rest =>
          cases beginning offset c rest with
          | skipped gap rest' split several skipped =>
              have pos := List.length_pos_iff.mpr several
              obtain ⟨before, failing, tokens, rfl, lexed, ends⟩ :=
                ih rest'.length (by rw [split, List.length_append]; omega)
                  (offset + gap.length) rest' rfl
              refine ⟨gap ++ before, failing, tokens, ?_, .skip skipped lexed, ?_⟩
              · rw [split, List.append_assoc]
              · rwa [List.length_append, ← Nat.add_assoc]
          | lexeme token text rest' split lexeme =>
              have pos := List.length_pos_iff.mpr lexeme.ne_nil
              obtain ⟨before, failing, tokens, rfl, lexed, ends⟩ :=
                ih rest'.length (by rw [split, List.length_append]; omega)
                  (offset + text.length) rest' rfl
              refine ⟨text ++ before, failing, _, ?_, .token lexeme lexed, ?_⟩
              · rw [split, List.append_assoc]
              · rwa [List.length_append, ← Nat.add_assoc]
          | fails error fails => exact ⟨[], c :: rest, [], rfl, .nothing, Or.inr ⟨error, fails⟩⟩

/-! ### Tokens and errors from pieces -/

theorem tokenize_of_lexed {source : String} {tokens : List (Located Token)}
    (lexed : Lexed 0 source.toList [] tokens) : tokenize source = .ok tokens := by
  have nothing : Scan.start.pending = .nothing := rfl
  have read := lexed.finish nothing rfl
  rw [List.append_nil] at read
  rw [Scan.tokenize_eq, read]
  change Except.ok (tokens.reverse ++ []).reverse = _
  rw [List.append_nil, List.reverse_reverse]

theorem tokenize_of_fails {source : String} {before failing : List Char}
    {tokens : List (Located Token)} {error : SourceError}
    (split : source.toList = before ++ failing) (lexed : Lexed 0 before failing tokens)
    (fails : Fails before.length failing error) : tokenize source = .error error := by
  have nothing : Scan.start.pending = .nothing := rfl
  have read := lexed.finish nothing rfl
  have failed : (Scan.start.further before.length tokens).finish failing = .error error :=
    fails.finish rfl (Nat.zero_add before.length)
  rw [Scan.tokenize_eq, split, read, failed]
  rfl

theorem tokenize_eq_ok_iff (source : String) (tokens : List (Located Token)) :
    tokenize source = .ok tokens ↔ Lexed 0 source.toList [] tokens := by
  refine ⟨fun tokenized => ?_, tokenize_of_lexed⟩
  obtain ⟨before, failing, others, split, lexed, rfl | ⟨error, fails⟩⟩ :=
    exists_lexed 0 source.toList
  · rw [List.append_nil] at split
    rw [← split] at lexed
    rw [tokenize_of_lexed lexed] at tokenized
    cases tokenized
    exact lexed
  · rw [Nat.zero_add] at fails
    rw [tokenize_of_fails split lexed fails] at tokenized
    cases tokenized

theorem exists_of_tokenize_eq_error {source : String} {error : SourceError}
    (failed : tokenize source = .error error) :
    ∃ before failing tokens, source.toList = before ++ failing ∧
      Lexed 0 before failing tokens ∧ Fails before.length failing error := by
  obtain ⟨before, failing, tokens, split, lexed, rfl | ⟨error', fails⟩⟩ :=
    exists_lexed 0 source.toList
  · rw [List.append_nil] at split
    rw [← split] at lexed
    rw [tokenize_of_lexed lexed] at failed
    cases failed
  · rw [Nat.zero_add] at fails
    rw [tokenize_of_fails split lexed fails] at failed
    cases failed
    exact ⟨before, failing, tokens, split, lexed, fails⟩

/-! ### Places of tokens -/

namespace Lexed

variable {offset : Nat} {text after : List Char} {tokens : List (Located Token)}

theorem inOrder (lexed : Lexed offset text after tokens) :
    Span.InOrder (offset + text.length) offset (tokens.map Located.span) := by
  induction lexed with
  | nothing => exact Nat.le_refl _
  | @skip offset gap rest after tokens skipped _ ih =>
      rw [List.length_append, ← Nat.add_assoc]
      exact ih.widen (Nat.le_add_right offset gap.length) (Nat.le_refl _)
  | @token offset value text rest after tokens lexeme _ ih =>
      have pos := List.length_pos_iff.mpr lexeme.ne_nil
      rw [List.length_append, ← Nat.add_assoc]
      exact ⟨Nat.le_refl offset, Nat.lt_add_of_pos_right pos, ih⟩

/-- From where a token starts, the text is the pieces from that token on. -/
theorem exists_start (lexed : Lexed offset text after tokens)
    {before rest : List (Located Token)} {token : Located Token}
    (split : tokens = before ++ token :: rest) :
    ∃ first last, text = first ++ last ∧ token.span.start = offset + first.length ∧
      Lexed (offset + first.length) last after (token :: rest) := by
  induction lexed generalizing before with
  | nothing => simp at split
  | @skip offset gap text after tokens _ _ ih =>
      obtain ⟨first, last, rfl, place, lexed⟩ := ih split
      refine ⟨gap ++ first, last, (List.append_assoc ..).symm, ?_, ?_⟩
      · rw [place, List.length_append, Nat.add_assoc]
      · rwa [List.length_append, ← Nat.add_assoc]
  | @token offset value text rest' after tokens lexeme later ih =>
      cases before with
      | nil =>
          cases split
          exact ⟨[], text ++ rest', rfl, rfl, .token lexeme later⟩
      | cons head before =>
          cases split
          obtain ⟨first, last, rfl, place, lexed⟩ := ih rfl
          refine ⟨text ++ first, last, (List.append_assoc ..).symm, ?_, ?_⟩
          · rw [place, List.length_append, Nat.add_assoc]
          · rwa [List.length_append, ← Nat.add_assoc]

/-- Up to where a token stops, the text is the pieces up to that token. -/
theorem exists_stop (lexed : Lexed offset text after tokens)
    {before rest : List (Located Token)} {token : Located Token}
    (split : tokens = before ++ token :: rest) :
    ∃ first last, text = first ++ last ∧ token.span.stop = offset + first.length ∧
      Lexed offset first (last ++ after) (before ++ [token]) := by
  induction lexed generalizing before with
  | nothing => simp at split
  | @skip offset gap text after tokens skipped _ ih =>
      obtain ⟨first, last, rfl, place, lexed⟩ := ih split
      refine ⟨gap ++ first, last, (List.append_assoc ..).symm, ?_, ?_⟩
      · rw [place, List.length_append, Nat.add_assoc]
      · rw [List.append_assoc] at skipped
        exact .skip skipped lexed
  | @token offset value text rest' after tokens lexeme later ih =>
      cases before with
      | nil =>
          cases split
          have only : Lexed offset (text ++ []) (rest' ++ after) _ := .token lexeme .nothing
          rw [List.append_nil] at only
          exact ⟨text, rest', rfl, rfl, only⟩
      | cons head before =>
          cases split
          obtain ⟨first, last, rfl, place, lexed⟩ := ih rfl
          refine ⟨text ++ first, last, (List.append_assoc ..).symm, ?_, ?_⟩
          · rw [place, List.length_append, Nat.add_assoc]
          · rw [List.append_assoc] at lexeme
            exact .token lexeme lexed

/-- A token has the text at its place. -/
theorem exists_lexeme (lexed : Lexed offset text after tokens) {token : Located Token}
    (member : token ∈ tokens) :
    ∃ first inner last, text ++ after = first ++ (inner ++ last) ∧
      token.span = ⟨offset + first.length, offset + first.length + inner.length⟩ ∧
      Lexeme token.value inner last := by
  induction lexed with
  | nothing => cases member
  | @skip offset gap rest after tokens skipped _ ih =>
      obtain ⟨first, inner, last, split, place, lexeme⟩ := ih member
      refine ⟨gap ++ first, inner, last, ?_, ?_, lexeme⟩
      · rw [List.append_assoc, split, List.append_assoc]
      · rw [place, List.length_append, Nat.add_assoc offset]
  | @token offset value text rest after tokens lexeme _ ih =>
      rcases List.mem_cons.mp member with rfl | later
      · exact ⟨[], text, rest ++ after, List.append_assoc .., rfl, lexeme⟩
      · obtain ⟨first, inner, last, split, place, lexeme⟩ := ih later
        refine ⟨text ++ first, inner, last, ?_, ?_, lexeme⟩
        · rw [List.append_assoc, split, List.append_assoc]
        · rw [place, List.length_append, Nat.add_assoc offset]

end Lexed

/-- The text at the place of a token, and what follows it. -/
theorem lexeme_of_tokenize {source : String} {tokens : List (Located Token)}
    (tokenized : tokenize source = .ok tokens) {token : Located Token} (member : token ∈ tokens) :
    Lexeme token.value (token.span.slice source.toList) (source.toList.drop token.span.stop) := by
  have lexed := (tokenize_eq_ok_iff source tokens).mp tokenized
  obtain ⟨first, inner, last, split, place, lexeme⟩ := lexed.exists_lexeme member
  rw [List.append_nil] at split
  rw [Nat.zero_add] at place
  rw [place, split, Span.slice_append, ← List.append_assoc, ← List.length_append, List.drop_left]
  exact lexeme

/-- The tokens of a source are the texts at their places, one after another, and all else in it is
blanks and comments. An identifier or a number ends where it cannot go on. A source that has no
tokens goes wrong where none of these can go on after tokens that are complete: at a character that
begins none of them, after a single colon, or over the digits of a number that is too large. -/
theorem lexing_loses_nothing (source : String) :
    (∀ tokens, tokenize source = .ok tokens ↔ Lexed 0 source.toList [] tokens) ∧
    (∀ tokens, tokenize source = .ok tokens →
      Span.InOrder source.length 0 (tokens.map Located.span) ∧
      ∀ token ∈ tokens,
        (token.span.textIn source = token.value.text ∨
          token.value = .symbol .lambda ∧ token.span.textIn source = "\\") ∧
        Lexeme token.value (token.span.slice source.toList)
          (source.toList.drop token.span.stop)) ∧
    ∀ error, tokenize source = .error error ↔
      ∃ before failing tokens, source.toList = before ++ failing ∧
        tokenize (String.ofList before) = .ok tokens ∧ Lexed 0 before failing tokens ∧
        Fails before.length failing error := by
  refine ⟨tokenize_eq_ok_iff source, fun tokens tokenized => ⟨?_, fun token member => ?_⟩,
    fun error => ⟨fun failed => ?_, ?_⟩⟩
  · have lexed := (tokenize_eq_ok_iff source tokens).mp tokenized
    have ordered := lexed.inOrder
    rwa [Nat.zero_add] at ordered
  · have lexeme := lexeme_of_tokenize tokenized member
    refine ⟨?_, lexeme⟩
    rcases lexeme.spelled with text | ⟨backslash, text⟩
    · exact Or.inl (by rw [Span.textIn, text, String.ofList_toList])
    · exact Or.inr ⟨backslash, by rw [Span.textIn, text]⟩
  · obtain ⟨before, failing, tokens, split, lexed, fails⟩ := exists_of_tokenize_eq_error failed
    refine ⟨before, failing, tokens, split, tokenize_of_lexed ?_, lexed, fails⟩
    rw [String.toList_ofList]
    exact lexed.before_nothing
  · rintro ⟨before, failing, tokens, split, _, lexed, fails⟩
    exact tokenize_of_fails split lexed fails

/-- Three numbers stand side by side, a comment hides what no token begins with, and a colon at the
end of the source is an error after the last character. -/
theorem lexing_around_a_comment :
    ∃ tokens, tokenize "\\x_1.007 # é\n::" = .ok tokens ∧
      tokens.map (fun token => token.value.text) = ["λ", "x_1", ".", "0", "0", "7", "::"] ∧
      Span.InOrder 15 0 (tokens.map Located.span) ∧
      tokenize "λx #:\n:" = .error (.loneColon none ⟨7, 7⟩) ∧
      ∃ before failing, "λx #:\n:".toList = before ++ failing ∧
        Fails before.length failing (.loneColon none ⟨7, 7⟩) := by
  obtain ⟨tokens, tokenized⟩ : ∃ tokens, tokenize "\\x_1.007 # é\n::" = .ok tokens := ⟨_, rfl⟩
  have failed : tokenize "λx #:\n:" = .error (.loneColon none ⟨7, 7⟩) := rfl
  obtain ⟨ordered, _⟩ := (lexing_loses_nothing _).2.1 tokens tokenized
  obtain ⟨before, failing, _, split, _, _, fails⟩ := ((lexing_loses_nothing _).2.2 _).mp failed
  refine ⟨tokens, tokenized, ?_, ordered, failed, before, failing, split, fails⟩
  cases tokenized
  rfl

end UntypedLambda.Surface
