import UntypedLambda.Proofs.Surface.Tokenization
import UntypedLambda.Proofs.Surface.Writable
import UntypedLambda.Session.Command

set_option autoImplicit false

/-! Tokens printed with one blank between them, as a session shows those of a source. The blank ends
every token, whatever it is, so the tokens are read back, each one character after the one before
it. -/

namespace UntypedLambda.Surface

def spaced (values : List Token) : String :=
  String.intercalate " " (values.map Token.text)

/-- Tokens from an offset on, each at the place of its text and one character after the one before
it. -/
def placedFrom (offset : Nat) : List Token → List (Located Token)
  | [] => []
  | value :: values =>
      ⟨value, ⟨offset, offset + value.text.length⟩⟩ ::
        placedFrom (offset + value.text.length + 1) values

/-! ### The text of a token -/

theorem head?_toDigits {value : Nat} (pos : 0 < value) :
    ∃ c ∈ (Nat.toDigits 10 value).head?, c ≠ '0' := by
  induction value using Nat.strong_induction_on with
  | _ value ih =>
      by_cases single : value < 10
      · rw [Nat.toDigits_of_lt_base single]
        refine ⟨value.digitChar, rfl, ?_⟩
        interval_cases value <;> decide
      · -- The first digit is that of a tenth of the number.
        have several : 10 ≤ value := Nat.le_of_not_lt single
        obtain ⟨c, head, different⟩ :=
          ih (value / 10) (Nat.div_lt_self pos (by decide)) (Nat.div_pos several (by decide))
        refine ⟨c, ?_, different⟩
        rw [Nat.toDigits_of_base_le (by decide) several, List.head?_append, Option.mem_def.mp head]
        rfl

theorem digitRun_toString {value : Nat} (pos : 0 < value) {after : List Char}
    (ends : ∀ c ∈ after.head?, c.isDigit = false) : DigitRun (toString value).toList after where
  first := by
    rw [toList_toString]
    exact head?_toDigits pos
  digits _ := isDigit_of_mem_toString
  ends := ends

/-- A token that can be written is its text, before a blank and at the end. -/
theorem lexeme_of_isWritable {value : Token} (writable : value.isWritable = true)
    {after : List Char} (ends : ∀ c ∈ after.head?, c = ' ') :
    Lexeme value value.text.toList after := by
  cases value with
  | symbol symbol => exact .symbol symbol
  | nat value =>
      rcases Nat.eq_zero_or_pos value with rfl | pos
      · exact .zero
      · refine .number value (digitRun_toString pos fun c head => ?_) (of_decide_eq_true writable)
        rw [ends c head]
        rfl
  | ident name =>
      refine .identifier name writable fun c head => ?_
      rw [ends c head]
      rfl

/-! ### Tokens after one another -/

theorem spaced_cons_cons (value other : Token) (others : List Token) :
    (spaced (value :: other :: others)).toList =
      value.text.toList ++ ([' '] ++ (spaced (other :: others)).toList) := by
  simp [spaced, String.intercalate_cons_cons]

theorem lexed_spaced {values : List Token} (writable : ∀ value ∈ values, value.isWritable = true)
    (offset : Nat) : Lexed offset (spaced values).toList [] (placedFrom offset values) := by
  induction values generalizing offset with
  | nil => exact .nothing
  | cons value values ih =>
      have first := writable value List.mem_cons_self
      cases values with
      | nil =>
          have lexeme : Lexeme value value.text.toList ([] ++ []) := lexeme_of_isWritable first nofun
          have alone : Lexed offset (value.text.toList ++ []) [] _ := .token lexeme .nothing
          rw [List.append_nil] at alone
          exact alone
      | cons other others =>
          have later := ih (fun value member => writable value (List.mem_cons_of_mem _ member))
            (offset + value.text.length + 1)
          rw [spaced_cons_cons]
          refine .token (lexeme_of_isWritable first fun c head => ?_)
            (.skip (.blank ' ' (by decide)) later)
          cases head
          rfl

/-! ### Their places -/

theorem map_value_placedFrom (offset : Nat) (values : List Token) :
    (placedFrom offset values).map Located.value = values := by
  induction values generalizing offset with
  | nil => rfl
  | cons value values ih => rw [placedFrom, List.map_cons, ih]

theorem isChain_placedFrom (offset : Nat) (values : List Token) :
    ((placedFrom offset values).map Located.span).IsChain
      fun first second => second.start = first.stop + 1 := by
  induction values generalizing offset with
  | nil => exact .nil
  | cons value values ih =>
      have later := ih (offset + value.text.length + 1)
      cases values with
      | nil => exact .singleton _
      | cons other others => exact .cons_cons rfl later

/-- The tokens have their texts at their places, after whatever ends where the first one starts. -/
theorem slice_placedFrom (before : List Char) (values : List Token) :
    ∀ token ∈ placedFrom before.length values,
      token.span.slice (before ++ (spaced values).toList) = token.value.text.toList := by
  induction values generalizing before with
  | nil => exact fun _ none => nomatch none
  | cons value values ih =>
      intro token member
      rcases List.mem_cons.mp member with rfl | later
      · cases values with
        | nil =>
            have alone : (spaced [value]).toList = value.text.toList ++ [] := by simp [spaced]
            rw [alone]
            exact Span.slice_append before value.text.toList []
        | cons other others =>
            rw [spaced_cons_cons]
            exact Span.slice_append before value.text.toList _
      · cases values with
        | nil => cases later
        | cons other others =>
            have size : (before ++ (value.text.toList ++ [' '])).length =
                before.length + value.text.length + 1 := by
              simp [String.length_toList, Nat.add_assoc]
            have text : before ++ (spaced (value :: other :: others)).toList =
                before ++ (value.text.toList ++ [' ']) ++ (spaced (other :: others)).toList := by
              rw [spaced_cons_cons]
              simp
            rw [← size] at later
            rw [text]
            exact ih _ token later

/-- What a session shows of the tokens of a source are their texts with blanks between them. -/
theorem showTokens_eq (session : Session) {source : String} {tokens : List (Located Token)}
    (tokenized : tokenize source = .ok tokens) :
    session.showTokens source =
      .goOn session (.line (spaced (tokens.map Located.value))) := by
  rw [Session.showTokens, tokenized, spaced, List.map_map]
  rfl

/-- Tokens of identifiers and of numbers that fit, printed with one blank between them, are read as
the same tokens, each one character after the one before it. All tokens that a source has are such
tokens, and a session that shows them prints them so. -/
theorem printed_tokens_read_back :
    (∀ values : List Token, (∀ value ∈ values, value.isWritable = true) →
      ∃ tokens, tokenize (spaced values) = .ok tokens ∧ tokens.map Located.value = values ∧
        (tokens.map Located.span).IsChain (fun first second => second.start = first.stop + 1) ∧
        ∀ token ∈ tokens, token.span.textIn (spaced values) = token.value.text) ∧
    ∀ (source : String) (tokens : List (Located Token)), tokenize source = .ok tokens →
      (∀ token ∈ tokens, token.value.isWritable = true) ∧
      ∀ session : Session, session.execute .tokenize source =
        .reply (.goOn session (.line (spaced (tokens.map Located.value)))) := by
  refine ⟨fun values writable => ?_, fun source tokens tokenized => ⟨?_, fun session => ?_⟩⟩
  · have tokenized := tokenize_of_lexed (lexed_spaced writable 0)
    refine ⟨placedFrom 0 values, tokenized, map_value_placedFrom 0 values,
      isChain_placedFrom 0 values, fun token member => ?_⟩
    have text := slice_placedFrom [] values token member
    rw [List.nil_append] at text
    rw [Span.textIn, text, String.ofList_toList]
  · exact isWritable_of_tokenize tokenized
  · exact congrArg Response.reply (showTokens_eq session tokenized)

/-- The largest number, two symbols of two characters and a lambda that was typed as a backslash. -/
theorem printed_tokens_of_source :
    ∃ values tokens, tokenize "x:=\\_.18446744073709551615::0#" = .ok values ∧
      spaced (values.map Located.value) = "x := λ _ . 18446744073709551615 :: 0" ∧
      tokenize "x := λ _ . 18446744073709551615 :: 0" = .ok tokens ∧
      tokens.map Located.value = values.map Located.value ∧
      (tokens.map Located.span).IsChain fun first second => second.start = first.stop + 1 := by
  obtain ⟨values, tokenized⟩ :
      ∃ values, tokenize "x:=\\_.18446744073709551615::0#" = .ok values := ⟨_, rfl⟩
  have shown : spaced (values.map Located.value) = "x := λ _ . 18446744073709551615 :: 0" := by
    cases tokenized
    decide
  have writable := (printed_tokens_read_back.2 _ _ tokenized).1
  obtain ⟨tokens, tokenized', same, places, _⟩ :=
    printed_tokens_read_back.1 (values.map Located.value) fun value member => by
      obtain ⟨token, inSource, rfl⟩ := List.mem_map.mp member
      exact writable token inSource
  rw [shown] at tokenized'
  exact ⟨values, tokens, tokenized, shown, tokenized', same, places⟩

end UntypedLambda.Surface
