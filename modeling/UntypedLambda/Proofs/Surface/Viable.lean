import UntypedLambda.Proofs.Surface.Derivation
import UntypedLambda.Proofs.Surface.Soundness

set_option autoImplicit false

/-! The beginnings of terms. Tokens that a reading has taken can always be completed to a term, so
it refuses a token exactly when no term of the documented grammar begins so. The error for a text
that is no term is therefore at the first impossible token, and it names what is possible there. -/

namespace UntypedLambda.Surface

namespace Grammar

def IsTerm (tokens : List (Located Token)) : Prop :=
  ∃ e, Term anywhere tokens [] e

def Viable (tokens : List (Located Token)) : Prop :=
  ∃ rest, IsTerm (tokens ++ rest)

end Grammar

namespace Reading

/-! ### Every reading can be completed -/

def Completable (reading : Reading) : Prop :=
  ∃ rest final e, reading.takeAll? rest = some final ∧ final.finish? = some e

theorem Completable.of_take? {reading next : Reading} {token : Located Token}
    (taken : reading.take? token = some next) (completable : next.Completable) :
    reading.Completable := by
  obtain ⟨rest, final, e, reads, finished⟩ := completable
  refine ⟨token :: rest, final, e, ?_, finished⟩
  rw [takeAll?_cons, taken]
  exact reads

/-- A reading that goes on with a closing symbol can be completed from there. -/
theorem Completes.completable_of_close {reading next : Reading} {frames : List Frame} {e : Expr}
    (completes : reading.Completes frames e) (symbol : Symbol)
    (closing : symbol = .rightParen ∨ symbol = .rightAngle ∨ symbol = .rightBracket ∨
      symbol = .comma)
    (closes : closeBracket? symbol (default : Span).stop frames e = some next)
    (completable : next.Completable) : reading.Completable :=
  .of_take? ((completes.take?_close closing default).trans closes) completable

def anyName : Name :=
  ⟨"x", default⟩

theorem take?_anyName (frames : List Frame) (read : Option Expr) :
    take? ⟨frames, .term read⟩ anyName.token =
      some (argument frames read (.var anyName.span anyName)) :=
  rfl

/-- After an expression, all that is open can be closed. -/
theorem Completes.completable {frames : List Frame} {reading : Reading} {e : Expr}
    (completes : reading.Completes frames e) : reading.Completable := by
  -- By induction on the open constructs, from the innermost out: a bracket is closed by its symbol
  -- and then is an argument in what is around it. An abstraction and a `::` end as their last part
  -- does.
  induction frames generalizing reading e with
  | nil =>
      obtain ⟨last, focus, complete⟩ := completes
      refine ⟨[], reading, e, rfl, ?_⟩
      simp only [finish?, focus, complete, Frame.complete]
  | cons frame frames ih =>
      cases frame with
      | group outer first =>
          exact completes.completable_of_close .rightParen (by simp) rfl
            (ih (completes_argument frames outer _))
      | tuple outer first elements =>
          have closed {reading : Reading} {last element : Expr} {elements : List Expr}
              (ends : reading.Completes (.tuple outer first (element :: elements) :: frames) last) :
              reading.Completable :=
            ends.completable_of_close .rightAngle (by simp) rfl
              (ih (completes_argument frames outer _))
          cases elements with
          | nil =>
              -- A tuple needs one more element.
              refine completes.completable_of_close .comma (by simp) rfl ?_
              exact .of_take? (take?_anyName _ none) (closed (completes_argument _ none _))
          | cons element elements => exact closed completes
      | list outer first elements =>
          exact completes.completable_of_close .rightBracket (by simp) rfl
            (ih (completes_argument frames outer _))
      | body outer first binders =>
          obtain ⟨last, focus, complete⟩ := completes
          exact ih ⟨last, focus, complete⟩
      | tail head =>
          obtain ⟨last, focus, complete⟩ := completes
          exact ih ⟨last, focus, complete⟩

theorem completable_of_term (frames : List Frame) (read : Option Expr) :
    Completable ⟨frames, .term read⟩ :=
  .of_take? (take?_anyName frames read) (completes_argument frames read _).completable

theorem completable (reading : Reading) : reading.Completable := by
  obtain ⟨frames, focus⟩ := reading
  cases focus with
  | term read => exact completable_of_term frames read
  | binders outer first names =>
      have bound (name : Name) (names : List Name) :
          Completable ⟨frames, .binders outer first (name :: names)⟩ := by
        have dot : take? ⟨frames, .binders outer first (name :: names)⟩ (Symbol.dot.at default) =
            some (inside (.body outer first (name :: names).reverse) frames) := rfl
        exact .of_take? dot (completable_of_term _ none)
      cases names with
      | nil =>
          have binder : take? ⟨frames, .binders outer first []⟩ anyName.token =
              some ⟨frames, .binders outer first [anyName]⟩ := rfl
          exact .of_take? binder (bound anyName [])
      | cons name names => exact bound name names

end Reading

/-! ### What a reading says of the tokens that it has taken -/

namespace Grammar

theorem isTerm_iff_phrase (tokens : List (Located Token)) :
    IsTerm tokens ↔ ∃ e, Phrase tokens e := by
  constructor
  · rintro ⟨e, term⟩
    exact term.exists_phrase
  · rintro ⟨e, phrase⟩
    exact ⟨e, anywhere_of_phrase phrase []⟩

theorem viable_iff_takeAll? (tokens : List (Located Token)) :
    Viable tokens ↔ (Reading.start.takeAll? tokens).isSome := by
  rw [Option.isSome_iff_exists]
  constructor
  · rintro ⟨rest, term⟩
    obtain ⟨e, phrase⟩ := (isTerm_iff_phrase _).mp term
    obtain ⟨final, reads, _⟩ := phrase.finishes
    rw [Reading.takeAll?_append] at reads
    obtain ⟨reading, before, _⟩ := Option.bind_eq_some_iff.mp reads
    exact ⟨reading, before⟩
  · rintro ⟨reading, reads⟩
    obtain ⟨rest, final, e, more, finished⟩ := reading.completable
    have whole : Reading.start.takeAll? (tokens ++ rest) = some final := by
      rw [Reading.takeAll?_append, reads]
      exact more
    exact ⟨rest, (isTerm_iff_phrase _).mpr ⟨e, phrase_of_takeAll? whole finished⟩⟩

section Taken

variable {tokens : List (Located Token)} {reading : Reading}

theorem isTerm_iff_finish? (reads : Reading.start.takeAll? tokens = some reading) :
    IsTerm tokens ↔ reading.finish?.isSome := by
  rw [isTerm_iff_phrase, Option.isSome_iff_exists]
  refine exists_congr fun e => ⟨?_, phrase_of_takeAll? reads⟩
  intro phrase
  obtain ⟨final, same, finished⟩ := phrase.finishes
  rw [reads] at same
  cases same
  exact finished

theorem viable_snoc_iff_take? (reads : Reading.start.takeAll? tokens = some reading)
    (token : Located Token) : Viable (tokens ++ [token]) ↔ (reading.take? token).isSome := by
  rw [viable_iff_takeAll?, Reading.takeAll?_append, reads, Option.bind_some,
    Reading.takeAll?_cons]
  cases reading.take? token with
  | none => rfl
  | some next => rfl

end Taken

theorem IsTerm.viable {tokens : List (Located Token)} (term : IsTerm tokens) : Viable tokens :=
  ⟨[], by rwa [List.append_nil]⟩

instance : DecidablePred Viable := fun tokens =>
  decidable_of_iff _ (viable_iff_takeAll? tokens).symm

instance : DecidablePred IsTerm := fun tokens =>
  match reads : Reading.start.takeAll? tokens with
  | some _ => decidable_of_iff _ (isTerm_iff_finish? reads).symm
  | none => isFalse fun term => by
      have begun := (viable_iff_takeAll? tokens).mp term.viable
      rw [reads] at begun
      cases begun

end Grammar

/-! ### What an error names -/

namespace Reading

theorem isSome_closeBracket? (symbol : Symbol) (stop stop' : Nat) (frames : List Frame)
    (last : Expr) :
    (closeBracket? symbol stop frames last).isSome =
      (closeBracket? symbol stop' frames last).isSome := by
  unfold closeBracket?
  split <;> rfl

theorem isSome_takeSymbol? (frames : List Frame) (read : Option Expr) (symbol : Symbol)
    (span span' : Span) :
    (takeSymbol? frames read symbol span).isSome =
      (takeSymbol? frames read symbol span').isSome := by
  unfold takeSymbol?
  split
  · rfl
  · rfl
  · rfl
  · rfl
  · rfl
  · split <;> rfl
  · exact isSome_closeBracket? _ _ _ _ _
  · rfl

/-- Where a symbol stands does not matter to whether it is taken. -/
theorem isSome_take?_at (reading : Reading) (symbol : Symbol) (span span' : Span) :
    (reading.take? (symbol.at span)).isSome = (reading.take? (symbol.at span')).isSome := by
  obtain ⟨frames, focus⟩ := reading
  cases focus with
  | term read => exact isSome_takeSymbol? frames read symbol span span'
  | binders outer first names =>
      cases names with
      | nil => cases symbol <;> rfl
      | cons name names => cases symbol <;> rfl

theorem expected_nodup (reading : Reading) : reading.expected.Nodup := by
  have named : Terminal.named.Nodup := by decide
  exact named.filter reading.admits

/-- The sign of a definition, which is never named, is never taken either. -/
theorem symbol_mem_expected_iff (reading : Reading) (symbol : Symbol) (span : Span) :
    Terminal.symbol symbol ∈ reading.expected ↔ (reading.take? (symbol.at span)).isSome := by
  rw [expected, List.mem_filter, admits]
  change _ ∧ (reading.take? (symbol.at default)).isSome = true ↔ _
  rw [reading.isSome_take?_at symbol default span]
  by_cases define : symbol = .define
  · rw [reading.take?_separator (Or.inr define)]
    simp
  · have named : Terminal.symbol symbol ∈ Terminal.named := by
      cases symbol with
      | define => exact absurd rfl define
      | _ => decide
    exact and_iff_right named

theorem endOfInput_mem_expected_iff (reading : Reading) :
    .endOfInput ∈ reading.expected ↔ reading.finish?.isSome := by
  have named : Terminal.endOfInput ∈ Terminal.named := by decide
  rw [expected, List.mem_filter, admits]
  exact and_iff_right named

end Reading

namespace Grammar

/-- What an error names after the tokens before its place: the tokens of fixed text with which they
remain the beginning of a term, and the end of the input if they are a term. -/
structure Explains (before : List (Located Token)) (expected : List Terminal) : Prop where
  distinct : expected.Nodup
  symbols : ∀ symbol place,
    .symbol symbol ∈ expected ↔ Viable (before ++ [Symbol.at symbol place])
  ending : .endOfInput ∈ expected ↔ IsTerm before

theorem explains_expected {before : List (Located Token)} {reading : Reading}
    (reads : Reading.start.takeAll? before = some reading) :
    Explains before reading.expected where
  distinct := reading.expected_nodup
  symbols := fun symbol place => by
    rw [reading.symbol_mem_expected_iff symbol place, viable_snoc_iff_take? reads]
  ending := by
    rw [reading.endOfInput_mem_expected_iff, isTerm_iff_finish? reads]

/-- Where tokens that are no term and stop at a place cease to begin a term, with those before
it. -/
inductive Mistake (stop : Span) (tokens : List (Located Token)) :
    List (Located Token) → Option Token → Span → Prop where
  /-- At the first token with which those so far begin no term. -/
  | token {before after : List (Located Token)} (token : Located Token) :
      tokens = before ++ token :: after → Viable before → ¬ Viable (before ++ [token]) →
      Mistake stop tokens before (some token.value) token.span
  /-- Where they stop, when more of them could make a term. -/
  | ending : Viable tokens → ¬ IsTerm tokens → Mistake stop tokens tokens none stop

end Grammar

open Grammar

theorem Reading.take_eq_error {reading : Reading} {token : Located Token} {error : SourceError}
    (refused : reading.take token = .error error) :
    reading.take? token = none ∧
      error = .unexpectedToken (some token.value) reading.expected token.span := by
  rw [take] at refused
  cases taken : reading.take? token with
  | none =>
      rw [taken] at refused
      cases refused
      exact ⟨rfl, rfl⟩
  | some next =>
      rw [taken] at refused
      cases refused

/-- The token that the reading of some tokens refuses is their first mistake. -/
theorem mistake_of_refused {tokens : List (Located Token)} {error : SourceError} (stop : Span)
    (failed : tokens.foldlM Reading.take Reading.start = .error error) :
    ∃ before found expected span, Mistake stop tokens before found span ∧
      Explains before expected ∧ error = .unexpectedToken found expected span := by
  obtain ⟨before, token, after, reading, split, took, refused⟩ :=
    Except.exists_of_foldlM_eq_error failed
  have reads := (Reading.foldlM_take_eq_ok_iff _ _ _).mp took
  obtain ⟨none, rfl⟩ := Reading.take_eq_error refused
  have viable : Viable before := by
    rw [viable_iff_takeAll?, reads]
    rfl
  have impossible : ¬ Viable (before ++ [token]) := by
    rw [viable_snoc_iff_take? reads, none]
    exact Bool.false_ne_true
  exact ⟨before, some token.value, reading.expected, token.span,
    .token token split viable impossible, explains_expected reads, rfl⟩

/-- Tokens that are all taken and are no term have their mistake at the end. -/
theorem mistake_of_unfinished {tokens : List (Located Token)} {reading : Reading} (stop : Span)
    (reads : Reading.start.takeAll? tokens = some reading) (noTerm : ¬ IsTerm tokens) :
    Mistake stop tokens tokens none stop := by
  refine .ending ?_ noTerm
  rw [viable_iff_takeAll?, reads]
  rfl

/-- Tokens that are no term have one error, at the first mistake. -/
theorem readExpr_eq_error {tokens : List (Located Token)} (stop : Span)
    (noTerm : ¬ IsTerm tokens) :
    ∃ before found expected span, Mistake stop tokens before found span ∧
      Explains before expected ∧
      readExpr tokens stop = .error (.unexpectedToken found expected span) := by
  rw [readExpr]
  cases taken : tokens.foldlM Reading.take Reading.start with
  | error error =>
      obtain ⟨before, found, expected, span, mistake, explains, rfl⟩ :=
        mistake_of_refused stop taken
      exact ⟨before, found, expected, span, mistake, explains, rfl⟩
  | ok reading =>
      have reads := (Reading.foldlM_take_eq_ok_iff _ _ _).mp taken
      have unfinished : reading.finish? = none := by
        rw [← Option.not_isSome_iff_eq_none, ← isTerm_iff_finish? reads]
        exact noTerm
      refine ⟨tokens, none, reading.expected, stop, mistake_of_unfinished stop reads noTerm,
        explains_expected reads, ?_⟩
      simp only [bind, Except.bind, unfinished]
      rfl

/-- A text that is no term has one error. It is at the first token with which the text begins no
term, or just after the last character if there is no such token, and it names exactly what could
have stood there. -/
theorem error_at_first_impossible_token {source : String} {tokens : List (Located Token)}
    (tokenized : tokenize source = .ok tokens) (noTerm : ¬ IsTerm tokens) :
    ∃ before found expected span,
      Mistake ⟨source.length, source.length + 1⟩ tokens before found span ∧
      Explains before expected ∧
      parseTerm source = .error (.unexpectedToken found expected span) := by
  have parsed : parseTerm source = readExpr tokens ⟨source.length, source.length + 1⟩ := by
    rw [parseTerm, tokenized]
    rfl
  rw [parsed]
  exact readExpr_eq_error _ noTerm

/-- The bracket that would close a tuple of one element is refused, and the comma before another
element is among what could have stood there. -/
theorem tuple_of_one_refused :
    ∃ tokens before, tokenize "[λx.<x y>, z" = .ok tokens ∧ ¬ IsTerm tokens ∧
      Mistake ⟨12, 13⟩ tokens before (some (.symbol .rightAngle)) ⟨8, 9⟩ ∧
      Explains before [.symbol .leftParen, .symbol .comma, .symbol .cons, .symbol .leftAngle,
        .symbol .leftBracket, .symbol .lambda] := by
  obtain ⟨tokens, tokenized⟩ : ∃ tokens, tokenize "[λx.<x y>, z" = .ok tokens := ⟨_, rfl⟩
  have noTerm : ¬ IsTerm tokens := by
    cases tokenized
    decide
  obtain ⟨before, found, expected, span, mistake, explains, parsed⟩ :=
    error_at_first_impossible_token tokenized noTerm
  have refused : parseTerm "[λx.<x y>, z" = .error (.unexpectedToken (some (.symbol .rightAngle))
      [.symbol .leftParen, .symbol .comma, .symbol .cons, .symbol .leftAngle,
        .symbol .leftBracket, .symbol .lambda] ⟨8, 9⟩) := rfl
  rw [refused] at parsed
  cases parsed
  exact ⟨tokens, before, tokenized, noTerm, mistake, explains⟩

end UntypedLambda.Surface
