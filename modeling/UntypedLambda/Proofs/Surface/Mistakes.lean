import UntypedLambda.Proofs.Surface.Program
import UntypedLambda.Proofs.Surface.Viable

set_option autoImplicit false

/-! The place of the error in a text that is no program. It is at the first token with which no
program begins so, except in a definition whose body has no term at its front up to there. Such a
statement counts as the term that is its name, so its error is at the sign of the definition. -/

namespace UntypedLambda.Surface

namespace Grammar

def IsProgram (tokens : List (Located Token)) : Prop :=
  ∃ statements, Program (Term anywhere) tokens statements

def BeginsProgram (tokens : List (Located Token)) : Prop :=
  ∃ rest, IsProgram (tokens ++ rest)

theorem isProgram_iff_phrases (tokens : List (Located Token)) :
    IsProgram tokens ↔ ∃ statements, Program phrases tokens statements := by
  constructor
  · rintro ⟨statements, program⟩
    exact program.exists fun _ _ _ _ term => term.exists_phrase
  · rintro ⟨statements, program⟩
    exact ⟨statements, program.mono fun _ after _ _ phrase => anywhere_of_phrase phrase after⟩

end Grammar

open Grammar

/-! ### Beginnings of programs -/

namespace ProgramReading

/-- Whatever has been read of a program, more tokens complete it. -/
theorem exists_finish (reading : ProgramReading) :
    ∃ rest final statements, reading.takeAll? rest = some final ∧
      final.finish? = some statements := by
  obtain ⟨earlier, lead, body⟩ := reading
  obtain ⟨rest, final, e, reads, finished⟩ := body.completable
  obtain ⟨last, takes, _, _⟩ := @takeAll?_body earlier lead _ _ _ reads
  have ended : ended? ⟨earlier, last, final⟩ = some (statement last e :: earlier) := by
    rw [ended?, finished]
    rfl
  cases last with
  | nothing => exact ⟨rest, _, _, takes, rfl⟩
  | _ => exact ⟨rest, _, _, takes, congrArg (Option.map List.reverse) ended⟩

/-- What reading some tokens from the start says of them. -/
theorem taken_of_takeAll? {tokens : List (Located Token)} {reading : ProgramReading}
    (reads : start.takeAll? tokens = some reading) : ProgramTaken tokens reading := by
  have nothing : ProgramTaken [] .start := .intro .nothing .nothing
  exact nothing.takeAll? reads

end ProgramReading

namespace Grammar

theorem beginsProgram_iff_takeAll? (tokens : List (Located Token)) :
    BeginsProgram tokens ↔ (ProgramReading.start.takeAll? tokens).isSome := by
  rw [Option.isSome_iff_exists]
  constructor
  · rintro ⟨rest, program⟩
    obtain ⟨statements, derived⟩ := (isProgram_iff_phrases _).mp program
    obtain ⟨final, reads, _⟩ := Program.reads derived
    rw [ProgramReading.takeAll?_append] at reads
    obtain ⟨reading, before, _⟩ := Option.bind_eq_some_iff.mp reads
    exact ⟨reading, before⟩
  · rintro ⟨reading, reads⟩
    obtain ⟨rest, final, statements, more, finished⟩ := reading.exists_finish
    have whole : ProgramReading.start.takeAll? (tokens ++ rest) = some final := by
      rw [ProgramReading.takeAll?_append, reads]
      exact more
    have program := (ProgramReading.taken_of_takeAll? whole).program finished
    exact ⟨rest, (isProgram_iff_phrases _).mpr ⟨statements, program⟩⟩

section Taken

variable {tokens : List (Located Token)} {reading : ProgramReading}

theorem isProgram_iff_finish? (reads : ProgramReading.start.takeAll? tokens = some reading) :
    IsProgram tokens ↔ reading.finish?.isSome := by
  rw [isProgram_iff_phrases, Option.isSome_iff_exists]
  refine exists_congr fun statements => ⟨?_, (ProgramReading.taken_of_takeAll? reads).program⟩
  intro program
  obtain ⟨final, same, finished⟩ := Program.reads program
  rw [reads] at same
  cases same
  exact finished

theorem beginsProgram_snoc_iff_take?
    (reads : ProgramReading.start.takeAll? tokens = some reading) (token : Located Token) :
    BeginsProgram (tokens ++ [token]) ↔ (reading.take? token).isSome := by
  rw [beginsProgram_iff_takeAll?, ProgramReading.takeAll?_append, reads, Option.bind_some,
    ProgramReading.takeAll?_cons]
  cases reading.take? token with
  | none => rfl
  | some next => rfl

end Taken

instance : DecidablePred BeginsProgram := fun tokens =>
  decidable_of_iff _ (beginsProgram_iff_takeAll? tokens).symm

theorem IsProgram.begins {tokens : List (Located Token)} (program : IsProgram tokens) :
    BeginsProgram tokens :=
  ⟨[], by rwa [List.append_nil]⟩

instance : DecidablePred IsProgram := fun tokens =>
  match reads : ProgramReading.start.takeAll? tokens with
  | some _ => decidable_of_iff _ (isProgram_iff_finish? reads).symm
  | none => isFalse fun program => by
      have begun := (beginsProgram_iff_takeAll? tokens).mp program.begins
      rw [reads] at begun
      cases begun

/-! ### Terms at the front of tokens -/

def TermInFront (tokens : List (Located Token)) : Prop :=
  ∃ front rest, tokens = front ++ rest ∧ IsTerm front

theorem IsTerm.ne_nil {tokens : List (Located Token)} (term : IsTerm tokens) : tokens ≠ [] := by
  rintro rfl
  have finished := (isTerm_iff_finish? (rfl : Reading.start.takeAll? [] = some .start)).mp term
  cases finished

theorem not_termInFront_nil : ¬ TermInFront [] := by
  rintro ⟨front, rest, split, term⟩
  exact term.ne_nil (List.append_eq_nil_iff.mp split.symm).1

theorem IsTerm.termInFront {tokens : List (Located Token)} (term : IsTerm tokens) :
    TermInFront tokens :=
  ⟨tokens, [], (List.append_nil tokens).symm, term⟩

theorem TermInFront.append {tokens : List (Located Token)} (inFront : TermInFront tokens)
    (more : List (Located Token)) : TermInFront (tokens ++ more) := by
  obtain ⟨front, rest, rfl, term⟩ := inFront
  exact ⟨front, rest ++ more, List.append_assoc .., term⟩

theorem termInFront_snoc_iff (tokens : List (Located Token)) (token : Located Token) :
    TermInFront (tokens ++ [token]) ↔ TermInFront tokens ∨ IsTerm (tokens ++ [token]) := by
  constructor
  · rintro ⟨front, rest, split, term⟩
    rcases List.eq_nil_or_concat rest with rfl | ⟨rest, last, rfl⟩
    · rw [List.append_nil] at split
      rw [split]
      exact Or.inr term
    · rw [List.concat_eq_append, ← List.append_assoc] at split
      exact Or.inl ⟨front, rest, (List.append_inj' split rfl).1, term⟩
  · rintro (inFront | term)
    · exact inFront.append [token]
    · exact term.termInFront

end Grammar

/-! ### When the body of a definition has begun -/

/-- Which constructs end does not depend on the expression that ends them. -/
theorem Frame.complete_fst (frames : List Frame) (last last' : Expr) :
    (Frame.complete frames last).1 = (Frame.complete frames last').1 := by
  induction frames generalizing last last' with
  | nil => rfl
  | cons frame frames ih =>
      cases frame with
      | body outer first binders => exact ih _ _
      | tail head => exact ih _ _
      | group outer first => rfl
      | tuple outer first elements => rfl
      | list outer first elements => rfl

/-- Before the `::` that waits for its tail, with no bracket open, there is a term. -/
theorem Opens.termInFront {tokens : List (Located Token)} {frames : List Frame} {last : Expr}
    (opens : Opens tokens frames) (complete : (Frame.complete frames last).1 = [])
    (tail : frames.all Frame.isBody = false) : TermInFront tokens := by
  induction opens generalizing last with
  | nothing => cases tail
  | group first _ _ => cases complete
  | tuple first _ _ _ => cases complete
  | list first _ _ _ => cases complete
  | body first dot binder binders _ _ ih => exact (ih complete tail).append _
  | @tail before inner frames head span opens application _ =>
      have ends : (Frame.complete frames head).1 = [] :=
        (Frame.complete_fst _ _ _).trans complete
      obtain ⟨outside, whole, split, outer, phrase⟩ := opens.complete (.application application)
      rw [ends] at outer
      cases outer
      rw [← List.append_assoc, split]
      exact ((isTerm_iff_phrase whole).mpr ⟨_, phrase⟩).termInFront.append _

namespace Reading

theorem finish?_of_hasBegun {reading : Reading} (begun : reading.hasBegun = true) :
    reading.finish?.isSome = true := by
  obtain ⟨frames, focus⟩ := reading
  have ends (frames : List Frame) (bodies : frames.all Frame.isBody = true) (last : Expr) :
      ∃ e, Frame.complete frames last = ([], e) := by
    induction frames generalizing last with
    | nil => exact ⟨last, rfl⟩
    | cons frame frames ih =>
        rw [List.all_cons, Bool.and_eq_true] at bodies
        cases frame with
        | body outer first binders => exact ih bodies.2 _
        | _ => cases bodies.1
  cases focus with
  | binders outer first names => cases begun
  | term read =>
      cases read with
      | none => cases begun
      | some last =>
          obtain ⟨e, complete⟩ := ends frames begun last
          simp [finish?, complete]

/-- Where a reading may end and has not begun, a term has ended before. -/
theorem termInFront_of_finish? {tokens : List (Located Token)} {token : Located Token}
    {reading : Reading} (taken : Taken (tokens ++ [token]) reading)
    (finished : reading.finish?.isSome = true) (begun : reading.hasBegun = false) :
    TermInFront tokens := by
  generalize split : tokens ++ [token] = all at taken
  cases taken with
  | binders first names _ _ => cases finished
  | @term before inner frames read opens waiting =>
      cases waiting with
      | nothing => cases finished
      | @application _ last application =>
          have complete : (Frame.complete frames last).1 = [] := by
            obtain ⟨e, finished⟩ := Option.isSome_iff_exists.mp finished
            simp only [finish?] at finished
            split at finished
            · rename_i same
              rw [same]
            · cases finished
          have inFront := opens.termInFront complete begun
          have some : inner ≠ [] :=
            ((isTerm_iff_phrase inner).mpr ⟨last, .application application⟩).ne_nil
          -- The last token belongs to the application, so the term ends before it.
          rcases List.eq_nil_or_concat inner with none | ⟨others, final, rfl⟩
          · exact absurd none some
          · rw [List.concat_eq_append, ← List.append_assoc] at split
            rw [(List.append_inj' split rfl).1]
            exact inFront.append others

/-- With one more token, a term is in front of the tokens if there was one before, or if the reading
has begun with that token. -/
theorem termInFront_snoc_iff {tokens : List (Located Token)} {token : Located Token}
    {reading : Reading} (reads : Reading.start.takeAll? (tokens ++ [token]) = some reading) :
    TermInFront (tokens ++ [token]) ↔ TermInFront tokens ∨ reading.hasBegun = true := by
  have taken : Taken (tokens ++ [token]) reading := by
    have nothing : Taken [] Reading.start := .term .nothing .nothing
    exact nothing.takeAll? reads
  rw [Grammar.termInFront_snoc_iff]
  constructor
  · rintro (inFront | term)
    · exact Or.inl inFront
    · cases begun : reading.hasBegun with
      | true => exact Or.inr rfl
      | false =>
          have finished := (isTerm_iff_finish? reads).mp term
          exact Or.inl (termInFront_of_finish? taken finished begun)
  · rintro (inFront | begun)
    · exact Or.inl inFront
    · exact Or.inr ((isTerm_iff_finish? reads).mpr (finish?_of_hasBegun begun))

end Reading

namespace Grammar

/-- Tokens that end in a definition, with its sign at a place and no term at the front of its
body. -/
def Stalls (tokens : List (Located Token)) (sign : Span) : Prop :=
  ∃ earlier name body, tokens = earlier ++ Name.token name :: Symbol.define.at sign :: body ∧
    ¬ TermInFront body

end Grammar

namespace ProgramReading

def HoldsBody (tokens : List (Located Token)) (reading : ProgramReading) : Prop :=
  ∀ name sign hasBegun, reading.lead = .definition name sign hasBegun →
    ∃ earlier body, tokens = earlier ++ name.token :: Symbol.define.at sign :: body ∧
      Reading.start.takeAll? body = some reading.body ∧
      (hasBegun = true ↔ TermInFront body)

theorem leadAfter_eq_definition {lead : Lead} {token : Located Token} {body : Reading}
    {name : Name} {sign : Span} {hasBegun : Bool}
    (same : leadAfter lead token body = .definition name sign hasBegun) :
    ∃ begunBefore, lead = .definition name sign begunBefore ∧
      hasBegun = (begunBefore || body.hasBegun) := by
  unfold leadAfter at same
  split at same
  · cases same
  · cases same
    exact ⟨_, rfl, rfl⟩
  · cases same

/-- The step lemma: a token that is taken goes to the body of the definition. -/
theorem HoldsBody.take? {tokens : List (Located Token)} {reading next : ProgramReading}
    {token : Located Token} (taken : ProgramTaken tokens reading) (holds : HoldsBody tokens reading)
    (step : reading.take? token = some next) : HoldsBody (tokens ++ [token]) next := by
  intro name sign hasBegun lead
  rcases take?_cases step with
    ⟨span, statements, rfl, _, rfl⟩ | ⟨span, defined, rfl, identifier, rfl⟩ | ⟨body, inBody, rfl⟩
  · cases lead
  · cases lead
    obtain ⟨earlier, front⟩ := taken
    cases identifier
    cases front with
    | identifier name =>
        refine ⟨_, [], List.append_assoc .., rfl, ?_⟩
        simp [not_termInFront_nil]
  · obtain ⟨begunBefore, sameLead, rfl⟩ := leadAfter_eq_definition lead
    obtain ⟨earlier, inner, split, reads, begun⟩ := holds name sign begunBefore sameLead
    have more := Reading.takeAll?_concat reads inBody
    refine ⟨earlier, inner ++ [token], ?_, more, ?_⟩
    · rw [split, List.append_assoc]
      rfl
    · rw [Reading.termInFront_snoc_iff more, ← begun, Bool.or_eq_true]

theorem holdsBody_of_takeAll? {tokens : List (Located Token)} {reading : ProgramReading}
    (reads : start.takeAll? tokens = some reading) : HoldsBody tokens reading := by
  have nothing : ProgramTaken [] .start ∧ HoldsBody [] .start :=
    ⟨.intro .nothing .nothing, fun _ _ _ lead => nomatch lead⟩
  have step (taken : List (Located Token)) (reading : ProgramReading) (token : Located Token)
      (next : ProgramReading) (holds : ProgramTaken taken reading ∧ HoldsBody taken reading)
      (takes : reading.take? token = some next) :
      ProgramTaken (taken ++ [token]) next ∧ HoldsBody (taken ++ [token]) next :=
    ⟨holds.1.take? takes, holds.2.take? holds.1 takes⟩
  exact (runs_of_step step nothing reads).2

def Stays (name : Name) (sign : Span) (body : List (Located Token)) (reading : ProgramReading) :
    Prop :=
  ¬ TermInFront body → reading.lead = .definition name sign false ∧
    Reading.start.takeAll? body = some reading.body

theorem Stays.take? {name : Name} {sign : Span} {body : List (Located Token)}
    {reading next : ProgramReading} {token : Located Token} (stays : Stays name sign body reading)
    (step : reading.take? token = some next) : Stays name sign (body ++ [token]) next := by
  intro noTerm
  have noTermBefore : ¬ TermInFront body := fun inFront => noTerm (inFront.append [token])
  obtain ⟨lead, reads⟩ := stays noTermBefore
  rcases take?_cases step with
    ⟨span, all, _, ended, _⟩ | ⟨span, defined, _, identifier, _⟩ | ⟨inner, inBody, rfl⟩
  · obtain ⟨e, finished, _⟩ := Option.map_eq_some_iff.mp ended
    have term : IsTerm body := (isTerm_iff_finish? reads).mpr (by rw [finished]; rfl)
    exact absurd term.termInFront noTermBefore
  · rw [lead] at identifier
    cases identifier
  · have more := Reading.takeAll?_concat reads inBody
    rw [Reading.termInFront_snoc_iff more, not_or, Bool.not_eq_true] at noTerm
    refine ⟨?_, more⟩
    simp [leadAfter, lead, noTerm.2]

theorem stays_of_takeAll? {statements : List Statement} {name : Name} {sign : Span}
    {body : List (Located Token)} {reading : ProgramReading}
    (reads : takeAll? ⟨statements, .definition name sign false, .start⟩ body = some reading) :
    Stays name sign body reading := by
  have nothing : Stays name sign [] ⟨statements, .definition name sign false, .start⟩ :=
    fun _ => ⟨rfl, rfl⟩
  exact runs_of_step (fun _ _ _ _ => Stays.take?) nothing reads

theorem stalls_iff_lead {tokens : List (Located Token)} {reading : ProgramReading}
    (reads : start.takeAll? tokens = some reading) (sign : Span) :
    Stalls tokens sign ↔ ∃ name, reading.lead = .definition name sign false := by
  constructor
  · rintro ⟨earlier, name, body, rfl, noTerm⟩
    rw [takeAll?_append] at reads
    obtain ⟨before, _, reads⟩ := Option.bind_eq_some_iff.mp reads
    rw [takeAll?_cons] at reads
    obtain ⟨named, _, reads⟩ := Option.bind_eq_some_iff.mp reads
    rw [takeAll?_cons] at reads
    obtain ⟨signed, signs, reads⟩ := Option.bind_eq_some_iff.mp reads
    rcases take?_cases signs with
      ⟨_, _, same, _, _⟩ | ⟨_, defined, same, _, rfl⟩ | ⟨inner, inBody, _⟩
    · cases same
    · cases same
      exact ⟨defined, (stays_of_takeAll? reads noTerm).1⟩
    · rw [Reading.take?_separator _ (Or.inr rfl)] at inBody
      cases inBody
  · rintro ⟨name, lead⟩
    obtain ⟨earlier, body, split, _, begun⟩ := holdsBody_of_takeAll? reads name sign false lead
    exact ⟨earlier, name, body, split, fun inFront => Bool.false_ne_true (begun.mpr inFront)⟩

end ProgramReading

/-! ### The error of a text -/

namespace Grammar

/-- Where tokens that are no program and stop at a place cease to begin a program, with those before
it. -/
inductive ProgramMistake (stop : Span) (tokens : List (Located Token)) :
    List (Located Token) → Option Token → Span → Prop where
  /-- At the first token with which those so far begin no program. -/
  | token {before after : List (Located Token)} (token : Located Token) :
      tokens = before ++ token :: after → BeginsProgram before →
      ¬ BeginsProgram (before ++ [token]) →
      ProgramMistake stop tokens before (some token.value) token.span
  /-- Where they stop, when more of them could make a program. -/
  | ending : BeginsProgram tokens → ¬ IsProgram tokens →
      ProgramMistake stop tokens tokens none stop

/-- The error for a mistake after some tokens: at the mistake, or at the sign of the definition that
they end in, when no term is at the front of its body. -/
inductive Reported (before : List (Located Token)) (found : Option Token) (place : Span) :
    SourceError → Prop where
  | mistake (expected : List Terminal) : (∀ sign, ¬ Stalls before sign) →
      Reported before found place (.unexpectedToken found expected place)
  | sign (expected : List Terminal) {sign : Span} : Stalls before sign →
      Reported before found place (.unexpectedToken (some (.symbol .define)) expected sign)

end Grammar

namespace ProgramReading

theorem take_eq_error {reading : ProgramReading} {token : Located Token} {error : SourceError}
    (refused : reading.take token = .error error) :
    reading.take? token = none ∧ error = reading.refusal (some token.value) token.span := by
  rw [take] at refused
  cases taken : reading.take? token with
  | none =>
      rw [taken] at refused
      cases refused
      exact ⟨rfl, rfl⟩
  | some next =>
      rw [taken] at refused
      cases refused

theorem reported_refusal {before : List (Located Token)} {reading : ProgramReading}
    (reads : start.takeAll? before = some reading) (found : Option Token) (place : Span) :
    Reported before found place (reading.refusal found place) := by
  unfold refusal
  split
  · rename_i name sign lead
    exact .sign _ ((stalls_iff_lead reads sign).mpr ⟨name, lead⟩)
  · rename_i begun
    refine .mistake _ fun sign stalls => ?_
    obtain ⟨name, lead⟩ := (stalls_iff_lead reads sign).mp stalls
    exact begun name sign lead

/-- The token that the reading of some tokens refuses is their first mistake. -/
theorem mistake_of_refused {tokens : List (Located Token)} {error : SourceError} (stop : Span)
    (failed : tokens.foldlM take start = .error error) :
    ∃ before found place,
      ProgramMistake stop tokens before found place ∧ Reported before found place error := by
  obtain ⟨before, token, after, reading, split, took, refused⟩ :=
    Except.exists_of_foldlM_eq_error failed
  have reads := (foldlM_take_eq_ok_iff _ _ _).mp took
  obtain ⟨none, rfl⟩ := take_eq_error refused
  have begins : BeginsProgram before := by
    rw [beginsProgram_iff_takeAll?, reads]
    rfl
  have impossible : ¬ BeginsProgram (before ++ [token]) := by
    rw [beginsProgram_snoc_iff_take? reads, none]
    exact Bool.false_ne_true
  exact ⟨before, some token.value, token.span, .token token split begins impossible,
    reported_refusal reads _ _⟩

/-- Tokens that are all taken and are no program have their mistake at the end. -/
theorem mistake_of_unfinished {tokens : List (Located Token)} {reading : ProgramReading}
    (stop : Span) (reads : start.takeAll? tokens = some reading) (noProgram : ¬ IsProgram tokens) :
    ProgramMistake stop tokens tokens none stop := by
  refine .ending ?_ noProgram
  rw [beginsProgram_iff_takeAll?, reads]
  rfl

/-- Tokens that are no program have one error, for the first mistake. -/
theorem readProgram_eq_error {tokens : List (Located Token)} (stop : Span)
    (noProgram : ¬ IsProgram tokens) :
    ∃ before found place error, ProgramMistake stop tokens before found place ∧
      Reported before found place error ∧ readProgram tokens stop = .error error := by
  rw [readProgram]
  cases taken : tokens.foldlM take start with
  | error error =>
      obtain ⟨before, found, place, mistake, reported⟩ := mistake_of_refused stop taken
      exact ⟨before, found, place, error, mistake, reported, rfl⟩
  | ok reading =>
      have reads := (foldlM_take_eq_ok_iff _ _ _).mp taken
      have unfinished : reading.finish? = none := by
        rw [← Option.not_isSome_iff_eq_none, ← isProgram_iff_finish? reads]
        exact noProgram
      refine ⟨tokens, none, stop, reading.refusal none stop,
        mistake_of_unfinished stop reads noProgram, reported_refusal reads _ _, ?_⟩
      simp only [bind, Except.bind, unfinished]
      rfl

end ProgramReading

/-- A text that is no program has one error. Its mistake is at the first token with which the text
begins no program, or just after the last character if there is no such token. The error is there,
unless the mistake is in a definition and no term is at the front of the body before it. Then the
error is at the sign of the definition. -/
theorem error_of_first_mistake {source : String} {tokens : List (Located Token)}
    (tokenized : tokenize source = .ok tokens) (noProgram : ¬ IsProgram tokens) :
    ∃ before found place error,
      ProgramMistake ⟨source.length, source.length + 1⟩ tokens before found place ∧
      Reported before found place error ∧ parseProgram source = .error error := by
  have parsed : parseProgram source = readProgram tokens ⟨source.length, source.length + 1⟩ := by
    rw [parseProgram, tokenized]
    rfl
  rw [parsed]
  exact ProgramReading.readProgram_eq_error _ noProgram

/-- A bracket that nothing opens, in the body of a definition that has begun. -/
theorem bracket_refused_in_body :
    ∃ tokens before, tokenize "f := λx.x; g := y)" = .ok tokens ∧ ¬ IsProgram tokens ∧
      ProgramMistake ⟨18, 19⟩ tokens before (some (.symbol .rightParen)) ⟨17, 18⟩ ∧
      ∀ sign, ¬ Stalls before sign := by
  obtain ⟨tokens, tokenized⟩ : ∃ tokens, tokenize "f := λx.x; g := y)" = .ok tokens := ⟨_, rfl⟩
  have noProgram : ¬ IsProgram tokens := by
    cases tokenized
    decide
  obtain ⟨before, found, place, error, mistake, reported, parsed⟩ :=
    error_of_first_mistake tokenized noProgram
  have refused : ∃ expected, parseProgram "f := λx.x; g := y)" =
      .error (.unexpectedToken (some (.symbol .rightParen)) expected ⟨17, 18⟩) := ⟨_, rfl⟩
  obtain ⟨expected, refused⟩ := refused
  rw [refused] at parsed
  cases parsed
  cases reported with
  | mistake _ begun => exact ⟨tokens, before, tokenized, noProgram, mistake, begun⟩

/-- Nothing is wrong with these tokens but that they stop, and the error is at the sign before
them. -/
theorem error_at_sign_of_stalled_definition :
    ∃ tokens expected, tokenize "x := (y" = .ok tokens ∧ ¬ IsProgram tokens ∧
      ProgramMistake ⟨7, 8⟩ tokens tokens none ⟨7, 8⟩ ∧
      parseProgram "x := (y" =
        .error (.unexpectedToken (some (.symbol .define)) expected ⟨2, 4⟩) := by
  obtain ⟨tokens, tokenized⟩ : ∃ tokens, tokenize "x := (y" = .ok tokens := ⟨_, rfl⟩
  obtain ⟨noProgram, begins⟩ : ¬ IsProgram tokens ∧ BeginsProgram tokens := by
    cases tokenized
    decide
  exact ⟨tokens, _, tokenized, noProgram, .ending begins noProgram, rfl⟩

end UntypedLambda.Surface
