import Mathlib.Data.List.Induction
import UntypedLambda.Proofs.Except
import UntypedLambda.Proofs.Surface.Scanning

set_option autoImplicit false

/-! The pieces of a source text: blanks, comments and the texts of tokens. Every text is such pieces
up to its end, or up to a place where no piece goes on. A scan returns the tokens of the pieces, or
the error of that place. -/

namespace UntypedLambda.Surface

open Text

/-! ### Pieces -/

inductive Skipped : List Char → List Char → Prop where
  | blank {after : List Char} (c : Char) : isBlank c = true → Skipped [c] after
  | comment {after : List Char} (body : List Char) : '\n' ∉ body →
      (∀ c ∈ after.head?, c = '\n') → Skipped ('#' :: body) after

structure DigitRun (digits after : List Char) : Prop where
  first : ∃ c ∈ digits.head?, c ≠ '0'
  digits : ∀ c ∈ digits, c.isDigit = true
  ends : ∀ c ∈ after.head?, c.isDigit = false

/-- The text of a token, and what follows it. Identifiers and numbers other than zero go on as long
as they can. -/
inductive Lexeme : Token → List Char → List Char → Prop where
  | symbol {after : List Char} (symbol : Symbol) :
      Lexeme (.symbol symbol) symbol.text.toList after
  | backslash {after : List Char} : Lexeme (.symbol .lambda) ['\\'] after
  | zero {after : List Char} : Lexeme (.nat 0) ['0'] after
  | number {after : List Char} (value : Nat) : DigitRun (toString value).toList after →
      value < numberBound → Lexeme (.nat value) (toString value).toList after
  | identifier {after : List Char} (name : String) : isIdentifier name = true →
      (∀ c ∈ after.head?, isNamePart c = false) → Lexeme (.ident name) name.toList after

/-- A text that begins at an offset, what follows it, and its tokens: it is nothing but skipped
pieces and the texts of the tokens. -/
inductive Lexed : Nat → List Char → List Char → List (Located Token) → Prop where
  | nothing {offset : Nat} {after : List Char} : Lexed offset [] after []
  | skip {offset : Nat} {gap rest after : List Char} {tokens : List (Located Token)} :
      Skipped gap (rest ++ after) → Lexed (offset + gap.length) rest after tokens →
      Lexed offset (gap ++ rest) after tokens
  | token {offset : Nat} {value : Token} {text rest after : List Char}
      {tokens : List (Located Token)} :
      Lexeme value text (rest ++ after) → Lexed (offset + text.length) rest after tokens →
      Lexed offset (text ++ rest) after
        (⟨value, ⟨offset, offset + text.length⟩⟩ :: tokens)

def CanStart (c : Char) : Prop :=
  ∃ rest after, Skipped (c :: rest) after ∨ ∃ token, Lexeme token (c :: rest) after

/-- A text that begins at an offset where no piece goes on, and the error there. -/
inductive Fails (offset : Nat) : List Char → SourceError → Prop where
  | stray (c : Char) (rest : List Char) : ¬ CanStart c →
      Fails offset (c :: rest) (.strayCharacter c ⟨offset, offset + 1⟩)
  | colon (c : Char) (rest : List Char) : c ≠ ':' → c ≠ '=' →
      Fails offset (':' :: c :: rest) (.loneColon (some c) ⟨offset + 1, offset + 2⟩)
  | lastColon : Fails offset [':'] (.loneColon none ⟨offset + 1, offset + 1⟩)
  | tooLarge {rest : List Char} (value : Nat) : DigitRun (toString value).toList rest →
      numberBound ≤ value →
      Fails offset ((toString value).toList ++ rest)
        (.numberTooLarge ⟨offset, offset + (toString value).toList.length⟩)

namespace Lexeme

variable {token : Token} {text after : List Char}

/-- The text is the one that the token is shown with, or the backslash for a lambda. -/
theorem spelled (lexeme : Lexeme token text after) :
    text = token.text.toList ∨ token = .symbol .lambda ∧ text = ['\\'] := by
  cases lexeme with
  | backslash => exact Or.inr ⟨rfl, rfl⟩
  | zero => exact Or.inl rfl
  | symbol symbol => exact Or.inl rfl
  | number value run fits => exact Or.inl rfl
  | identifier name identifier ends => exact Or.inl rfl

theorem ne_nil (lexeme : Lexeme token text after) : text ≠ [] := by
  cases lexeme with
  | symbol symbol => cases symbol <;> decide
  | backslash => exact List.cons_ne_nil _ _
  | zero => exact List.cons_ne_nil _ _
  | number value run fits =>
      intro none
      obtain ⟨c, first, _⟩ := run.first
      rw [none] at first
      cases first
  | identifier name identifier ends =>
      intro none
      rw [isIdentifier, none] at identifier
      cases identifier

end Lexeme

/-! ### Other followers -/

section Followers

variable {after after' : List Char}

/-- Whatever ends before `after` ends before `after'` as well: it begins with the same character, or
with a line break, or is nothing. -/
def EndsAlike (after after' : List Char) : Prop :=
  ∀ c ∈ after'.head?, c = '\n' ∨ c ∈ after.head?

theorem EndsAlike.append (alike : EndsAlike after after') (rest : List Char) :
    EndsAlike (rest ++ after) (rest ++ after') := by
  cases rest with
  | nil => exact alike
  | cons c rest => exact fun _ same => Or.inr same

theorem EndsAlike.forall_head (alike : EndsAlike after after') {property : Char → Prop}
    (lineBreak : property '\n') (before : ∀ c ∈ after.head?, property c) :
    ∀ c ∈ after'.head?, property c := by
  intro c head
  rcases alike c head with rfl | same
  · exact lineBreak
  · exact before c same

theorem Skipped.before {gap : List Char} (skipped : Skipped gap after)
    (alike : EndsAlike after after') : Skipped gap after' := by
  cases skipped with
  | blank c isBlank => exact .blank c isBlank
  | comment body inLine ends => exact .comment body inLine (alike.forall_head rfl ends)

theorem DigitRun.before {digits : List Char} (run : DigitRun digits after)
    (alike : EndsAlike after after') : DigitRun digits after' where
  first := run.first
  digits := run.digits
  ends := alike.forall_head (by decide) run.ends

theorem Lexeme.before {token : Token} {text : List Char} (lexeme : Lexeme token text after)
    (alike : EndsAlike after after') : Lexeme token text after' := by
  cases lexeme with
  | symbol symbol => exact .symbol symbol
  | backslash => exact .backslash
  | zero => exact .zero
  | number value run fits => exact .number value (run.before alike) fits
  | identifier name identifier ends =>
      exact .identifier name identifier (alike.forall_head (by decide) ends)

theorem Lexed.before {offset : Nat} {text : List Char} {tokens : List (Located Token)}
    (lexed : Lexed offset text after tokens) (alike : EndsAlike after after') :
    Lexed offset text after' tokens := by
  induction lexed with
  | nothing => exact .nothing
  | skip skipped _ ih => exact .skip (skipped.before (alike.append _)) (ih alike)
  | token lexeme _ ih => exact .token (lexeme.before (alike.append _)) (ih alike)

theorem Lexed.before_nothing {offset : Nat} {text : List Char} {tokens : List (Located Token)}
    (lexed : Lexed offset text after tokens) : Lexed offset text [] tokens :=
  lexed.before nofun

end Followers

/-! ### Digits -/

theorem exists_digitChar {c : Char} (digit : c.isDigit = true) :
    ∃ value, value < 10 ∧ value.digitChar = c := by
  have code : 48 ≤ c.toNat ∧ c.toNat ≤ 57 := Char.isDigit_iff_toNat.mp digit
  obtain ⟨value, shift⟩ := Nat.exists_eq_add_of_le code.1
  have small : value < 10 := by omega
  refine ⟨value, small, Char.toNat_inj.mp ?_⟩
  rw [shift]
  interval_cases value <;> rfl

/-- Digits that do not begin with a zero are the text of a number. -/
theorem exists_toDigits {digits : List Char} (all : ∀ c ∈ digits, c.isDigit = true)
    (first : ∃ c ∈ digits.head?, c ≠ '0') :
    ∃ value, 0 < value ∧ Nat.toDigits 10 value = digits := by
  induction digits using List.reverseRecOn with
  | nil =>
      obtain ⟨c, none, _⟩ := first
      cases none
  | append_singleton digits c ih =>
      obtain ⟨last, lt, rfl⟩ := exists_digitChar (all c (by simp))
      cases digits with
      | nil =>
          have pos : last ≠ 0 := by
            rintro rfl
            obtain ⟨c, head, different⟩ := first
            cases head
            exact different rfl
          exact ⟨last, Nat.pos_of_ne_zero pos, Nat.toDigits_of_lt_base lt⟩
      | cons head digits =>
          obtain ⟨value, pos, text⟩ :=
            ih (fun c member => all c (List.mem_append_left _ member)) first
          refine ⟨10 * value + last, by omega, ?_⟩
          rw [← Nat.toDigits_append_toDigits (by decide) pos lt, text,
            Nat.toDigits_of_lt_base lt]

theorem DigitRun.pos {value : Nat} {after : List Char}
    (run : DigitRun (toString value).toList after) : 0 < value := by
  refine Nat.pos_of_ne_zero ?_
  rintro rfl
  obtain ⟨c, head, different⟩ := run.first
  cases head
  exact different rfl

/-! ### Where a piece can begin -/

theorem isNameStart_of_isIdentifier {name : String} {c : Char} {rest : List Char}
    (identifier : isIdentifier name = true) (text : name.toList = c :: rest) :
    isNameStart c = true := by
  rw [isIdentifier, text] at identifier
  exact ((Bool.and_eq_true ..).mp identifier).1

theorem Symbol.starts_of_text {symbol : Symbol} {c : Char} {rest : List Char}
    (text : symbol.text.toList = c :: rest) : c = ':' ∨ (ofChar? c).isSome = true := by
  cases symbol <;> cases text <;> decide

theorem Lexeme.symbol_of_ofChar? {c : Char} {symbol : Symbol} {after : List Char}
    (spelled : Symbol.ofChar? c = some symbol) : Lexeme (.symbol symbol) [c] after := by
  unfold Symbol.ofChar? at spelled
  split at spelled
  all_goals cases spelled
  · exact .symbol .leftParen
  · exact .symbol .rightParen
  · exact .symbol .leftAngle
  · exact .symbol .rightAngle
  · exact .symbol .leftBracket
  · exact .symbol .rightBracket
  · exact .symbol .comma
  · exact .symbol .dot
  · exact .symbol .semicolon
  · exact .backslash
  · exact .symbol .lambda

theorem canStart_iff (c : Char) :
    CanStart c ↔ isBlank c = true ∨ c = '#' ∨ c = ':' ∨ c = '0' ∨ isNameStart c = true ∨
      (Symbol.ofChar? c).isSome = true ∨ c.isDigit = true := by
  constructor
  · rintro ⟨rest, after, skipped | ⟨token, lexeme⟩⟩
    · cases skipped with
      | blank _ blank => exact Or.inl blank
      | comment body inLine ends => exact Or.inr (Or.inl rfl)
    · generalize text : c :: rest = cs at lexeme
      cases lexeme with
      | symbol symbol =>
          rcases Symbol.starts_of_text text.symm with colon | spelled
          · simp [colon]
          · simp [spelled]
      | backslash => cases text; simp [Symbol.ofChar?]
      | zero => cases text; simp
      | number value run fits =>
          have digit := run.digits c (text ▸ List.mem_cons_self)
          simp [digit]
      | identifier name identifier ends =>
          have letter := isNameStart_of_isIdentifier identifier text.symm
          simp [letter]
  · rintro (blank | rfl | rfl | rfl | letter | spelled | digit)
    · exact ⟨[], [], Or.inl (.blank c blank)⟩
    · exact ⟨[], [], Or.inl (.comment [] (by simp) nofun)⟩
    · exact ⟨[':'], [], Or.inr ⟨_, .symbol .cons⟩⟩
    · exact ⟨[], [], Or.inr ⟨_, .zero⟩⟩
    · have identifier : isIdentifier (String.ofList [c]) = true := by
        simp [isIdentifier, letter]
      have lexeme : Lexeme _ (String.ofList [c]).toList [] := .identifier _ identifier nofun
      rw [String.toList_ofList] at lexeme
      exact ⟨[], [], Or.inr ⟨_, lexeme⟩⟩
    · obtain ⟨symbol, spelled⟩ := Option.isSome_iff_exists.mp spelled
      exact ⟨[], [], Or.inr ⟨_, .symbol_of_ofChar? spelled⟩⟩
    · by_cases zero : c = '0'
      · exact ⟨[], [], Or.inr ⟨.nat 0, zero ▸ Lexeme.zero⟩⟩
      · obtain ⟨value, lt, rfl⟩ := exists_digitChar digit
        have text : (toString value).toList = [value.digitChar] := by
          rw [toList_toString, Nat.toDigits_of_lt_base lt]
        have run : DigitRun (toString value).toList [] := by
          rw [text]
          exact ⟨⟨_, rfl, zero⟩, by simpa using digit, nofun⟩
        have lexeme := Lexeme.number value run (Nat.lt_trans lt (by decide))
        rw [text] at lexeme
        exact ⟨[], [], Or.inr ⟨_, lexeme⟩⟩

/-! ### Scans of pieces -/

namespace Scan

def finish (scan : Scan) (cs : List Char) : Except SourceError Scan :=
  cs.foldlM feed scan >>= close

def further (scan : Scan) (length : Nat) (tokens : List (Located Token)) : Scan :=
  ⟨scan.offset + length, .nothing, tokens.reverse ++ scan.tokens⟩

theorem further_zero {scan : Scan} (nothing : scan.pending = .nothing) :
    scan.further 0 [] = scan := by
  obtain ⟨offset, pending, tokens⟩ := scan
  cases nothing
  rfl

theorem further_further (scan : Scan) (length length' : Nat)
    (tokens tokens' : List (Located Token)) :
    (scan.further length tokens).further length' tokens' =
      scan.further (length + length') (tokens ++ tokens') := by
  simp [further, Nat.add_assoc]

theorem tokenize_eq (source : String) :
    tokenize source = (start.finish source.toList).map fun scan => scan.tokens.reverse := by
  rw [tokenize, finish]
  cases source.toList.foldlM feed start with
  | error error => rfl
  | ok scan =>
      change (scan.close >>= fun closed => pure closed.tokens.reverse) = scan.close.map _
      cases scan.close <;> rfl

theorem close_of_nothing {scan : Scan} (nothing : scan.pending = .nothing) :
    scan.close = .ok scan := by
  rw [close, nothing]

theorem feed_of_nothing {scan : Scan} (nothing : scan.pending = .nothing) (c : Char) :
    scan.feed c = scan.begin c := by
  rw [feed, nothing]

theorem offset_close {scan closed : Scan} (closing : scan.close = .ok closed) :
    closed.offset = scan.offset := by
  unfold close at closing
  split at closing
  · cases closing; rfl
  · cases closing; rfl
  · cases closing
  · split at closing <;> cases closing; rfl
  · cases closing; rfl

theorem offset_begin {scan next : Scan} {c : Char} (begun : scan.begin c = .ok next) :
    next.offset = scan.offset + 1 := by
  unfold begin at begun
  repeat' split at begun
  all_goals cases begun
  all_goals rfl

theorem offset_feed {scan next : Scan} {c : Char} (fed : scan.feed c = .ok next) :
    next.offset = scan.offset + 1 := by
  have restarted (again : scan.restart c = .ok next) : next.offset = scan.offset + 1 := by
    unfold restart at again
    split at again
    · rename_i closed closing
      rw [offset_begin again, offset_close closing]
    · cases again
  unfold feed at fed
  split at fed
  · exact offset_begin fed
  · cases fed; rfl
  · split at fed <;> cases fed; rfl
  · split at fed
    · cases fed; rfl
    · exact restarted fed
  · split at fed
    · cases fed; rfl
    · exact restarted fed

theorem offset_foldlM {cs : List Char} {scan next : Scan}
    (fed : cs.foldlM feed scan = .ok next) : next.offset = scan.offset + cs.length := by
  induction cs generalizing scan with
  | nil => cases fed; rfl
  | cons c cs ih =>
      obtain ⟨middle, first, rest⟩ := Except.exists_of_bind fed
      rw [ih rest, offset_feed first, List.length_cons]
      omega

theorem finish_append {scan middle : Scan} {text : List Char} (after : List Char)
    (reads : text.foldlM feed scan = .ok middle) :
    scan.finish (text ++ after) = middle.finish after := by
  rw [finish, List.foldlM_append, reads]
  rfl

/-- What is pending at the end of a piece ends there, if what follows does not go on with it. -/
theorem finish_eq_of_close {scan closed : Scan} {after : List Char}
    (closing : scan.close = .ok closed)
    (begins : ∀ c ∈ after.head?, scan.feed c = closed.begin c) :
    scan.finish after = closed.finish after := by
  have nothing := pending_of_close closing
  cases after with
  | nil => exact closing.trans (close_of_nothing nothing).symm
  | cons c after =>
      rw [finish, finish, List.foldlM_cons, List.foldlM_cons, begins c rfl,
        feed_of_nothing nothing]

theorem begin_stray {c : Char} (stray : ¬ CanStart c) (scan : Scan) :
    scan.begin c = .error (.strayCharacter c ⟨scan.offset, scan.offset + 1⟩) := by
  rw [canStart_iff] at stray
  simp only [not_or, Bool.not_eq_true] at stray
  obtain ⟨blank, hash, colon, zero, letter, noSymbol, digit⟩ := stray
  have spells : Symbol.ofChar? c = none := by simpa using noSymbol
  have noDigit : digitValue? c = none := by simp [digitValue?, digit]
  simp [begin, blank, hash, colon, zero, letter, spells, noDigit, Span.single]

/-- A comment stays pending up to the end of its line. -/
theorem reads_comment {body : List Char} (inLine : '\n' ∉ body) {scan : Scan}
    (comment : scan.pending = .comment) :
    body.foldlM feed scan = .ok ⟨scan.offset + body.length, .comment, scan.tokens⟩ := by
  induction body generalizing scan with
  | nil => rw [← comment]; rfl
  | cons c body ih =>
      rw [List.mem_cons, not_or] at inLine
      have passes : scan.feed c = .ok (scan.pass .comment) := by
        rw [feed, comment]
        simp [Ne.symm inLine.1]
      have rest : (scan.pass .comment).pending = .comment := rfl
      rw [List.foldlM_cons, passes]
      refine (ih inLine.2 rest).trans ?_
      simp [Scan.pass, Nat.add_assoc, Nat.add_comm 1]

/-- After a digit run the number is pending. -/
theorem reads_digits {scan : Scan} (nothing : scan.pending = .nothing) {value : Nat}
    (pos : 0 < value) :
    (toString value).toList.foldlM feed scan =
      .ok ⟨scan.offset + (toString value).toList.length, .number scan.offset value,
        scan.tokens⟩ := by
  obtain ⟨⟨offset, pending, tokens⟩, feeds, rfl, rfl⟩ := feed_digits pos nothing
  rw [← toList_toString] at feeds
  rw [feeds, ← offset_foldlM feeds]

/-- After the characters of an identifier they are pending. -/
theorem reads_identifier {scan : Scan} (nothing : scan.pending = .nothing) {name : String}
    (identifier : isIdentifier name = true) :
    name.toList.foldlM feed scan =
      .ok ⟨scan.offset + name.toList.length, .word scan.offset name.toList.reverse,
        scan.tokens⟩ := by
  unfold isIdentifier at identifier
  split at identifier
  · cases identifier
  · rename_i c cs spelled
    rw [Bool.and_eq_true] at identifier
    obtain ⟨⟨offset, pending, tokens⟩, feeds, rfl, rfl⟩ :=
      feed_letters scan.offset cs [c] identifier.2 (scan.pass (.word scan.offset [c])) rfl
    have reads : (c :: cs).foldlM feed scan =
        .ok ⟨offset, .word scan.offset (cs.reverse ++ [c]), scan.tokens⟩ := by
      rw [List.foldlM_cons, feed_of_nothing nothing, begin_letter identifier.1]
      exact feeds
    have place := offset_foldlM reads
    rw [spelled, reads, ← place, List.reverse_cons]

end Scan

open Scan

/-- The scan of a text passes what is skipped. -/
theorem Skipped.finish {gap after : List Char} (skipped : Skipped gap after) {scan : Scan}
    (nothing : scan.pending = .nothing) :
    scan.finish (gap ++ after) = (scan.further gap.length []).finish after := by
  cases skipped with
  | blank c blank =>
      have reads : [c].foldlM feed scan = .ok (scan.pass .nothing) := by
        rw [List.foldlM_cons, feed_of_nothing nothing, begin, blank]
        rfl
      exact finish_append after reads
  | comment body inLine ends =>
      have begun : ('#' :: body).foldlM feed scan =
          .ok ⟨scan.offset + (body.length + 1), .comment, scan.tokens⟩ := by
        have rest : (scan.pass .comment).pending = .comment := rfl
        rw [List.foldlM_cons, feed_of_nothing nothing]
        refine (reads_comment inLine rest).trans ?_
        simp [Scan.pass, Nat.add_assoc, Nat.add_comm 1]
      rw [finish_append after begun]
      refine finish_eq_of_close rfl fun c head => ?_
      -- A line break ends the comment and is then a blank.
      rw [ends c head]
      rfl

theorem Lexeme.finish {token : Token} {text after : List Char} (lexeme : Lexeme token text after)
    {scan : Scan} (nothing : scan.pending = .nothing) :
    scan.finish (text ++ after) =
      (scan.further text.length [⟨token, ⟨scan.offset, scan.offset + text.length⟩⟩]).finish
        after := by
  cases lexeme with
  | symbol symbol =>
      refine finish_append after ?_
      obtain ⟨offset, pending, tokens⟩ := scan
      cases nothing
      cases symbol <;> rfl
  | backslash =>
      refine finish_append after ?_
      rw [List.foldlM_cons, feed_of_nothing nothing]
      rfl
  | zero =>
      refine finish_append after ?_
      rw [List.foldlM_cons, feed_of_nothing nothing]
      rfl
  | number value run fits =>
      rw [finish_append after (reads_digits nothing run.pos)]
      refine finish_eq_of_close ?_ fun c head => ?_
      · simp [close, fits, emit, further]
      · have noDigit : digitValue? c = none := by simp [digitValue?, run.ends c head]
        simp [feed, noDigit, restart, close, fits, emit, further]
  | identifier name identifier ends =>
      rw [finish_append after (reads_identifier nothing identifier)]
      refine finish_eq_of_close ?_ fun c head => ?_
      · simp [close, emit, further]
      · simp [feed, ends c head, restart, close, emit, further]

theorem Lexed.finish {offset : Nat} {text after : List Char} {tokens : List (Located Token)}
    (lexed : Lexed offset text after tokens) {scan : Scan} (nothing : scan.pending = .nothing)
    (place : scan.offset = offset) :
    scan.finish (text ++ after) = (scan.further text.length tokens).finish after := by
  induction lexed generalizing scan with
  | nothing => rw [List.length_nil, further_zero nothing]; rfl
  | skip skipped _ ih =>
      rw [List.append_assoc, skipped.finish nothing, ih rfl (by rw [← place]; rfl),
        further_further, List.length_append, List.nil_append]
  | token lexeme _ ih =>
      rw [List.append_assoc, lexeme.finish nothing, ih rfl (by rw [← place]; rfl),
        further_further, List.length_append, place]
      rfl

theorem Fails.finish {offset : Nat} {text : List Char} {error : SourceError}
    (fails : Fails offset text error) {scan : Scan} (nothing : scan.pending = .nothing)
    (place : scan.offset = offset) : scan.finish text = .error error := by
  subst place
  cases fails with
  | stray c rest stray =>
      rw [Scan.finish, List.foldlM_cons, feed_of_nothing nothing, begin_stray stray]
      rfl
  | colon c rest notCons notDefine =>
      have spells : Symbol.afterColon? c = none := by
        unfold Symbol.afterColon?
        split
        · exact absurd rfl notCons
        · exact absurd rfl notDefine
        · rfl
      have reads : [':'].foldlM feed scan = .ok (scan.pass .colon) := by
        rw [List.foldlM_cons, feed_of_nothing nothing]
        rfl
      refine (finish_append (c :: rest) reads).trans ?_
      rw [Scan.finish, List.foldlM_cons]
      simp [feed, Scan.pass, spells, Span.single, bind, Except.bind]
  | lastColon =>
      rw [Scan.finish, List.foldlM_cons, feed_of_nothing nothing]
      rfl
  | @tooLarge rest value run large =>
      rw [finish_append rest (reads_digits nothing run.pos)]
      have exceeds : ¬ value < numberBound := Nat.not_lt.mpr large
      cases rest with
      | nil => simp [Scan.finish, close, exceeds, bind, Except.bind, pure, Except.pure]
      | cons c rest =>
          have noDigit : digitValue? c = none := by simp [digitValue?, run.ends c rfl]
          rw [Scan.finish, List.foldlM_cons]
          simp [feed, noDigit, restart, close, exceeds, bind, Except.bind]

end UntypedLambda.Surface
