import Mathlib.Tactic.IntervalCases
import UntypedLambda.Surface.Scan

set_option autoImplicit false

/-! Scanning what is printed. A scan that is inside no comment and after no single colon holds the
tokens that it would have if the text ended here. A symbol or a blank adds to them whatever is
pending, and an identifier or a number does so where nothing is pending. -/

namespace UntypedLambda.Surface

open Text

def isIdentifier (name : String) : Bool :=
  match name.toList with
  | [] => false
  | c :: cs => isNameStart c && cs.all isNamePart

/-! ### Characters -/

theorem isNameStart_cases {c : Char} (letter : isNameStart c = true) :
    65 ≤ c.toNat ∧ c.toNat ≤ 90 ∨ c.toNat = 95 ∨ 97 ≤ c.toNat ∧ c.toNat ≤ 122 := by
  rcases (Bool.or_eq_true ..).mp letter with alpha | underscore
  · rcases (Bool.or_eq_true ..).mp alpha with upper | lower
    · have bounds : 65 ≤ c.val ∧ c.val ≤ 90 := of_decide_eq_true upper
      exact Or.inl bounds
    · have bounds : decide (97 ≤ c.val) = true ∧ decide (c.val ≤ 122) = true :=
        (Bool.and_eq_true ..).mp lower
      exact Or.inr (Or.inr ⟨of_decide_eq_true bounds.1, of_decide_eq_true bounds.2⟩)
  · rw [eq_of_beq underscore]
    exact Or.inr (Or.inl rfl)

/-- The printable characters of ASCII other than the space are not blank. -/
theorem isBlank_eq_false {c : Char} (above : 32 < c.toNat) (below : c.toNat < 127) :
    isBlank c = false := by
  simp only [isBlank, inRanges, blankRanges, List.any_cons, List.any_nil, Bool.or_eq_false_iff,
    Bool.and_eq_false_iff, decide_eq_false_iff_not]
  refine ⟨?_, ?_, ?_, ?_, ?_, ?_, ?_, ?_, ?_, ?_, trivial⟩ <;> omega

theorem isBlank_of_isNameStart {c : Char} (letter : isNameStart c = true) : isBlank c = false := by
  have code := isNameStart_cases letter
  exact isBlank_eq_false (by omega) (by omega)

theorem toList_toString (value : Nat) : (toString value).toList = Nat.toDigits 10 value :=
  Nat.toList_repr

theorem isDigit_of_mem_toString {value : Nat} {c : Char} (member : c ∈ (toString value).toList) :
    c.isDigit = true := by
  rw [toList_toString] at member
  exact Nat.isDigit_of_mem_toDigits (by decide) (by decide) member

theorem ne_of_isNameStart {c d : Char} (letter : isNameStart c = true)
    (other : isNameStart d = false) : (c == d) = false := by
  rw [beq_eq_false_iff_ne]
  rintro rfl
  rw [letter] at other
  cases other

theorem digitValue?_eq_none {c : Char} (other : isNamePart c = false) : digitValue? c = none := by
  have digit : c.isDigit = false := (Bool.or_eq_false_iff.mp other).2
  rw [digitValue?, digit]
  rfl

theorem isNamePart_of_ofChar? {c : Char} {symbol : Symbol}
    (spelled : Symbol.ofChar? c = some symbol) : isNamePart c = false := by
  unfold Symbol.ofChar? at spelled
  split at spelled
  all_goals first
    | decide
    | cases spelled

namespace Scan

theorem begin_symbol {c : Char} {symbol : Symbol} (spelled : Symbol.ofChar? c = some symbol)
    (scan : Scan) :
    scan.begin c = .ok ((scan.pass .nothing).emit (.symbol symbol) scan.offset) := by
  unfold Symbol.ofChar? at spelled
  split at spelled
  all_goals cases spelled <;> rfl

theorem begin_letter {c : Char} (letter : isNameStart c = true) (scan : Scan) :
    scan.begin c = .ok (scan.pass (.word scan.offset [c])) := by
  rw [begin, isBlank_of_isNameStart letter, ne_of_isNameStart letter (by decide),
    ne_of_isNameStart letter (by decide), ne_of_isNameStart letter (by decide), letter]
  rfl

theorem begin_digit {digit : Nat} (pos : 0 < digit) (lt : digit < 10) (scan : Scan) :
    scan.begin digit.digitChar = .ok (scan.pass (.number scan.offset digit)) := by
  interval_cases digit <;> rfl

/-! ### What a scan holds -/

/-- The tokens of the scan, latest first, are `values` when what is pending ends here. -/
structure Holds (scan : Scan) (values : List Token) : Prop where
  outside : scan.pending ≠ .comment
  closes : ∃ closed, scan.close = .ok closed ∧ closed.tokens.map Located.value = values

theorem holds_of_nothing {scan : Scan} {values : List Token} (nothing : scan.pending = .nothing)
    (tokens : scan.tokens.map Located.value = values) : scan.Holds values where
  outside := by simp [nothing]
  closes := ⟨scan, by rw [close, nothing], tokens⟩

theorem Holds.tokens_of_nothing {scan : Scan} {values : List Token} (holds : scan.Holds values)
    (nothing : scan.pending = .nothing) : scan.tokens.map Located.value = values := by
  obtain ⟨closed, closing, tokens⟩ := holds.closes
  rw [close, nothing] at closing
  rw [← tokens, ← Except.ok.inj closing]

theorem pending_of_close {scan closed : Scan} (closing : scan.close = .ok closed) :
    closed.pending = .nothing := by
  unfold close at closing
  split at closing
  · rename_i nothing
    rw [← Except.ok.inj closing, nothing]
  · rw [← Except.ok.inj closing]
  · cases closing
  · split at closing
    · rw [← Except.ok.inj closing]
      rfl
    · cases closing
  · rw [← Except.ok.inj closing]
    rfl

/-- A character that continues no name ends what is pending. -/
theorem Holds.feed_eq_begin {scan : Scan} {values : List Token} (holds : scan.Holds values)
    {c : Char} (other : isNamePart c = false) :
    ∃ closed : Scan, scan.feed c = closed.begin c ∧ closed.pending = .nothing ∧
      closed.tokens.map Located.value = values := by
  obtain ⟨closed, closing, tokens⟩ := holds.closes
  refine ⟨closed, ?_, pending_of_close closing, tokens⟩
  cases pending : scan.pending with
  | nothing =>
      rw [close, pending] at closing
      rw [feed, pending, Except.ok.inj closing]
  | comment => exact absurd pending holds.outside
  | colon =>
      rw [close, pending] at closing
      cases closing
  | number first value => simp only [feed, pending, digitValue?_eq_none other, restart, closing]
  | word first letters =>
      simp only [feed, pending, other, Bool.false_eq_true, if_false, restart, closing]

/-! ### Symbols, blanks, identifiers and numbers -/

theorem Holds.feed_symbol {scan : Scan} {values : List Token} (holds : scan.Holds values)
    {c : Char} {symbol : Symbol} (spelled : Symbol.ofChar? c = some symbol) :
    ∃ next : Scan, scan.feed c = .ok next ∧ next.pending = .nothing ∧
      next.Holds (.symbol symbol :: values) := by
  obtain ⟨closed, feeds, _, tokens⟩ := holds.feed_eq_begin (isNamePart_of_ofChar? spelled)
  refine ⟨(closed.pass .nothing).emit (.symbol symbol) closed.offset, ?_, rfl, ?_⟩
  · rw [feeds, begin_symbol spelled]
  · exact holds_of_nothing rfl (congrArg (Token.symbol symbol :: ·) tokens)

theorem Holds.feed_blank {scan : Scan} {values : List Token} (holds : scan.Holds values) :
    ∃ next : Scan, scan.feed ' ' = .ok next ∧ next.pending = .nothing ∧ next.Holds values := by
  have other : isNamePart ' ' = false := by decide
  obtain ⟨closed, feeds, _, tokens⟩ := holds.feed_eq_begin other
  exact ⟨closed.pass .nothing, feeds, rfl, holds_of_nothing rfl tokens⟩

theorem feed_letters (first : Nat) (cs letters : List Char) (parts : cs.all isNamePart = true)
    (scan : Scan) (pending : scan.pending = .word first letters) :
    ∃ next : Scan, cs.foldlM feed scan = .ok next ∧
      next.pending = .word first (cs.reverse ++ letters) ∧ next.tokens = scan.tokens := by
  induction cs generalizing scan letters with
  | nil => exact ⟨scan, rfl, pending, rfl⟩
  | cons c cs ih =>
      rw [List.all_cons, Bool.and_eq_true] at parts
      obtain ⟨next, feeds, nextPending, tokens⟩ :=
        ih (c :: letters) parts.2 (scan.pass (.word first (c :: letters))) rfl
      refine ⟨next, ?_, ?_, tokens⟩
      · rw [List.foldlM_cons, feed, pending]
        simp only [parts.1, if_true]
        exact feeds
      · rw [nextPending, List.reverse_cons, List.append_assoc]
        rfl

theorem Holds.feed_identifier {scan : Scan} {values : List Token} (holds : scan.Holds values)
    (nothing : scan.pending = .nothing) {name : String} (identifier : isIdentifier name = true) :
    ∃ next : Scan, name.toList.foldlM feed scan = .ok next ∧
      next.Holds (.ident name :: values) := by
  unfold isIdentifier at identifier
  cases spelled : name.toList with
  | nil =>
      rw [spelled] at identifier
      cases identifier
  | cons c cs =>
      rw [spelled, Bool.and_eq_true] at identifier
      obtain ⟨next, feeds, pending, tokens⟩ :=
        feed_letters scan.offset cs [c] identifier.2 (scan.pass (.word scan.offset [c])) rfl
      refine ⟨next, ?_, by simp [pending], next.emit (.ident name) scan.offset, ?_, ?_⟩
      · rw [List.foldlM_cons, feed, nothing]
        simp only [begin_letter identifier.1]
        exact feeds
      · have letters : (cs.reverse ++ [c]).reverse = name.toList := by simp [spelled]
        simp only [close, pending, letters, String.ofList_toList]
      · change Token.ident name :: next.tokens.map Located.value = _
        rw [tokens]
        exact congrArg (Token.ident name :: ·) (holds.tokens_of_nothing nothing)

/-- A colon and the character after it are one symbol. -/
theorem Holds.feed_afterColon {scan : Scan} {values : List Token} (holds : scan.Holds values)
    {c : Char} {symbol : Symbol} (spelled : Symbol.afterColon? c = some symbol) :
    ∃ next : Scan, [':', c].foldlM feed scan = .ok next ∧ next.pending = .nothing ∧
      next.Holds (.symbol symbol :: values) := by
  have other : isNamePart ':' = false := by decide
  obtain ⟨closed, feeds, _, tokens⟩ := holds.feed_eq_begin other
  have colon : scan.feed ':' = .ok (closed.pass .colon) := feeds
  refine ⟨((closed.pass .colon).pass .nothing).emit (.symbol symbol)
    ((closed.pass .colon).offset - 1), ?_, rfl, ?_⟩
  · have after : (closed.pass .colon).feed c = .ok (((closed.pass .colon).pass .nothing).emit
        (.symbol symbol) ((closed.pass .colon).offset - 1)) := by
      simp only [feed, pass, spelled]
    rw [List.foldlM_cons, colon]
    change [c].foldlM feed (closed.pass .colon) = _
    rw [List.foldlM_cons, after]
    rfl
  · exact holds_of_nothing rfl (congrArg (Token.symbol symbol :: ·) tokens)

private theorem digitValue?_digitChar {digit : Nat} (lt : digit < 10) :
    digitValue? digit.digitChar = some digit := by
  interval_cases digit <;> rfl

/-- After the digits of a number, the number is pending. -/
theorem feed_digits {value : Nat} (pos : 0 < value) {scan : Scan}
    (nothing : scan.pending = .nothing) :
    ∃ next : Scan, (Nat.toDigits 10 value).foldlM feed scan = .ok next ∧
      next.pending = .number scan.offset value ∧ next.tokens = scan.tokens := by
  induction value using Nat.strong_induction_on with
  | _ value ih =>
      by_cases single : value < 10
      · refine ⟨scan.pass (.number scan.offset value), ?_, rfl, rfl⟩
        rw [Nat.toDigits_of_lt_base single, List.foldlM_cons, feed, nothing]
        simp only [begin_digit pos single]
        rfl
      · -- The last digit comes after the digits of a tenth of the number.
        have several : 10 ≤ value := Nat.le_of_not_lt single
        obtain ⟨next, feeds, pending, tokens⟩ :=
          ih (value / 10) (Nat.div_lt_self pos (by decide)) (Nat.div_pos several (by decide))
        have last : next.feed (value % 10).digitChar =
            .ok (next.pass (.number scan.offset value)) := by
          have whole : 10 * (value / 10) + value % 10 = value := Nat.div_add_mod value 10
          have digit := digitValue?_digitChar (Nat.mod_lt value (by decide : 0 < 10))
          simp only [feed, pending, digit, whole]
        refine ⟨next.pass (.number scan.offset value), ?_, rfl, tokens⟩
        rw [Nat.toDigits_of_base_le (by decide) several, List.foldlM_append, feeds]
        change [(value % 10).digitChar].foldlM feed next = _
        rw [List.foldlM_cons, last]
        rfl

theorem Holds.feed_number {scan : Scan} {values : List Token} (holds : scan.Holds values)
    (nothing : scan.pending = .nothing) {value : Nat} (fits : value < numberBound) :
    ∃ next : Scan, (toString value).toList.foldlM feed scan = .ok next ∧
      next.Holds (.nat value :: values) := by
  have tokens := holds.tokens_of_nothing nothing
  rw [toList_toString]
  rcases Nat.eq_zero_or_pos value with rfl | pos
  · refine ⟨(scan.pass .nothing).emit (.nat 0) scan.offset, ?_, ?_⟩
    · rw [Nat.toDigits_zero, List.foldlM_cons, feed, nothing]
      rfl
    · exact holds_of_nothing rfl (congrArg (Token.nat 0 :: ·) tokens)
  · obtain ⟨next, feeds, pending, unchanged⟩ := feed_digits pos nothing
    refine ⟨next, feeds, by simp [pending], next.emit (.nat value) scan.offset, ?_, ?_⟩
    · rw [close, pending]
      simp only [fits, if_true]
    · change Token.nat value :: next.tokens.map Located.value = _
      rw [unchanged, tokens]

theorem holds_start : Scan.start.Holds [] :=
  holds_of_nothing rfl rfl

end Scan

/-! ### Printers -/

/-- What a function puts in front of a text is scanned as `values`. It is `eager` when it needs
nothing to be pending before it, and `settled` when nothing is pending after it. -/
def Scans (eager settled : Bool) (onto : List Char → List Char) (values : List Token) : Prop :=
  ∀ (scan : Scan) (earlier : List Token), scan.Holds earlier →
    (eager = true → scan.pending = .nothing) →
    ∃ next : Scan, next.Holds (values.reverse ++ earlier) ∧
      (settled = true → next.pending = .nothing) ∧
      ∀ rest, (onto rest).foldlM Scan.feed scan = rest.foldlM Scan.feed next

namespace Scans

variable {eager settled between : Bool} {onto onto' : List Char → List Char}
  {values values' : List Token}

theorem symbol {c : Char} {symbol : Symbol} (spelled : Symbol.ofChar? c = some symbol) :
    Scans false true (c :: ·) [.symbol symbol] := by
  intro scan earlier holds _
  obtain ⟨next, feeds, nothing, nextHolds⟩ := holds.feed_symbol spelled
  refine ⟨next, nextHolds, fun _ => nothing, fun rest => ?_⟩
  rw [List.foldlM_cons, feeds]
  rfl

theorem blank : Scans false true (' ' :: ·) [] := by
  intro scan earlier holds _
  obtain ⟨next, feeds, nothing, nextHolds⟩ := holds.feed_blank
  refine ⟨next, nextHolds, fun _ => nothing, fun rest => ?_⟩
  rw [List.foldlM_cons, feeds]
  rfl

theorem identifier {name : String} (identifier : isIdentifier name = true) :
    Scans true false (name.toList ++ ·) [.ident name] := by
  intro scan earlier holds ready
  obtain ⟨next, feeds, nextHolds⟩ := holds.feed_identifier (ready rfl) identifier
  refine ⟨next, nextHolds, fun wrong => absurd wrong Bool.false_ne_true, fun rest => ?_⟩
  rw [List.foldlM_append, feeds]
  rfl

theorem afterColon {c : Char} {symbol : Symbol} (spelled : Symbol.afterColon? c = some symbol) :
    Scans false true (fun rest => ':' :: c :: rest) [.symbol symbol] := by
  intro scan earlier holds _
  obtain ⟨next, feeds, nothing, nextHolds⟩ := holds.feed_afterColon spelled
  refine ⟨next, nextHolds, fun _ => nothing, fun rest => ?_⟩
  change ([':', c] ++ rest).foldlM Scan.feed scan = _
  rw [List.foldlM_append, feeds]
  rfl

theorem number {value : Nat} (fits : value < numberBound) :
    Scans true false ((toString value).toList ++ ·) [.nat value] := by
  intro scan earlier holds ready
  obtain ⟨next, feeds, nextHolds⟩ := holds.feed_number (ready rfl) fits
  refine ⟨next, nextHolds, fun wrong => absurd wrong Bool.false_ne_true, fun rest => ?_⟩
  rw [List.foldlM_append, feeds]
  rfl

theorem nothing : Scans eager false id [] :=
  fun scan _ holds _ =>
    ⟨scan, holds, fun wrong => absurd wrong Bool.false_ne_true, fun _ => rfl⟩

/-- One text after another, which must settle when the second text needs it. -/
theorem append (first : Scans eager between onto values)
    (second : Scans between settled onto' values') :
    Scans eager settled (fun rest => onto (onto' rest)) (values ++ values') := by
  intro scan earlier holds ready
  obtain ⟨middle, middleHolds, middleReady, feeds⟩ := first scan earlier holds ready
  obtain ⟨next, nextHolds, nextReady, feeds'⟩ := second middle _ middleHolds middleReady
  refine ⟨next, ?_, nextReady, fun rest => (feeds (onto' rest)).trans (feeds' rest)⟩
  rw [List.reverse_append, List.append_assoc]
  exact nextHolds

theorem of_relaxed (relaxed : Scans false settled onto values) : Scans eager settled onto values :=
  fun scan earlier holds _ =>
    relaxed scan earlier holds fun wrong => absurd wrong Bool.false_ne_true

theorem unsettled (scans : Scans eager settled onto values) : Scans eager false onto values := by
  intro scan earlier holds ready
  obtain ⟨next, nextHolds, _, feeds⟩ := scans scan earlier holds ready
  exact ⟨next, nextHolds, fun wrong => absurd wrong Bool.false_ne_true, feeds⟩

theorem tokenize (scans : Scans eager settled onto values) :
    ∃ tokens, tokenize (String.ofList (onto [])) = .ok tokens ∧
      tokens.map Located.value = values := by
  obtain ⟨next, holds, _, feeds⟩ := scans Scan.start [] Scan.holds_start fun _ => rfl
  rw [List.append_nil] at holds
  obtain ⟨closed, closing, tokens⟩ := holds.closes
  have read : (String.ofList (onto [])).toList.foldlM Scan.feed Scan.start = .ok next := by
    rw [String.toList_ofList, feeds]
    rfl
  refine ⟨closed.tokens.reverse, ?_, ?_⟩
  · simp only [Surface.tokenize, read, bind, Except.bind, closing]
    rfl
  · rw [List.map_reverse, tokens, List.reverse_reverse]

end Scans

end UntypedLambda.Surface
