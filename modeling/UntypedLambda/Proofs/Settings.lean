import Mathlib.Data.List.Perm.Basic
import UntypedLambda.Proofs.Surface.Scanning
import UntypedLambda.Session.Command

set_option autoImplicit false

/-! The text of settings restores them. A setting is changed to the value that a text spells for it,
whatever the other settings are, and every value that it can come to has such a text. So the lines
of the text of settings, taken in any order, turn any settings into these. -/

namespace UntypedLambda

/-! ### Decimal texts -/

namespace Text

theorem digitsFrom?_eq {cs : List Char} (digits : ∀ c ∈ cs, c.isDigit = true) (value : Nat) :
    digitsFrom? value cs = some (Nat.ofDigitChars 10 cs value) := by
  induction cs generalizing value with
  | nil => rfl
  | cons c cs ih =>
      have digit : digitValue? c = some (c.toNat - '0'.toNat) := by
        rw [digitValue?, digits c List.mem_cons_self]
        rfl
      rw [digitsFrom?, digit]
      exact ih (fun d member => digits d (List.mem_cons_of_mem _ member)) _

theorem signed?_toString (value : Nat) : signed? (toString value).toList = some (value : Int) := by
  have digits : ∀ c ∈ (toString value).toList, c.isDigit = true :=
    fun _ => Surface.isDigit_of_mem_toString
  have spelled : Nat.ofDigitChars 10 (toString value).toList 0 = value := by
    rw [Surface.toList_toString, Nat.ofDigitChars_ten_toDigits]
  cases text : (toString value).toList with
  | nil =>
      rw [Surface.toList_toString] at text
      exact absurd text Nat.toDigits_ne_nil
  | cons c cs =>
      rw [text] at digits spelled
      have read : digits? (c :: cs) = some value := by
        rw [digits?, digitsFrom?_eq digits, spelled]
      have first := digits c List.mem_cons_self
      -- A digit is neither of the signs.
      unfold signed?
      split
      · cases ‹_ :: _ = _›
        cases first
      · cases ‹_ :: _ = _›
        cases first
      · rw [read]
        rfl

/-- The text of a number that 64 bits hold as an integer is read as that number. -/
theorem int64?_toString {value : Nat} (fits : (value : Int) ≤ Int64.maxValue.toInt) :
    int64? (toString value) = some (value : Int) := by
  rw [int64?, signed?_toString]
  simp [fits]

theorem le_of_int64? {text : String} {value : Int} (read : int64? text = some value) :
    value ≤ Int64.maxValue.toInt := by
  obtain ⟨_, inRange⟩ := Option.filter_eq_some_iff.mp read
  rw [Bool.and_eq_true] at inRange
  exact of_decide_eq_true inRange.2

theorem isBlank_of_isDigit {c : Char} (digit : c.isDigit = true) : isBlank c = false := by
  have code : 48 ≤ c.toNat ∧ c.toNat ≤ 57 := Char.isDigit_iff_toNat.mp digit
  exact Surface.isBlank_eq_false (by omega) (by omega)

/-- The key and the value that a line sets equal: what is on the two sides of its equals sign, without
the blanks at their ends. -/
def assignment? (line : List Char) : Option (String × String) :=
  match line.splitOn '=' with
  | [key, value] => some (trim (String.ofList key), trim (String.ofList value))
  | _ => none

def assignments? (text : String) : Option (List (String × String)) :=
  (text.toList.splitOn '\n').mapM assignment?

theorem dropWhile_isBlank {cs : List Char} (unblank : ∀ c ∈ cs, isBlank c = false) :
    cs.dropWhile isBlank = cs := by
  cases cs with
  | nil => rfl
  | cons c cs => rw [List.dropWhile_cons, unblank c List.mem_cons_self]; rfl

theorem trim_blank {cs : List Char} (unblank : ∀ c ∈ cs, isBlank c = false) :
    trim (String.ofList (' ' :: cs)) = String.ofList cs := by
  have start : trimStart (' ' :: cs) = cs := dropWhile_isBlank unblank
  have stop : (cs.reverse.dropWhile isBlank).reverse = cs := by
    rw [dropWhile_isBlank fun c member => unblank c (List.mem_reverse.mp member),
      List.reverse_reverse]
  rw [trim, String.toList_ofList, start, trimEnd, stop]

/-- A line with one equals sign and a blank after it. -/
theorem assignment?_eq {label value : String} (noSign : '=' ∉ label.toList)
    (plain : ∀ c ∈ value.toList, isBlank c = false ∧ c ≠ '=') :
    assignment? (label ++ "= " ++ value).toList = some (trim label, value) := by
  have text : (label ++ "= " ++ value).toList =
      ['='].intercalate [label.toList, ' ' :: value.toList] := by
    simp
  have noSign' : '=' ∉ ' ' :: value.toList := by
    rw [List.mem_cons, not_or]
    exact ⟨by decide, fun member => (plain '=' member).2 rfl⟩
  have split : (label ++ "= " ++ value).toList.splitOn '=' =
      [label.toList, ' ' :: value.toList] := by
    rw [text]
    refine List.splitOn_intercalate '=' (fun part member => ?_) (List.cons_ne_nil _ _)
    rcases List.mem_pair.mp member with rfl | rfl
    · exact noSign
    · exact noSign'
  have unblank : ∀ c ∈ value.toList, isBlank c = false := fun c member => (plain c member).1
  rw [assignment?, split]
  simp only [trim_blank unblank, String.ofList_toList]

end Text

/-! ### The values of settings -/

namespace Setting

def Value : Setting → Type
  | .strategy => Term.Strategy
  | .mode => Term.Mode
  | .maxSteps => Option Nat
  | .verbose => Bool
  | .fixpoint => Encoding.Combinator
  | .strict => Bool

def ofText? : (setting : Setting) → String → Option setting.Value
  | .strategy => Term.Strategy.ofText?
  | .mode => Term.Mode.ofText?
  | .maxSteps => stepBoundOfText?
  | .verbose => switchOfText?
  | .fixpoint => Encoding.Combinator.ofText?
  | .strict => switchOfText?

def text : (setting : Setting) → setting.Value → String
  | .strategy => Term.Strategy.text
  | .mode => Term.Mode.text
  | .maxSteps => stepBoundText
  | .verbose => switchText
  | .fixpoint => Encoding.Combinator.text
  | .strict => switchText

def all : List Setting :=
  [.strategy, .mode, .maxSteps, .verbose, .fixpoint, .strict]

theorem mem_all (setting : Setting) : setting ∈ all := by
  cases setting <;> decide

theorem ofKey?_key (setting : Setting) : ofKey? setting.key = some setting := by
  cases setting <;> rfl

theorem key_injective : Function.Injective key := by
  intro first second same
  have found := ofKey?_key first
  rw [same, ofKey?_key] at found
  exact (Option.some.inj found).symm

end Setting

namespace Settings

def get (settings : Settings) : (setting : Setting) → setting.Value
  | .strategy => settings.strategy
  | .mode => settings.mode
  | .maxSteps => settings.maxSteps
  | .verbose => settings.verbose
  | .fixpoint => settings.fixpoint
  | .strict => settings.strict

def put (settings : Settings) : (setting : Setting) → setting.Value → Settings
  | .strategy, value => { settings with strategy := value }
  | .mode, value => { settings with mode := value }
  | .maxSteps, value => { settings with maxSteps := value }
  | .verbose, value => { settings with verbose := value }
  | .fixpoint, value => { settings with fixpoint := value }
  | .strict, value => { settings with strict := value }

theorem get_put_self (settings : Settings) (setting : Setting) (value : setting.Value) :
    (settings.put setting value).get setting = value := by
  cases setting <;> rfl

theorem get_put_of_ne (settings : Settings) {setting other : Setting} (different : setting ≠ other)
    (value : setting.Value) : (settings.put setting value).get other = settings.get other := by
  cases setting <;> cases other <;> first | rfl | exact absurd rfl different

/-- Settings with the same values are the same. -/
theorem eq_of_get_eq {first second : Settings}
    (same : ∀ setting, first.get setting = second.get setting) : first = second := by
  have strategy : first.strategy = second.strategy := same .strategy
  have mode : first.mode = second.mode := same .mode
  have maxSteps : first.maxSteps = second.maxSteps := same .maxSteps
  have verbose : first.verbose = second.verbose := same .verbose
  have fixpoint : first.fixpoint = second.fixpoint := same .fixpoint
  have strict : first.strict = second.strict := same .strict
  cases first
  cases second
  simp_all

theorem put_comm (settings : Settings) {setting other : Setting} (different : setting ≠ other)
    (value : setting.Value) (value' : other.Value) :
    (settings.put setting value).put other value' =
      (settings.put other value').put setting value := by
  cases setting <;> cases other <;> first | rfl | exact absurd rfl different

/-! ### Changes -/

theorem change_eq (settings : Settings) (setting : Setting) (text : String) :
    settings.change setting text =
      (valueOf setting setting.ofText? text).map (settings.put setting) := by
  have asMap {α : Type} (x : Except SettingError α) (f : α → Settings) :
      (x >>= fun value => pure (f value)) = x.map f := by
    cases x <;> rfl
  cases setting <;> exact asMap _ _

theorem set_eq_ok_iff (settings next : Settings) (key text : String) :
    settings.set key text = .ok next ↔
      ∃ setting value, Setting.ofKey? key = some setting ∧ setting.ofText? text = some value ∧
        next = settings.put setting value := by
  rw [set]
  cases Setting.ofKey? key with
  | none => simp
  | some setting =>
      simp only [change_eq, valueOf, Option.some.injEq]
      cases read : setting.ofText? text with
      | none => simp [Except.map, read]
      | some value => simp [Except.map, read, eq_comm]

/-- The settings after an attempt to change one. A refused attempt leaves them as they are. -/
def attempt (settings : Settings) (key text : String) : Settings :=
  match settings.set key text with
  | .ok next => next
  | .error _ => settings

def attemptAll (settings : Settings) (attempts : List (String × String)) : Settings :=
  attempts.foldl (fun settings pair => settings.attempt pair.1 pair.2) settings

/-- An attempt puts a value in its place, whatever the settings are, or changes no settings. -/
theorem attempt_cases (key text : String) :
    (∃ setting value, Setting.ofKey? key = some setting ∧
      ∀ settings : Settings, settings.attempt key text = settings.put setting value) ∨
    ∀ settings : Settings, settings.attempt key text = settings := by
  by_cases accepted : ∃ setting value,
      Setting.ofKey? key = some setting ∧ setting.ofText? text = some value
  · obtain ⟨setting, value, known, read⟩ := accepted
    refine Or.inl ⟨setting, value, known, fun settings => ?_⟩
    have set := (set_eq_ok_iff settings _ key text).mpr ⟨setting, value, known, read, rfl⟩
    rw [attempt, set]
  · refine Or.inr fun settings => ?_
    rw [attempt]
    cases set : settings.set key text with
    | error error => rfl
    | ok next =>
        obtain ⟨setting, value, known, read, _⟩ := (set_eq_ok_iff settings next key text).mp set
        exact absurd ⟨setting, value, known, read⟩ accepted

/-- Attempts to change different settings commute. -/
theorem attempt_comm (settings : Settings) {key key' : String}
    (different : Setting.ofKey? key ≠ Setting.ofKey? key') (text text' : String) :
    (settings.attempt key text).attempt key' text' =
      (settings.attempt key' text').attempt key text := by
  rcases attempt_cases key text with ⟨setting, value, known, puts⟩ | keeps
  · rcases attempt_cases key' text' with ⟨setting', value', known', puts'⟩ | keeps'
    · rw [known, known', ne_eq, Option.some.injEq] at different
      rw [puts, puts', puts', puts, put_comm settings different]
    · rw [keeps', keeps']
  · rw [keeps, keeps]

def Bounded (settings : Settings) : Prop :=
  ∀ bound ∈ settings.maxSteps, (bound : Int) ≤ Int64.maxValue.toInt

theorem bounded_put {settings : Settings} (bounded : settings.Bounded) {setting : Setting}
    {text : String} {value : setting.Value} (read : setting.ofText? text = some value) :
    (settings.put setting value).Bounded := by
  cases setting with
  | maxSteps =>
      intro bound given
      obtain ⟨n, spelled, rfl⟩ := Option.map_eq_some_iff.mp read
      have le := Text.le_of_int64? spelled
      change bound ∈ stepBound n at given
      unfold stepBound at given
      split at given
      · cases given
      · cases given
        omega
  | strategy => exact bounded
  | mode => exact bounded
  | verbose => exact bounded
  | fixpoint => exact bounded
  | strict => exact bounded

theorem bounded_attempt {settings : Settings} (bounded : settings.Bounded) (key text : String) :
    (settings.attempt key text).Bounded := by
  rw [attempt]
  cases set : settings.set key text with
  | error error => exact bounded
  | ok next =>
      obtain ⟨setting, value, _, read, rfl⟩ := (set_eq_ok_iff settings next key text).mp set
      exact bounded_put bounded read

theorem bounded_attemptAll {settings : Settings} (bounded : settings.Bounded)
    (attempts : List (String × String)) : (settings.attemptAll attempts).Bounded := by
  induction attempts generalizing settings with
  | nil => exact bounded
  | cons pair attempts ih => exact ih (bounded_attempt bounded pair.1 pair.2)

theorem bounded_default : Bounded {} := by
  intro bound given
  cases given
  decide

/-! ### The text of settings -/

/-- The text that a value is shown by spells it. -/
theorem ofText?_text_get {settings : Settings} (bounded : settings.Bounded) (setting : Setting) :
    setting.ofText? (setting.text (settings.get setting)) = some (settings.get setting) := by
  obtain ⟨strategy, mode, maxSteps, verbose, fixpoint, strict⟩ := settings
  cases setting with
  | strategy => cases strategy <;> rfl
  | mode => cases mode <;> rfl
  | maxSteps =>
      cases maxSteps with
      | none =>
          have read : Text.int64? "-1" = some (-1) := by decide
          change (Text.int64? "-1").map stepBound = some none
          rw [read]
          rfl
      | some bound =>
          have read := Text.int64?_toString (bounded bound rfl)
          change (Text.int64? (toString bound)).map stepBound = some (some bound)
          rw [read]
          rfl
  | verbose => cases verbose <;> rfl
  | fixpoint => cases fixpoint <;> rfl
  | strict => cases strict <;> rfl

def pair (settings : Settings) (setting : Setting) : String × String :=
  (setting.key, setting.text (settings.get setting))

theorem set_pair {settings : Settings} (bounded : settings.Bounded) (setting : Setting)
    (target : Settings) :
    target.set (settings.pair setting).1 (settings.pair setting).2 =
      .ok (target.put setting (settings.get setting)) :=
  (set_eq_ok_iff _ _ _ _).mpr
    ⟨setting, _, setting.ofKey?_key, ofText?_text_get bounded setting, rfl⟩

def setAll (settings : Settings) (pairs : List (String × String)) : Except SettingError Settings :=
  pairs.foldlM (fun settings pair => settings.set pair.1 pair.2) settings

/-- Pairs of some settings give them their values, and the others keep theirs. -/
theorem exists_setAll {settings : Settings} (bounded : settings.Bounded)
    (pairs : List (String × String)) (known : ∀ pair ∈ pairs, ∃ setting, settings.pair setting = pair)
    (target : Settings) :
    ∃ next, target.setAll pairs = .ok next ∧
      ∀ setting, settings.pair setting ∈ pairs ∨ target.get setting = settings.get setting →
        next.get setting = settings.get setting := by
  induction pairs generalizing target with
  | nil =>
      refine ⟨target, rfl, fun setting given => ?_⟩
      rcases given with none | same
      · cases none
      · exact same
  | cons pair pairs ih =>
      obtain ⟨first, rfl⟩ := known pair List.mem_cons_self
      obtain ⟨next, sets, given⟩ :=
        ih (fun pair member => known pair (List.mem_cons_of_mem _ member))
          (target.put first (settings.get first))
      refine ⟨next, ?_, fun setting source => given setting ?_⟩
      · rw [setAll, List.foldlM_cons, set_pair bounded]
        exact sets
      · by_cases here : first = setting
        · subst here
          exact Or.inr (get_put_self target first _)
        · rw [get_put_of_ne target here]
          refine source.imp_left fun member => ?_
          rcases List.mem_cons.mp member with same | later
          · exact absurd (Setting.key_injective (congrArg Prod.fst same)).symm here
          · exact later

/-! ### The lines of the text -/

def label : Setting → String
  | .strategy => "strategy  "
  | .mode => "mode      "
  | .maxSteps => "max_steps "
  | .verbose => "verbose   "
  | .fixpoint => "fixpoint  "
  | .strict => "strict    "

def line (settings : Settings) (setting : Setting) : String :=
  label setting ++ "= " ++ setting.text (settings.get setting)

theorem render_eq (settings : Settings) :
    settings.render = String.intercalate "\n" (Setting.all.map settings.line) := by
  rfl

theorem plain_of_all {cs : List Char}
    (checked : cs.all (fun c => !Text.isBlank c && c != '=') = true) :
    ∀ c ∈ cs, Text.isBlank c = false ∧ c ≠ '=' := by
  simpa using checked

theorem plain_text (setting : Setting) (value : setting.Value) :
    ∀ c ∈ (setting.text value).toList, Text.isBlank c = false ∧ c ≠ '=' := by
  cases setting with
  | strategy => cases value <;> exact plain_of_all (by decide)
  | mode => cases value <;> exact plain_of_all (by decide)
  | maxSteps =>
      cases value with
      | none => exact plain_of_all (by decide)
      | some bound =>
          intro c member
          have digit : c.isDigit = true := Surface.isDigit_of_mem_toString member
          refine ⟨Text.isBlank_of_isDigit digit, ?_⟩
          rintro rfl
          cases digit
  | verbose => cases value <;> exact plain_of_all (by decide)
  | fixpoint => cases value <;> exact plain_of_all (by decide)
  | strict => cases value <;> exact plain_of_all (by decide)

theorem assignment?_line (settings : Settings) (setting : Setting) :
    Text.assignment? (settings.line setting).toList = some (settings.pair setting) := by
  have noSign : '=' ∉ (label setting).toList := by
    cases setting <;> decide
  have trimmed : Text.trim (label setting) = setting.key := by
    cases setting <;> rfl
  rw [line, Text.assignment?_eq noSign (plain_text setting _), trimmed]
  rfl

/-- The lines of the text of settings are the pairs of their keys and values. -/
theorem assignments?_render (settings : Settings) :
    Text.assignments? settings.render = some (Setting.all.map settings.pair) := by
  have oneLine (setting : Setting) : '\n' ∉ (settings.line setting).toList := by
    intro member
    rw [line, String.toList_append, List.mem_append] at member
    rcases member with inLabel | inValue
    · exact absurd inLabel (by cases setting <;> decide)
    · exact absurd (plain_text setting _ _ inValue).1 (by decide)
  have split : settings.render.toList.splitOn '\n' =
      Setting.all.map fun setting => (settings.line setting).toList := by
    rw [render_eq, String.toList_intercalate, List.map_map]
    refine List.splitOn_intercalate '\n' (fun text member => ?_) (List.cons_ne_nil _ _)
    obtain ⟨setting, _, rfl⟩ := List.mem_map.mp member
    exact oneLine setting
  have same : Text.assignment? ∘ (fun setting => (settings.line setting).toList) =
      fun setting => pure (settings.pair setting) :=
    funext fun setting => assignment?_line settings setting
  rw [Text.assignments?, split, List.mapM_map, same, List.mapM_pure]
  rfl

end Settings

namespace Session

variable (session : Session) {argument key text : String}

theorem changeSetting_of_error (parts : Text.words argument = [key, text]) {error : SettingError}
    (refused : session.settings.set key text = .error error) :
    session.changeSetting argument = .goOn session (.notice error.message) := by
  simp only [changeSetting, parts, refused]

theorem session_changeSetting (parts : Text.words argument = [key, text]) :
    (session.changeSetting argument).session =
      { session with settings := session.settings.attempt key text } := by
  cases set : session.settings.set key text with
  | error error =>
      rw [session.changeSetting_of_error parts set, Settings.attempt, set]
      rfl
  | ok next => simp only [changeSetting, parts, Settings.attempt, set, Reply.goOn]

end Session

/-- The text of settings that were reached from the first ones, taken apart into lines and these at
their equals signs, gives pairs that every settings accept, and all of them in any order turn any
settings into the printed ones. A refused change leaves a session as it was, and changes of different
settings commute. -/
theorem printed_settings_restore :
    (∀ attempts : List (String × String), ∃ pairs,
      Text.assignments? (Settings.attemptAll {} attempts).render = some pairs ∧
      (∀ pair ∈ pairs, ∀ target : Settings, ∃ next, target.set pair.1 pair.2 = .ok next) ∧
      ∀ order, List.Perm order pairs → ∀ target : Settings,
        target.setAll order = .ok (Settings.attemptAll {} attempts)) ∧
    (∀ (session : Session) (argument key text : String), Text.words argument = [key, text] →
      (session.changeSetting argument).session =
        { session with settings := session.settings.attempt key text } ∧
      ∀ error, session.settings.set key text = .error error →
        session.changeSetting argument = .goOn session (.notice error.message)) ∧
    ∀ (settings : Settings) (key key' text text' : String),
      Setting.ofKey? key ≠ Setting.ofKey? key' →
        (settings.attempt key text).attempt key' text' =
          (settings.attempt key' text').attempt key text := by
  refine ⟨fun attempts => ?_, fun session argument key text parts => ?_,
    fun settings key key' text text' different => settings.attempt_comm different text text'⟩
  · have bounded := Settings.bounded_attemptAll Settings.bounded_default attempts
    have known : ∀ pair ∈ Setting.all.map (Settings.attemptAll {} attempts).pair,
        ∃ setting, (Settings.attemptAll {} attempts).pair setting = pair := by
      intro pair member
      obtain ⟨setting, _, same⟩ := List.mem_map.mp member
      exact ⟨setting, same⟩
    refine ⟨_, Settings.assignments?_render _, fun pair member target => ?_,
      fun order permuted target => ?_⟩
    · obtain ⟨setting, rfl⟩ := known pair member
      exact ⟨_, Settings.set_pair bounded setting target⟩
    · obtain ⟨next, sets, given⟩ := Settings.exists_setAll bounded order
        (fun pair member => known pair (permuted.mem_iff.mp member)) target
      rw [sets]
      refine congrArg Except.ok (Settings.eq_of_get_eq fun setting => given setting (Or.inl ?_))
      exact permuted.mem_iff.mpr (List.mem_map_of_mem setting.mem_all)
  · exact ⟨session.session_changeSetting parts, fun error => session.changeSetting_of_error parts⟩

/-- A sign, zeros, another spelling of a key, an unknown key and a bound that 64 bits just hold. -/
theorem printed_settings_restore_backwards :
    let attempts := [("max-steps", "+009223372036854775807"), ("colour", "red"),
      ("strategy", "leftmost"), ("steps", "9223372036854775808"), ("strict", "yes")]
    let settings := Settings.attemptAll {} attempts
    let session : Session := ⟨.empty, settings, 0, 0⟩
    settings = { strategy := .leftmost, maxSteps := some 9223372036854775807, strict := true } ∧
    (∃ pairs, Text.assignments? settings.render = some pairs ∧
      Settings.setAll { mode := .eta, maxSteps := none } pairs.reverse = .ok settings) ∧
    session.changeSetting " steps 1e3" =
      .goOn session (.notice "Invalid value 1e3 for max_steps, expected an integer") ∧
    (settings.attempt "steps" "-1").attempt "verbose" "maybe" =
      (settings.attempt "verbose" "maybe").attempt "steps" "-1" := by
  intro attempts settings session
  have reached :
      settings = { strategy := .leftmost, maxSteps := some 9223372036854775807, strict := true } := by
    decide
  obtain ⟨pairs, printed, _, restored⟩ := printed_settings_restore.1 attempts
  have parts : Text.words " steps 1e3" = ["steps", "1e3"] := by decide
  have refused : session.settings.set "steps" "1e3" = .error (.invalid .maxSteps "1e3") := rfl
  refine ⟨reached, ⟨pairs, printed, restored pairs.reverse pairs.reverse_perm _⟩, ?_, ?_⟩
  · exact (printed_settings_restore.2.1 session _ _ _ parts).2 _ refused
  · exact printed_settings_restore.2.2 settings "steps" "verbose" "-1" "maybe" (by decide)

end UntypedLambda
