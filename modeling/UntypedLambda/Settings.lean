import UntypedLambda.Encoding.Fixpoint
import UntypedLambda.Term.Reduction.Run
import UntypedLambda.Text.Integer

set_option autoImplicit false

/-! The settings of a session, their spellings and how they are changed. -/

namespace UntypedLambda

open Term

inductive Setting where
  | strategy
  | mode
  | maxSteps
  | verbose
  | fixpoint
  | strict
  deriving DecidableEq, Repr

namespace Setting

def key : Setting → String
  | .strategy => "strategy"
  | .mode => "mode"
  | .maxSteps => "max_steps"
  | .verbose => "verbose"
  | .fixpoint => "fixpoint"
  | .strict => "strict"

def ofKey? : String → Option Setting
  | "strategy" => some .strategy
  | "mode" => some .mode
  | "steps" => some .maxSteps
  | "max_steps" => some .maxSteps
  | "max-steps" => some .maxSteps
  | "verbose" => some .verbose
  | "fixpoint" => some .fixpoint
  | "strict" => some .strict
  | _ => none

def allowed : Setting → String
  | .strategy => "lo or leftmost"
  | .mode => "beta, eta or both"
  | .maxSteps => "an integer"
  | .verbose => "on or off"
  | .fixpoint => "turing or curry"
  | .strict => "on or off"

end Setting

inductive SettingError where
  | unknown (key : String)
  | invalid (setting : Setting) (value : String)
  deriving DecidableEq, Repr

def SettingError.message : SettingError → String
  | .unknown key => "Unknown setting " ++ key
  | .invalid setting value =>
      "Invalid value " ++ value ++ " for " ++ setting.key ++ ", expected " ++ setting.allowed

namespace Term.Strategy

def text : Strategy → String
  | .leftmostOutermost => "lo"
  | .leftmost => "leftmost"

def ofText? : String → Option Strategy
  | "lo" => some .leftmostOutermost
  | "normal" => some .leftmostOutermost
  | "leftmost-outermost" => some .leftmostOutermost
  | "leftmost" => some .leftmost
  | _ => none

end Term.Strategy

namespace Term.Mode

def text : Mode → String
  | .beta => "beta"
  | .eta => "eta"
  | .both => "both"

def ofText? : String → Option Mode
  | "beta" => some .beta
  | "eta" => some .eta
  | "both" => some .both
  | _ => none

end Term.Mode

namespace Encoding.Combinator

def text : Combinator → String
  | .turing => "turing"
  | .curry => "curry"

def ofText? : String → Option Combinator
  | "turing" => some .turing
  | "theta" => some .turing
  | "curry" => some .curry
  | "y" => some .curry
  | _ => none

end Encoding.Combinator

def switchText : Bool → String
  | true => "on"
  | false => "off"

def switchOfText? : String → Option Bool
  | "on" => some true
  | "true" => some true
  | "yes" => some true
  | "off" => some false
  | "false" => some false
  | "no" => some false
  | _ => none

/-- The step bound that an integer stands for: none when it is negative. -/
def stepBound (n : Int) : Option Nat :=
  if n < 0 then none else some n.toNat

def stepBoundText : Option Nat → String
  | some bound => toString bound
  | none => "-1"

def stepBoundOfText? (text : String) : Option (Option Nat) :=
  (Text.int64? text).map stepBound

structure Settings where
  strategy : Strategy := .leftmostOutermost
  mode : Mode := .both
  /-- The number of steps after which a reduction stops, if any. -/
  maxSteps : Option Nat := some 10000
  /-- Whether every term that a reduction passes is shown. -/
  verbose : Bool := false
  /-- The combinator for recursive definitions. -/
  fixpoint : Encoding.Combinator := .turing
  /-- Whether every name has to be bound or defined. -/
  strict : Bool := false
  deriving DecidableEq, Repr

namespace Settings

def valueOf {α : Type} (setting : Setting) (ofText? : String → Option α) (text : String) :
    Except SettingError α :=
  match ofText? text with
  | some value => .ok value
  | none => .error (.invalid setting text)

def change (settings : Settings) (setting : Setting) (text : String) :
    Except SettingError Settings :=
  match setting with
  | .strategy => do
      return { settings with strategy := ← valueOf setting Strategy.ofText? text }
  | .mode => do
      return { settings with mode := ← valueOf setting Mode.ofText? text }
  | .maxSteps => do
      return { settings with maxSteps := ← valueOf setting stepBoundOfText? text }
  | .verbose => do
      return { settings with verbose := ← valueOf setting switchOfText? text }
  | .fixpoint => do
      return { settings with fixpoint := ← valueOf setting Encoding.Combinator.ofText? text }
  | .strict => do
      return { settings with strict := ← valueOf setting switchOfText? text }

def set (settings : Settings) (key text : String) : Except SettingError Settings :=
  match Setting.ofKey? key with
  | some setting => settings.change setting text
  | none => .error (.unknown key)

def render (settings : Settings) : String :=
  String.intercalate "\n"
    ["strategy  = " ++ settings.strategy.text,
      "mode      = " ++ settings.mode.text,
      "max_steps = " ++ stepBoundText settings.maxSteps,
      "verbose   = " ++ switchText settings.verbose,
      "fixpoint  = " ++ settings.fixpoint.text,
      "strict    = " ++ switchText settings.strict]

/-- The number of steps that a reduction may take, where one without a bound is followed for
`horizon` steps. -/
def limit (settings : Settings) (horizon : Nat) : Nat :=
  settings.maxSteps.getD horizon

end Settings

end UntypedLambda
