import UntypedLambda.Settings

set_option autoImplicit false

/-! The arguments of the command line: files, options with a value and switches. They are read
from left to right, and the first that is wrong or asks for information decides the outcome. No
option and no switch may be given twice. After `--` every argument is a file. -/

namespace UntypedLambda.Shell

structure Options where
  files : List String := []
  command : Option String := none
  settings : Settings := {}
  withPrelude : Bool := true

inductive Valued where
  | command
  | strategy
  | mode
  | maxSteps
  | fixpoint
  deriving DecidableEq, Repr

inductive Switch where
  | verbose
  | strict
  | noPrelude
  | help
  | version
  deriving DecidableEq, Repr

inductive OptionName where
  | valued (option : Valued)
  | switch (switch : Switch)
  deriving DecidableEq, Repr

namespace OptionName

def ofLong? : String → Option OptionName
  | "command" => some (.valued .command)
  | "strategy" => some (.valued .strategy)
  | "mode" => some (.valued .mode)
  | "max-steps" => some (.valued .maxSteps)
  | "fixpoint" => some (.valued .fixpoint)
  | "verbose" => some (.switch .verbose)
  | "strict" => some (.switch .strict)
  | "no-prelude" => some (.switch .noPrelude)
  | "help" => some (.switch .help)
  | "version" => some (.switch .version)
  | _ => none

def ofShort? : Char → Option OptionName
  | 'c' => some (.valued .command)
  | 'v' => some (.switch .verbose)
  | 'h' => some (.switch .help)
  | 'V' => some (.switch .version)
  | _ => none

end OptionName

inductive Halt where
  | help
  | version
  | usage
  deriving DecidableEq, Repr

structure Given where
  options : Options := {}
  names : List OptionName := []

namespace Given

def note (given : Given) (name : OptionName) : Except Halt Given :=
  if given.names.contains name then
    .error .usage
  else
    .ok { given with names := name :: given.names }

def withOptions (given : Given) (options : Options) : Given :=
  { given with options := options }

def change (given : Given) (setting : Setting) (value : String) : Except Halt Given :=
  match given.options.settings.change setting value with
  | .ok settings => .ok (given.withOptions { given.options with settings := settings })
  | .error _ => .error .usage

def assign (given : Given) (option : Valued) (value : String) : Except Halt Given := do
  let given ← given.note (.valued option)
  match option with
  | .command => return given.withOptions { given.options with command := some value }
  | .strategy => given.change .strategy value
  | .mode => given.change .mode value
  | .maxSteps => given.change .maxSteps value
  | .fixpoint => given.change .fixpoint value

def turnOn (given : Given) (switch : Switch) : Except Halt Given :=
  match switch with
  | .help => .error .help
  | .version => .error .version
  | .verbose => do (← given.note (.switch .verbose)).change .verbose (switchText true)
  | .strict => do (← given.note (.switch .strict)).change .strict (switchText true)
  | .noPrelude => do
      let given ← given.note (.switch .noPrelude)
      return given.withOptions { given.options with withPrelude := false }

def addFile (given : Given) (path : String) : Except Halt Given :=
  if path.isEmpty then
    .error .usage
  else
    .ok (given.withOptions { given.options with files := given.options.files ++ [path] })

end Given

/-- How far one argument goes: to its end, or up to an option that needs the next argument. -/
inductive Progress where
  | done (given : Given)
  | wants (given : Given) (option : Valued)

/-- Reads the letters after one dash: switches, and at the end perhaps an option, whose value is
the rest of the letters, after an equals sign if there is one. -/
def readLetters : List Char → Given → Except Halt Progress
  | [], given => .ok (.done given)
  | letter :: letters, given =>
      match OptionName.ofShort? letter, letters with
      | none, _ => .error .usage
      | some (.switch switch), _ => do readLetters letters (← given.turnOn switch)
      | some (.valued option), [] => .ok (.wants given option)
      | some (.valued option), '=' :: value => do
          return .done (← given.assign option (String.ofList value))
      | some (.valued option), value => do
          return .done (← given.assign option (String.ofList value))

def readLong (cs : List Char) (given : Given) : Except Halt Progress :=
  let name := String.ofList (cs.takeWhile (· != '='))
  match OptionName.ofLong? name, cs.dropWhile (· != '=') with
  | some (.switch switch), [] => do return .done (← given.turnOn switch)
  | some (.valued option), [] => .ok (.wants given option)
  | some (.valued option), _ :: value => do
      return .done (← given.assign option (String.ofList value))
  | _, _ => .error .usage

def readArgument (argument : String) (given : Given) : Except Halt Progress :=
  match argument.toList with
  | '-' :: '-' :: name => readLong name given
  | '-' :: letter :: letters => readLetters (letter :: letters) given
  | _ => do return .done (← given.addFile argument)

/-- Whether an argument can be the value of an option that stands before it. An argument with
a dash in front is an option of its own, unless the value is a number. -/
def canBeValue (option : Valued) (argument : String) : Bool :=
  match argument.toList with
  | '-' :: _ :: _ => option == .maxSteps
  | _ => true

def readFiles : List String → Given → Except Halt Given
  | [], given => .ok given
  | path :: paths, given => do readFiles paths (← given.addFile path)

def readArguments : List String → Given → Except Halt Given
  | [], given => .ok given
  | argument :: rest, given =>
      if argument = "--" then
        readFiles rest given
      else
        match readArgument argument given with
        | .error halt => .error halt
        | .ok (.done given) => readArguments rest given
        | .ok (.wants given option) =>
            match rest with
            | [] => .error .usage
            | value :: rest' =>
                if canBeValue option value then do
                  readArguments rest' (← given.assign option value)
                else
                  .error .usage

def Options.parse (arguments : List String) : Except Halt Options :=
  (readArguments arguments {}).map Given.options

end UntypedLambda.Shell
