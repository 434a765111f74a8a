import UntypedLambda.Prelude
import UntypedLambda.Session.Command
import UntypedLambda.Shell.Lines
import UntypedLambda.Shell.Options

set_option autoImplicit false

/-! Running the interpreter from a command line. Its surroundings are the two actions that it needs:
one reads a file, the other writes a transcript. Everything else is decided here. -/

namespace UntypedLambda.Shell

open Surface

/-- The number of steps for which a reduction without a bound is followed. -/
def horizon : Nat := 1 <<< 62

def openSession (settings : Settings) (withPrelude : Bool) : Except SourceError Session := do
  let definitions ← if withPrelude then Prelude.load settings 0 else .ok (.empty, 0)
  return ⟨definitions.1, settings, definitions.2, horizon⟩

def greeting : Transcript :=
  .lines ["Hi, this is an untyped lambda calculus REPL. :h to show help", ""]

def farewell : Transcript :=
  .line "Bye!"

def usageLines : List String :=
  ["Usage: [OPTIONS] [FILES]...",
    "",
    "  [FILES]...             files to import before anything else",
    "  -c, --command TEXT     evaluate this text and exit",
    "      --strategy NAME    lo or leftmost",
    "      --mode NAME        beta, eta or both",
    "      --max-steps N      bound on the steps of a reduction, negative for none",
    "  -v, --verbose          show every step of a reduction",
    "      --fixpoint NAME    turing or curry",
    "      --strict           refuse undefined names",
    "      --no-prelude       start without the prelude",
    "  -h, --help             show this message",
    "  -V, --version          show the version"]

def versionLine : String := "untyped-lambda 1.0"

def headline (error : SourceError) : String :=
  "Error: " ++ error.message

def written (reply : Reply) : Transcript :=
  match reply.ending with
  | .failed _ error => reply.transcript ++ .notice (headline error)
  | _ => reply.transcript

section Surroundings

variable {m : Type → Type} [Monad m]

/-- Evaluates files in order. The first that fails ends the run. -/
def loadFiles (read : String → m FileText) (write : Transcript → m Unit) :
    List String → Session → m (Option Session)
  | [], session => return some session
  | path :: paths, session => do
      let loading := session.evaluateFile path (← read path)
      match loading.failure with
      | some text =>
          write (loading.transcript ++ .notice ("Error: " ++ text))
          return none
      | none =>
          write loading.transcript
          loadFiles read write paths loading.session

def answer (read : String → m FileText) (write : Transcript → m Unit) (session : Session)
    (input : String) : m (Option Session) := do
  let reply ←
    match session.respond input with
    | .reply reply => pure reply
    | .load path => do
        let contents ← read path
        pure (session.loaded path contents)
  write (written reply)
  match reply.ending with
  | .quit => return none
  | _ => return some reply.session

def answerAll (read : String → m FileText) (write : Transcript → m Unit) :
    List String → Session → m Unit
  | [], _ => write farewell
  | input :: inputs, session => do
      match ← answer read write session input with
      | some next => answerAll read write inputs next
      | none => write farewell

def runCommand (write : Transcript → m Unit) (session : Session) (text : String) : m Nat := do
  let reply := session.evaluate text
  write (written reply)
  match reply.ending with
  | .failed _ _ =>
      write (.notice ("Error: Failed to evaluate " ++ text))
      return 1
  | _ => return 0

/-- Runs the interpreter as the options say. `converse` holds the interactive session. The result
is the exit code. -/
def runOptions (read : String → m FileText) (write : Transcript → m Unit)
    (converse : Session → m Unit) (options : Options) : m Nat := do
  match openSession options.settings options.withPrelude with
  | .error error =>
      write (.notice (headline error))
      return 1
  | .ok session =>
      match ← loadFiles read write options.files session with
      | none => return 1
      | some session =>
          match options.command with
          | some text => runCommand write session text
          | none =>
              write greeting
              converse session
              return 0

def run (read : String → m FileText) (write : Transcript → m Unit)
    (converse : Session → m Unit) (arguments : List String) : m Nat := do
  match Options.parse arguments with
  | .ok options => runOptions read write converse options
  | .error .help =>
      write (.lines usageLines)
      return 0
  | .error .version =>
      write (.line versionLine)
      return 0
  | .error .usage =>
      write (.notice "Error: invalid arguments, see --help")
      return 2

end Surroundings

end UntypedLambda.Shell
