import UntypedLambda.Session.Evaluation
import UntypedLambda.Text.Blank

set_option autoImplicit false

/-! The inputs of a session. A line that begins with a colon is a command word and its argument;
any other line is a program. -/

namespace UntypedLambda

open Surface Text

inductive Command where
  | tokenize
  | parse
  | evaluate
  | step
  | equal
  | set
  | settings
  | definitions
  | load
  | clear
  | help
  | quit
  deriving DecidableEq, Repr

/-- The command that a word stands for. No word at all evaluates. -/
def Command.ofWord? : String → Option Command
  | "to" => some .tokenize
  | "tokenize" => some .tokenize
  | "p" => some .parse
  | "parse" => some .parse
  | "" => some .evaluate
  | "e" => some .evaluate
  | "eval" => some .evaluate
  | "evaluate" => some .evaluate
  | "s" => some .step
  | "step" => some .step
  | "eq" => some .equal
  | "equal" => some .equal
  | "set" => some .set
  | "settings" => some .settings
  | "d" => some .definitions
  | "defs" => some .definitions
  | "i" => some .load
  | "import" => some .load
  | "clear" => some .clear
  | "h" => some .help
  | "help" => some .help
  | "q" => some .quit
  | "quit" => some .quit
  | "exit" => some .quit
  | _ => none

def helpLines : List String :=
  ["term; name := term     -- same as :eval",
    ":tokenize   input      -- show the tokens",
    ":parse      input      -- show the parsed statements",
    ":eval       input      -- evaluate terms and add definitions",
    ":step       term       -- contract a single redex",
    ":equal      term; term -- compare normal forms up to renaming",
    ":set        key value  -- change a setting",
    ":settings              -- show the settings",
    ":defs                  -- show the definitions",
    ":import     path       -- evaluate a file",
    ":clear                 -- clear the screen",
    ":help                  -- show this message",
    ":quit                  -- leave"]

/-- The command word and the argument of a line without blanks at its ends. One blank between
them belongs to neither. -/
def commandParts (line : String) : String × String :=
  match line.toList with
  | ':' :: rest =>
      let cs := trimStart rest
      match splitAtBlank? cs with
      | some (word, argument) => (String.ofList word, String.ofList argument)
      | none => (String.ofList cs, "")
  | _ => ("", line)

/-- What a session does with a line: it answers, or it needs the contents of a file first. -/
inductive Response where
  | reply (reply : Reply)
  | load (path : String)

namespace Session

def showTokens (session : Session) (source : String) : Reply :=
  match tokenize source with
  | .ok tokens =>
      .goOn session (.line (String.intercalate " " (tokens.map fun token => token.value.text)))
  | .error error => .fail session {} source error

def showStatements (session : Session) (source : String) : Reply :=
  match parseProgram source with
  | .ok statements => .goOn session (.lines (statements.map Statement.render))
  | .error error => .fail session {} source error

def changeSetting (session : Session) (argument : String) : Reply :=
  match words argument with
  | [key, value] =>
      match session.settings.set key value with
      | .ok settings =>
          .goOn { session with settings := settings } (.line (key ++ " = " ++ value))
      | .error error => .goOn session (.notice error.message)
  | _ => .goOn session (.notice "Usage: :set key value")

def definitionLines (session : Session) : List String :=
  session.context.entries.map fun entry => entry.1 ++ " := " ++ entry.2.render

def execute (session : Session) (command : Command) (argument : String) : Response :=
  match command with
  | .tokenize => .reply (session.showTokens argument)
  | .parse => .reply (session.showStatements argument)
  | .evaluate => .reply (session.evaluate argument)
  | .step => .reply (session.step argument)
  | .equal => .reply (session.equal argument)
  | .set => .reply (session.changeSetting argument)
  | .settings => .reply (.goOn session (.line session.settings.render))
  | .definitions => .reply (.goOn session (.lines session.definitionLines))
  | .load => .load (trim argument)
  | .clear => .reply (.goOn session ⟨"\x1b[2J\x1b[1;1H", ""⟩)
  | .help => .reply (.goOn session (.lines helpLines))
  | .quit => .reply ⟨session, {}, .quit⟩

def respond (session : Session) (line : String) : Response :=
  let input := trim line
  if input.isEmpty then
    .reply (.goOn session {})
  else
    let parts := commandParts input
    match Command.ofWord? parts.1 with
    | some command => session.execute command parts.2
    | none =>
        .reply (.goOn session
          (.notice ("Unknown command " ++ parts.1) ++ .lines helpLines))

end Session

/-- The contents of a file, or the reason why they cannot be read. -/
abbrev FileText := Except String String

structure Loading where
  session : Session
  transcript : Transcript
  failure : Option String

namespace Session

def evaluateFile (session : Session) (path : String) (contents : FileText) : Loading :=
  match contents with
  | .error reason =>
      ⟨session, {}, some ("Failed to read " ++ path ++ "\n\nCaused by:\n    " ++ reason)⟩
  | .ok source =>
      let reply := session.evaluate source
      match reply.ending with
      | .failed _ _ => ⟨reply.session, reply.transcript, some ("Failed to import " ++ path)⟩
      | _ => ⟨reply.session, reply.transcript, none⟩

def loaded (session : Session) (path : String) (contents : FileText) : Reply :=
  let loading := session.evaluateFile path contents
  match loading.failure with
  | none => .goOn loading.session loading.transcript
  | some text => .goOn loading.session (loading.transcript ++ .notice text)

end Session

end UntypedLambda
