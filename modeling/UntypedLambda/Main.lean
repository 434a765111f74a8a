import UntypedLambda.Shell.Conversation
import UntypedLambda.Shell.Run

set_option autoImplicit false

/-! The interpreter as a program: files, standard input and standard output. -/

namespace UntypedLambda.Shell

def readFile (path : String) : IO FileText :=
  try
    return .ok (← IO.FS.readFile path)
  catch
    | .noFileOrDirectory .. => return .error "No such file or directory (os error 2)"
    | error => return .error (toString error)

def writeTranscript (transcript : Transcript) : IO Unit := do
  IO.print transcript.out
  IO.eprint transcript.err
  (← IO.getStdout).flush

def readEvent : IO Event := do
  match lines (← (← IO.getStdin).getLine) with
  | [] => return .endOfInput
  | line :: _ => return .line line

/-- Converses line by line until the input or the session ends. -/
partial def converse (conversation : Conversation Session) : IO Unit := do
  IO.eprint conversation.prompt
  match ← conversation.take (answer readFile writeTranscript) (← readEvent) with
  | some next => converse next
  | none => writeTranscript farewell

end UntypedLambda.Shell
