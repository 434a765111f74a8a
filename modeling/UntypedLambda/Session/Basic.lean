import UntypedLambda.Context
import UntypedLambda.Settings
import UntypedLambda.Surface.Error

set_option autoImplicit false

/-! The state of an interpreter session, and what it answers to an input. -/

namespace UntypedLambda

open Surface

structure Transcript where
  out : String := ""
  err : String := ""
  deriving DecidableEq, Repr

namespace Transcript

def append (first second : Transcript) : Transcript :=
  ⟨first.out ++ second.out, first.err ++ second.err⟩

instance : Append Transcript :=
  ⟨append⟩

def line (text : String) : Transcript :=
  ⟨text ++ "\n", ""⟩

def lines (texts : List String) : Transcript :=
  ⟨String.join (texts.map (· ++ "\n")), ""⟩

def notice (text : String) : Transcript :=
  ⟨"", text ++ "\n"⟩

end Transcript

/-- A session: its definitions and settings, the supply of new identities, and the number of
steps for which a reduction without a bound is followed. -/
structure Session where
  context : Context
  settings : Settings
  supply : Nat
  horizon : Nat

inductive Ending where
  | next
  | quit
  /-- The session goes on after an error in a source text. -/
  | failed (source : String) (error : SourceError)

structure Reply where
  session : Session
  transcript : Transcript
  ending : Ending

namespace Reply

def goOn (session : Session) (transcript : Transcript) : Reply :=
  ⟨session, transcript, .next⟩

def fail (session : Session) (transcript : Transcript) (source : String) (error : SourceError) :
    Reply :=
  ⟨session, transcript, .failed source error⟩

end Reply

end UntypedLambda
