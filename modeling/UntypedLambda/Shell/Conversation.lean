import UntypedLambda.Shell.Lines

set_option autoImplicit false

/-! Conversations line by line. A line that completes an input is followed by the answer to it
before anything else is taken, and the answer decides whether the conversation goes on. -/

namespace UntypedLambda.Shell

inductive Event where
  | line (text : String)
  /-- Breaks off the input that waits for its rest, or the conversation when there is none. -/
  | interrupt
  | endOfInput
  deriving DecidableEq, Repr

/-- The text that waits for the rest of its input, if there is some, and the state of the side that
answers. -/
structure Conversation (σ : Type) where
  waiting : Option String
  state : σ

namespace Conversation

variable {σ : Type}

def start (state : σ) : Conversation σ :=
  ⟨none, state⟩

def prompt (conversation : Conversation σ) : String :=
  if conversation.waiting.isSome then ".. " else "λ> "

variable {m : Type → Type} [Monad m]

def take (answer : σ → String → m (Option σ)) (conversation : Conversation σ) :
    Event → m (Option (Conversation σ))
  | .line line =>
      match gather (conversation.waiting.getD "") line with
      | .more text => return some { conversation with waiting := some text }
      | .complete input => do
          match ← answer conversation.state input with
          | some next => return some (start next)
          | none => return none
  | .interrupt =>
      if conversation.waiting.isSome then
        return some { conversation with waiting := none }
      else
        return none
  | .endOfInput => return none

def run (answer : σ → String → m (Option σ)) :
    List Event → Conversation σ → m (Option (Conversation σ))
  | [], conversation => return some conversation
  | event :: events, conversation => do
      match ← conversation.take answer event with
      | some next => run answer events next
      | none => return none

end Conversation

end UntypedLambda.Shell
