import UntypedLambda.Surface.Token

set_option autoImplicit false

/-! What can be wrong with a source text, where it is and how it is explained. -/

namespace UntypedLambda.Surface

inductive Terminal where
  | symbol (value : Symbol)
  | endOfInput
  deriving DecidableEq, Repr

namespace Terminal

def text : Terminal → String
  | .symbol value => value.text
  | .endOfInput => "end of input"

/-- The terminals that an explanation may name, in the order of their texts. The sign of
a definition is not among them. -/
def named : List Terminal :=
  [.symbol .leftParen, .symbol .rightParen, .symbol .comma, .symbol .dot, .symbol .cons,
    .symbol .semicolon, .symbol .leftAngle, .symbol .rightAngle, .symbol .leftBracket,
    .symbol .rightBracket, .endOfInput, .symbol .lambda]

end Terminal

inductive SourceError where
  /-- No token begins with the character. -/
  | strayCharacter (found : Char) (span : Span)
  /-- A colon that no second colon and no equals sign follows. -/
  | loneColon (found : Option Char) (span : Span)
  /-- A number that 64 bits cannot hold. -/
  | numberTooLarge (span : Span)
  /-- A token, or the end of the input, that cannot stand at its place. -/
  | unexpectedToken (found : Option Token) (expected : List Terminal) (span : Span)
  /-- A name that is neither bound nor defined, where only such names are allowed. -/
  | undefinedVariable (name : Name)
  /-- Something other than two terms, where two terms are compared. -/
  | expectedTwoTerms (span : Span)
  /-- A term among the definitions of the prelude. -/
  | expectedDefinition (span : Span)
  deriving DecidableEq, Repr

/-- How an error is explained: by what was found and what could have been there, in the order of
the texts, or by a sentence. -/
inductive Explanation where
  | unexpected (found : Option String) (expected : List String)
  | sentence (text : String)

def tokenStarts : List String :=
  ["#", "(", ")", ",", ".", "0", ":", ";", "<", ">", "[", "\\", "]", "end of input", "λ"]

namespace SourceError

def span : SourceError → Span
  | .strayCharacter _ span => span
  | .loneColon _ span => span
  | .numberTooLarge span => span
  | .unexpectedToken _ _ span => span
  | .undefinedVariable name => name.span
  | .expectedTwoTerms span => span
  | .expectedDefinition span => span

def explanation : SourceError → Explanation
  | .strayCharacter found _ => .unexpected (some found.toString) tokenStarts
  | .loneColon found _ => .unexpected (found.map Char.toString) [":", "="]
  | .numberTooLarge _ => .sentence "number too large to fit in target type"
  | .unexpectedToken found expected _ =>
      .unexpected (found.map Token.text) (expected.map Terminal.text)
  | .undefinedVariable name => .sentence ("Undefined variable " ++ name.value)
  | .expectedTwoTerms _ => .sentence "Expected two terms separated by ;"
  | .expectedDefinition _ => .sentence "Only definitions are allowed in the prelude"

def message (error : SourceError) : String :=
  match error.explanation with
  | .sentence text => text
  | .unexpected found expected =>
      let unexpected := "Unexpected " ++ found.getD Terminal.endOfInput.text
      if expected.isEmpty then
        unexpected
      else
        unexpected ++ ", expected " ++ String.intercalate ", " expected

end SourceError

end UntypedLambda.Surface
