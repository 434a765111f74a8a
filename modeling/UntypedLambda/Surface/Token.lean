import UntypedLambda.Surface.Span

set_option autoImplicit false

/-! The tokens of the language and their texts. -/

namespace UntypedLambda.Surface

inductive Symbol where
  | leftParen
  | rightParen
  | leftAngle
  | rightAngle
  | leftBracket
  | rightBracket
  | comma
  | dot
  | semicolon
  | cons
  | define
  | lambda
  deriving DecidableEq, Repr

namespace Symbol

/-- The text of a symbol. A lambda may also be typed as a backslash. -/
def text : Symbol → String
  | .leftParen => "("
  | .rightParen => ")"
  | .leftAngle => "<"
  | .rightAngle => ">"
  | .leftBracket => "["
  | .rightBracket => "]"
  | .comma => ","
  | .dot => "."
  | .semicolon => ";"
  | .cons => "::"
  | .define => ":="
  | .lambda => "λ"

def ofChar? : Char → Option Symbol
  | '(' => some .leftParen
  | ')' => some .rightParen
  | '<' => some .leftAngle
  | '>' => some .rightAngle
  | '[' => some .leftBracket
  | ']' => some .rightBracket
  | ',' => some .comma
  | '.' => some .dot
  | ';' => some .semicolon
  | '\\' => some .lambda
  | 'λ' => some .lambda
  | _ => none

def afterColon? : Char → Option Symbol
  | ':' => some .cons
  | '=' => some .define
  | _ => none

end Symbol

inductive Token where
  | symbol (value : Symbol)
  | nat (value : Nat)
  | ident (name : String)
  deriving DecidableEq, Repr

def Token.text : Token → String
  | .symbol value => value.text
  | .nat value => toString value
  | .ident name => name

/-- Whether a character begins an identifier: an ASCII letter or an underscore. -/
def isNameStart (c : Char) : Bool :=
  c.isAlpha || c == '_'

def isNamePart (c : Char) : Bool :=
  isNameStart c || c.isDigit

end UntypedLambda.Surface
