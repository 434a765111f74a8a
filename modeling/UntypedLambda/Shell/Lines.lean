set_option autoImplicit false

/-! The lines of an input, and how they are joined. A line that ends in a backslash goes on with
the next line, and a line break takes the place of the backslash. -/

namespace UntypedLambda.Shell

inductive Gathering where
  | more (text : String)
  | complete (input : String)
  deriving DecidableEq, Repr

/-- The line without the backslash at its end, when it has one. -/
def continued? (line : String) : Option String :=
  match line.toList.reverse with
  | '\\' :: rest => some (String.ofList rest.reverse)
  | _ => none

def gather (waiting : String) (line : String) : Gathering :=
  match continued? line with
  | some text => .more (waiting ++ text ++ "\n")
  | none => .complete (waiting ++ line)

/-- The inputs that lines make up, after the text that waits for the first of them. Text that still
waits at the end is no input. -/
def inputs (waiting : String) : List String → List String
  | [] => []
  | line :: lines =>
      match gather waiting line with
      | .more text => inputs text lines
      | .complete input => input :: inputs "" lines

def lineOf : List Char → String
  | '\r' :: rest => String.ofList rest.reverse
  | rest => String.ofList rest.reverse

/-- The lines of a text after the characters `line` of an unfinished one, latest first. A line
break ends a line, with a carriage return before it if there is one. -/
def linesAfter (line : List Char) : List Char → List String
  | [] => if line.isEmpty then [] else [String.ofList line.reverse]
  | '\n' :: rest => lineOf line :: linesAfter [] rest
  | c :: rest => linesAfter (c :: line) rest

def lines (text : String) : List String :=
  linesAfter [] text.toList

end UntypedLambda.Shell
