import UntypedLambda.Surface.Reading.Term

set_option autoImplicit false

/-! Reading a program from its tokens, by the productions of the grammar.

- A program is any number of statements separated by semicolons, with or without one more semicolon
  after the last. `take?` ends a statement at a semicolon, which needs one before it, and `finish?`
  accepts the program at the end of a statement, after a semicolon, and before any token.
- A statement is a definition or a term, tried in this order.
- A definition is an identifier, `:=` and a term. Both productions begin with the identifier, so the
  front of the statement keeps it until the next token: the sign `:=` begins the body of a
  definition, and any other token goes on with the term.

The order of choice shows in errors. When the definition fails, the term is tried from the
identifier on, and it ends before the sign `:=`. The error is then that of the production that came
further. A definition counts as having come further only once a first argument of its body has been
read in full; until then the error is that of the term, at the sign. -/

namespace UntypedLambda.Surface

inductive Lead where
  | nothing
  /-- A single identifier, which may turn out to be the name of a definition. -/
  | identifier (name : Name)
  | term
  | definition (name : Name) (sign : Span) (hasBegun : Bool)

/-- A partly read program: its complete statements, latest first, and the one being read. -/
structure ProgramReading where
  statements : List Statement
  lead : Lead
  body : Reading

namespace ProgramReading

def between (statements : List Statement) : ProgramReading :=
  ⟨statements, .nothing, .start⟩

def start : ProgramReading :=
  between []

def statement (lead : Lead) (body : Expr) : Statement :=
  match lead with
  | .definition name _ _ => .define name body
  | _ => .term body

/-- The statements up to here, latest first, when the one being read may end. -/
def ended? (reading : ProgramReading) : Option (List Statement) :=
  reading.body.finish?.map fun body => statement reading.lead body :: reading.statements

def leadAfter (lead : Lead) (token : Located Token) (body : Reading) : Lead :=
  match lead, token.value with
  | .nothing, .ident name => .identifier ⟨name, token.span⟩
  | .definition name sign hasBegun, _ => .definition name sign (hasBegun || body.hasBegun)
  | _, _ => .term

def take? (reading : ProgramReading) (token : Located Token) : Option ProgramReading :=
  match token.value with
  | .symbol .semicolon => reading.ended?.map between
  | .symbol .define =>
      match reading.lead with
      | .identifier name =>
          some { reading with lead := .definition name token.span false, body := .start }
      | _ => none
  | _ =>
      (reading.body.take? token).map fun body =>
        { reading with lead := leadAfter reading.lead token body, body := body }

def finish? (reading : ProgramReading) : Option (List Statement) :=
  match reading.lead with
  -- No statement at all, or a semicolon after the last one.
  | .nothing => some reading.statements.reverse
  | _ => reading.ended?.map List.reverse

def admits (reading : ProgramReading) : Terminal → Bool
  | .symbol symbol => (reading.take? ⟨.symbol symbol, default⟩).isSome
  | .endOfInput => reading.finish?.isSome

def expected (reading : ProgramReading) : List Terminal :=
  Terminal.named.filter reading.admits

def beforeSign (reading : ProgramReading) (name : Name) : ProgramReading :=
  { reading with
    lead := .identifier name
    body := .argument [] none (.var name.span name) }

def refusal (reading : ProgramReading) (found : Option Token) (span : Span) : SourceError :=
  match reading.lead with
  -- The term, which is the identifier alone, has come further than the definition.
  | .definition name sign false =>
      .unexpectedToken (some (.symbol .define)) (reading.beforeSign name).expected sign
  | _ => .unexpectedToken found reading.expected span

def take (reading : ProgramReading) (token : Located Token) : Except SourceError ProgramReading :=
  match reading.take? token with
  | some next => .ok next
  | none => .error (reading.refusal (some token.value) token.span)

end ProgramReading

def readProgram (tokens : List (Located Token)) (stop : Span) :
    Except SourceError (List Statement) := do
  let reading ← tokens.foldlM ProgramReading.take ProgramReading.start
  match reading.finish? with
  | some statements => return statements
  | none => throw (reading.refusal none stop)

def parseProgram (source : String) : Except SourceError (List Statement) := do
  readProgram (← tokenize source) (endSpan source)

end UntypedLambda.Surface
