import UntypedLambda.Surface.Expr
import UntypedLambda.Surface.Scan

set_option autoImplicit false

/-! Reading an expression from its tokens, one token at a time, by the productions of the grammar.

- A term is an application, then at most once `::` and a term. At the sign the application becomes
  the frame `tail`, which the term after the sign completes, so that `::` associates to the right.
- An application is an atom, then any number of atoms. `Focus.term` holds the application of the
  atoms so far, and `argument` attaches the next one, so that application associates to the left.
- An atom is a variable, a number, a term in parentheses, a tuple, a list or an abstraction, tried
  in this order. No two of them begin with the same token, so `take?` and `takeSymbol?` choose by
  the first token and the order does not matter.
- A term in parentheses leaves the frame `group` until its parenthesis closes.
- A tuple is a term and then, at least once, a comma and a term, between `<` and `>`. Its frame
  holds the elements before the last comma, and `closeBracket?` takes `>` only when there is one.
- A list is any number of terms separated by commas, between `[` and `]`. Its frame holds the
  elements before the last comma. No comma may come after the last element: only a list without any
  may close where a term would begin.
- An abstraction is `λ`, at least one identifier, a dot and a term. `Focus.binders` holds the
  identifiers so far, and the frame `body` holds all of them while the term is read.

Every repetition and every optional part goes on while the next token fits. The body of an
abstraction and the term after `::` therefore end only at a token that neither of them takes, where
`complete` adds them to the application around them.

The productions are tried side by side on each token. A token that none of them takes is an error,
which names the tokens that one of them would have taken. -/

namespace UntypedLambda.Surface

/-- A construct that waits for the expression inside it or after it. Where it has one, `outer` is
the application to which the construct will be added as the last argument. -/
inductive Frame where
  | group (outer : Option Expr) (first : Nat)
  /-- A tuple with its complete elements, latest first. -/
  | tuple (outer : Option Expr) (first : Nat) (elements : List Expr)
  /-- A list with its complete elements, latest first. -/
  | list (outer : Option Expr) (first : Nat) (elements : List Expr)
  | body (outer : Option Expr) (first : Nat) (binders : List Name)
  | tail (head : Expr)

inductive Focus where
  /-- After the application `read`, or where an expression begins. -/
  | term (read : Option Expr)
  /-- Among the binders of an abstraction; those read come latest first. -/
  | binders (outer : Option Expr) (first : Nat) (names : List Name)

/-- A partly read expression: the constructs that are open, innermost first, and the focus. -/
structure Reading where
  frames : List Frame
  focus : Focus

def attach (read : Option Expr) (argument : Expr) : Expr :=
  match read with
  | none => argument
  | some function => .app (function.span.cover argument.span) function argument

namespace Frame

def isBody : Frame → Bool
  | .body _ _ _ => true
  | _ => false

/-- Ends the abstractions and the `::` whose last part is `last`, up to the innermost bracket. -/
def complete : List Frame → Expr → List Frame × Expr
  | .body outer first binders :: frames, last =>
      complete frames (attach outer (.lam ⟨first, last.span.stop⟩ binders last))
  | .tail head :: frames, last =>
      complete frames (.cons (head.span.cover last.span) head last)
  | frames, last => (frames, last)

end Frame

namespace Reading

def start : Reading :=
  ⟨[], .term none⟩

def argument (frames : List Frame) (read : Option Expr) (e : Expr) : Reading :=
  ⟨frames, .term (some (attach read e))⟩

def inside (frame : Frame) (frames : List Frame) : Reading :=
  ⟨frame :: frames, .term none⟩

/-- Ends an element of the innermost bracket, and the bracket itself unless a comma follows. -/
def closeBracket? (symbol : Symbol) (stop : Nat) (frames : List Frame) (last : Expr) :
    Option Reading :=
  match symbol, Frame.complete frames last with
  | .rightParen, (.group outer first :: rest, e) =>
      some (argument rest outer (e.withSpan ⟨first, stop⟩))
  | .rightAngle, (.tuple outer first (element :: elements) :: rest, e) =>
      some (argument rest outer (.tuple ⟨first, stop⟩ (e :: element :: elements).reverse))
  | .rightBracket, (.list outer first elements :: rest, e) =>
      some (argument rest outer (.list ⟨first, stop⟩ (e :: elements).reverse))
  | .comma, (.tuple outer first elements :: rest, e) =>
      some (inside (.tuple outer first (e :: elements)) rest)
  | .comma, (.list outer first elements :: rest, e) =>
      some (inside (.list outer first (e :: elements)) rest)
  | _, _ => none

def takeSymbol? (frames : List Frame) (read : Option Expr) (symbol : Symbol) (span : Span) :
    Option Reading :=
  match symbol, read with
  | .leftParen, _ => some (inside (.group read span.start) frames)
  | .leftAngle, _ => some (inside (.tuple read span.start []) frames)
  | .leftBracket, _ => some (inside (.list read span.start []) frames)
  | .lambda, _ => some ⟨frames, .binders read span.start []⟩
  | .cons, some head => some (inside (.tail head) frames)
  -- No term has begun: the list is empty, or its last comma has nothing after it.
  | .rightBracket, none =>
      match frames with
      | .list outer first [] :: rest => some (argument rest outer (.list ⟨first, span.stop⟩ []))
      | _ => none
  | _, some last => closeBracket? symbol span.stop frames last
  | _, none => none

def take? (reading : Reading) (token : Located Token) : Option Reading :=
  match reading.focus, token.value with
  | .term read, .ident name =>
      some (argument reading.frames read (.var token.span ⟨name, token.span⟩))
  | .term read, .nat value => some (argument reading.frames read (.nat token.span value))
  | .term read, .symbol symbol => takeSymbol? reading.frames read symbol token.span
  | .binders outer first names, .ident name =>
      some ⟨reading.frames, .binders outer first (⟨name, token.span⟩ :: names)⟩
  -- The repetition of binders has at least one.
  | .binders outer first (name :: names), .symbol .dot =>
      some (inside (.body outer first (name :: names).reverse) reading.frames)
  | .binders _ _ _, _ => none

def finish? (reading : Reading) : Option Expr :=
  match reading.focus with
  | .term (some last) =>
      match Frame.complete reading.frames last with
      | ([], e) => some e
      | _ => none
  | _ => none

def admits (reading : Reading) : Terminal → Bool
  | .symbol symbol => (reading.take? ⟨.symbol symbol, default⟩).isSome
  | .endOfInput => reading.finish?.isSome

def expected (reading : Reading) : List Terminal :=
  Terminal.named.filter reading.admits

def take (reading : Reading) (token : Located Token) : Except SourceError Reading :=
  match reading.take? token with
  | some next => .ok next
  | none => .error (.unexpectedToken (some token.value) reading.expected token.span)

/-- Whether an argument has been read in full, with nothing around it but the bodies of
abstractions. -/
def hasBegun (reading : Reading) : Bool :=
  match reading.focus with
  | .term (some _) => reading.frames.all Frame.isBody
  | _ => false

end Reading

def endSpan (source : String) : Span :=
  .single source.length

def readExpr (tokens : List (Located Token)) (stop : Span) : Except SourceError Expr := do
  let reading ← tokens.foldlM Reading.take Reading.start
  match reading.finish? with
  | some e => return e
  | none => throw (.unexpectedToken none reading.expected stop)

def parseTerm (source : String) : Except SourceError Expr := do
  readExpr (← tokenize source) (endSpan source)

end UntypedLambda.Surface
