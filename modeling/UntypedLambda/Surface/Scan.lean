import UntypedLambda.Surface.Error
import UntypedLambda.Text.Blank
import UntypedLambda.Text.Integer

set_option autoImplicit false

/-! The tokens of a source text, read one character at a time. Blanks separate tokens, and so do
comments, which run from `#` to the end of the line. A number is `0` alone or a digit run that
begins with another digit; identifiers and numbers extend as far as they can. -/

namespace UntypedLambda.Surface

open Text

def numberBound : Nat := UInt64.size

inductive Pending where
  | nothing
  | comment
  | colon
  | number (start value : Nat)
  /-- The letters of an identifier, latest first. -/
  | word (start : Nat) (letters : List Char)
  deriving DecidableEq, Repr

/-- A scan at the character `offset`: what is pending there, and the tokens before it, latest
first. -/
structure Scan where
  offset : Nat
  pending : Pending
  tokens : List (Located Token)
  deriving DecidableEq, Repr

namespace Scan

def start : Scan :=
  ⟨0, .nothing, []⟩

def pass (scan : Scan) (pending : Pending) : Scan :=
  { scan with offset := scan.offset + 1, pending := pending }

def emit (scan : Scan) (token : Token) (first : Nat) : Scan :=
  { scan with
    pending := .nothing
    tokens := ⟨token, ⟨first, scan.offset⟩⟩ :: scan.tokens }

/-- Ends what is pending at the offset. A colon alone is no token. -/
def close (scan : Scan) : Except SourceError Scan :=
  match scan.pending with
  | .nothing => .ok scan
  | .comment => .ok { scan with pending := .nothing }
  | .colon => .error (.loneColon none ⟨scan.offset, scan.offset⟩)
  | .number first value =>
      if value < numberBound then
        .ok (scan.emit (.nat value) first)
      else
        .error (.numberTooLarge ⟨first, scan.offset⟩)
  | .word first letters => .ok (scan.emit (.ident (String.ofList letters.reverse)) first)

def begin (scan : Scan) (c : Char) : Except SourceError Scan :=
  if isBlank c then
    .ok (scan.pass .nothing)
  else if c == '#' then
    .ok (scan.pass .comment)
  else if c == ':' then
    .ok (scan.pass .colon)
  else if c == '0' then
    .ok ((scan.pass .nothing).emit (.nat 0) scan.offset)
  else if isNameStart c then
    .ok (scan.pass (.word scan.offset [c]))
  else
    match Symbol.ofChar? c, digitValue? c with
    | some symbol, _ => .ok ((scan.pass .nothing).emit (.symbol symbol) scan.offset)
    | none, some digit => .ok (scan.pass (.number scan.offset digit))
    | none, none => .error (.strayCharacter c (.single scan.offset))

def restart (scan : Scan) (c : Char) : Except SourceError Scan :=
  match scan.close with
  | .ok closed => closed.begin c
  | .error error => .error error

def feed (scan : Scan) (c : Char) : Except SourceError Scan :=
  match scan.pending with
  | .nothing => scan.begin c
  | .comment => .ok (scan.pass (if c == '\n' then .nothing else .comment))
  | .colon =>
      match Symbol.afterColon? c with
      | some symbol => .ok ((scan.pass .nothing).emit (.symbol symbol) (scan.offset - 1))
      | none => .error (.loneColon (some c) (.single scan.offset))
  | .number first value =>
      match digitValue? c with
      | some digit => .ok (scan.pass (.number first (10 * value + digit)))
      | none => scan.restart c
  | .word first letters =>
      if isNamePart c then
        .ok (scan.pass (.word first (c :: letters)))
      else
        scan.restart c

end Scan

def tokenize (source : String) : Except SourceError (List (Located Token)) := do
  let scan ← source.toList.foldlM Scan.feed Scan.start
  let closed ← scan.close
  return closed.tokens.reverse

end UntypedLambda.Surface
