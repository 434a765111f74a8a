import UntypedLambda.Resolution
import UntypedLambda.Surface.Reading.Program

set_option autoImplicit false

/-! The definitions that a session starts with: booleans, arithmetic on Church numerals, pairs,
lists and some combinators. -/

namespace UntypedLambda.Prelude

open Surface

def booleans : List String :=
  ["true := λt f.t",
    "false := λt f.f",
    "if := λb t f.b t f",
    "not := λb.b false true",
    "and := λa b.a b false",
    "or := λa b.a true b"]

def arithmetic : List String :=
  ["succ := λn f x.f (n f x)",
    "pred := λn f x.n (λg h.h (g f)) (λu.x) (λu.u)",
    "add := λm n f x.m f (n f x)",
    "mul := λm n f.m (n f)",
    "sub := λm n.n pred m",
    "iszero := λn.n (λx.false) true"]

def pairs : List String :=
  ["pair := λa b p.p a b",
    "fst := λp.p true",
    "snd := λp.p false"]

def lists : List String :=
  ["nil := λx y.y",
    "cons := λh t x y.x h t",
    "head := λl.l (λh t.h) false",
    "tail := λl.l (λh t.t) nil",
    "isnil := λl.l (λh t.false) true"]

def combinators : List String :=
  ["turing := (λx y.y (x x y)) (λx y.y (x x y))",
    "curry := λf.(λx.f (x x)) (λx.f (x x))",
    "omega := λx.x x"]

/-- The definitions in order. Each may use those before it. -/
def definitions : List String :=
  ["id := λx.x"] ++ booleans ++ arithmetic ++ pairs ++ lists ++ combinators

def addAll (settings : Settings) :
    List Statement → Context → Nat → Except SourceError (Context × Nat)
  | [], context, supply => .ok (context, supply)
  | .define name body :: statements, context, supply => do
      let t ← resolveDefinition context settings name.value body supply
      addAll settings statements (context.define name.value t.1) t.2
  | .term body :: _, _, _ => .error (.expectedDefinition body.span)

def addSources (settings : Settings) :
    List String → Context → Nat → Except SourceError (Context × Nat)
  | [], context, supply => .ok (context, supply)
  | source :: sources, context, supply => do
      let statements ← parseProgram source
      let next ← addAll settings statements context supply
      addSources settings sources next.1 next.2

def load (settings : Settings) (supply : Nat) : Except SourceError (Context × Nat) :=
  addSources settings definitions .empty supply

end UntypedLambda.Prelude
