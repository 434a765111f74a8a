set_option autoImplicit false

/-! Places in a source text. -/

namespace UntypedLambda.Surface

/-- A stretch of the source, in characters: from `start` up to but not including `stop`. -/
structure Span where
  start : Nat
  stop : Nat
  deriving DecidableEq, Repr, Inhabited

namespace Span

def single (offset : Nat) : Span :=
  ⟨offset, offset + 1⟩

def cover (left right : Span) : Span :=
  ⟨min left.start right.start, max left.stop right.stop⟩

end Span

structure Located (α : Type) where
  value : α
  span : Span
  deriving DecidableEq, Repr

abbrev Name := Located String

end UntypedLambda.Surface
