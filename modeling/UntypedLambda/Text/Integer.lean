set_option autoImplicit false

/-! Decimal integers of 64 bits: one optional sign, then at least one digit, and nothing else.
Leading zeros are allowed, and a value that 64 bits cannot hold is refused. -/

namespace UntypedLambda.Text

def digitValue? (c : Char) : Option Nat :=
  if c.isDigit then some (c.toNat - '0'.toNat) else none

def digitsFrom? (value : Nat) : List Char → Option Nat
  | [] => some value
  | c :: cs =>
      match digitValue? c with
      | none => none
      | some digit => digitsFrom? (10 * value + digit) cs

def digits? : List Char → Option Nat
  | [] => none
  | c :: cs => digitsFrom? 0 (c :: cs)

def signed? : List Char → Option Int
  | '-' :: cs => (digits? cs).map fun value => -(value : Int)
  | '+' :: cs => (digits? cs).map fun value => (value : Int)
  | cs => (digits? cs).map fun value => (value : Int)

def int64? (text : String) : Option Int :=
  (signed? text.toList).filter fun value =>
    decide (Int64.minValue.toInt ≤ value) && decide (value ≤ Int64.maxValue.toInt)

end UntypedLambda.Text
