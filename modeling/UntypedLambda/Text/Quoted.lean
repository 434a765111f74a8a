import UntypedLambda.Text.Printable

set_option autoImplicit false

/-! Quoted text. Quotes enclose it, a backslash marks what stands for something else, and characters
that cannot be shown are written by their code points in hexadecimal. -/

namespace UntypedLambda.Text

def quotedChar (c : Char) : List Char :=
  match c with
  | '\x00' => ['\\', '0']
  | '\t' => ['\\', 't']
  | '\r' => ['\\', 'r']
  | '\n' => ['\\', 'n']
  | '\\' => ['\\', '\\']
  | '"' => ['\\', '"']
  | _ => if isPrintable c then [c] else '\\' :: 'u' :: '\x7b' :: Nat.toDigits 16 c.toNat ++ ['\x7d']

def quoted (text : String) : String :=
  String.ofList ('"' :: text.toList.flatMap quotedChar ++ ['"'])

def quotedList (texts : List String) : String :=
  "[" ++ String.intercalate ", " (texts.map quoted) ++ "]"

def failureText (doing : String) (reasons : List String) : String :=
  doing ++ ": " ++ quotedList reasons

end UntypedLambda.Text
