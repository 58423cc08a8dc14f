import AnnotatedToC.Text.Unprintable

/-!
# Quoted text

A text shown between double quotes so that every character of it can be told: quotes, backslashes and
the usual controls have short escapes, other unprintable characters are written by their code.
-/
namespace AnnotatedToC.Text

def quotedChar (c : Char) : List Char :=
  match c with
  | '"' => ['\\', '"']
  | '\\' => ['\\', '\\']
  | '\n' => ['\\', 'n']
  | '\r' => ['\\', 'r']
  | '\t' => ['\\', 't']
  | '\x00' => ['\\', '0']
  | c => if isUnprintable c then '\\' :: 'u' :: '\x7b' :: (Nat.toDigits 16 c.toNat ++ ['\x7d']) else [c]

def quoted (s : String) : String :=
  String.ofList ('"' :: (s.toList.flatMap quotedChar ++ ['"']))

end AnnotatedToC.Text
