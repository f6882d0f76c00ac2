import Broadphase.Text.Unprintable

/-!
Quoted text: a string between double quotes, in which the quote, the backslash
and every character that cannot be seen are written as escapes. A single quote
stands for itself.
-/

namespace Broadphase

namespace Quoted

/-- The escape that names a character by its code point in lower-case
hexadecimal digits. -/
def codePoint (c : Char) : List Char :=
  '\\' :: 'u' :: '\x7b' :: Nat.toDigits 16 c.toNat ++ ['\x7d']

def char (c : Char) : List Char :=
  match c with
  | '"' => ['\\', '"']
  | '\\' => ['\\', '\\']
  | '\n' => ['\\', 'n']
  | '\t' => ['\\', 't']
  | '\r' => ['\\', 'r']
  | '\x00' => ['\\', '0']
  | c => if isUnprintable c then codePoint c else [c]

/-- A string between double quotes with its characters escaped. -/
def text (s : String) : String :=
  String.ofList ('"' :: s.toList.flatMap char ++ ['"'])

end Quoted

end Broadphase
