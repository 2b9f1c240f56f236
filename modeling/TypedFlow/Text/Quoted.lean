import TypedFlow.Text.Printable

/-!
# Quoted text

A quoted text is wrapped in double quotes. Inside, the quote and the backslash are escaped, four
control characters have a letter of their own, and whatever cannot be shown is written as its code
point in hexadecimal.
-/
namespace TypedFlow.Text

def codePointEscape (c : Char) : List Char :=
  ['\\', 'u', '\x7b'] ++ Nat.toDigits 16 c.toNat ++ ['\x7d']

def escapeChar (c : Char) : List Char :=
  match c with
  | '\x00' => ['\\', '0']
  | '\t' => ['\\', 't']
  | '\r' => ['\\', 'r']
  | '\n' => ['\\', 'n']
  | '"' => ['\\', '"']
  | '\\' => ['\\', '\\']
  | c => if isShown c then [c] else codePointEscape c

def quote (s : String) : String :=
  String.ofList ('"' :: s.toList.flatMap escapeChar ++ ['"'])

end TypedFlow.Text
