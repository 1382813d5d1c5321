import LoxExpr.Text.Printable

/-!
# Quoted text

Messages show token texts between double quotes, so that every text is visible: the quote and the
backslash are escaped, tab, line feed, carriage return and the null character have letters of their
own, and any other character that would not show is written by its code point.
-/

namespace LoxExpr.Text

/--
A character by its code point: lower-case hexadecimal digits without leading zeros, in braces.
-/
def codePoint (c : Char) : List Char :=
  ['\\', 'u', '{'] ++ Nat.toDigits 16 c.toNat ++ ['}']

/-- A character as it is written between quotes. -/
def escape (c : Char) : List Char :=
  match c with
  | '"' => ['\\', '"']
  | '\\' => ['\\', '\\']
  | '\t' => ['\\', 't']
  | '\r' => ['\\', 'r']
  | '\n' => ['\\', 'n']
  | '\x00' => ['\\', '0']
  | c => if isPlain c then [c] else codePoint c

/-- A text between double quotes, each character escaped where it needs to be. -/
def quoted (text : String) : String :=
  String.ofList (['"'] ++ text.toList.flatMap escape ++ ['"'])

end LoxExpr.Text
