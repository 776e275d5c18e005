import KeyRelay.Text.Printable
import KeyRelay.Text.Extend

/-!
Quoted text in the style of diagnostic messages: the text between double quotes, with a
backslash before `"` and `\`, the escapes `\0`, `\t`, `\r`, `\n`, and `\u{..}` (lowercase hex)
for every other character that is not shown as itself (`Printable`) or that would merge with
the character before it (`Extend`).
-/
namespace KeyRelay.Escape

/-- Lowercase hex digits of a number, without leading zeros. -/
def hexDigits (n : Nat) : String :=
  String.ofList ((Nat.toDigits 16 n).map Char.toLower)

/-- The escaped form of one character inside double quotes. -/
def char (c : Char) : String :=
  match c with
  | '\x00' => "\\0"
  | '\t' => "\\t"
  | '\r' => "\\r"
  | '\n' => "\\n"
  | '\\' => "\\\\"
  | '"' => "\\\""
  | c => if Extend.contains c || !Printable.contains c then "\\u\x7b" ++ hexDigits c.toNat ++ "\x7d"
         else c.toString

/-- The text between double quotes, escaped. -/
def quote (s : String) : String :=
  "\"" ++ String.join (s.toList.map char) ++ "\""

end KeyRelay.Escape
