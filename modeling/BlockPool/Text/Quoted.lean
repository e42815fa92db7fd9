import BlockPool.Text.Hexadecimal
import BlockPool.Text.Unprintable

/-!
# Quoted text

Text between double quotes. A quote or a backslash in it follows a backslash, and so do the
letters that stand for line ends, tabs and the null character. Other characters that are not
visible on their own are written by their code points.
-/

namespace BlockPool.Text

/-- A character as it stands between double quotes. -/
def quotedChar (c : Char) : String :=
  match c with
  | '\x00' => "\\0"
  | '\t' => "\\t"
  | '\r' => "\\r"
  | '\n' => "\\n"
  | '"' => "\\\""
  | '\\' => "\\\\"
  | c => if isUnprintable c then "\\u\x7b" ++ hexDigits c.toNat ++ "\x7d" else c.toString

/-- Text between double quotes. -/
def quoted (text : String) : String :=
  "\"" ++ String.join (text.toList.map quotedChar) ++ "\""

end BlockPool.Text
