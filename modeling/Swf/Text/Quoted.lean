import Swf.Text.Hexadecimal
import Swf.Text.Unprintable

/-!
# Quoted text

A text between quotation marks in which every character can be seen: marks, backslashes and the
common control characters behind a backslash, all other characters without a picture by their
number.
-/

namespace Swf.Text

/-- A character as it stands between quotation marks. -/
def quotedChar (c : Char) : String :=
  if c = '\x00' then "\\0"
  else if c = '\t' then "\\t"
  else if c = '\n' then "\\n"
  else if c = '\r' then "\\r"
  else if c = '"' then "\\\""
  else if c = '\\' then "\\\\"
  else if isUnprintable c then "\\u\x7b" ++ hexadecimal c.toNat ++ "\x7d"
  else c.toString

/-- A text between quotation marks. -/
def quoted (text : String) : String := "\"" ++ String.join (text.toList.map quotedChar) ++ "\""

end Swf.Text
