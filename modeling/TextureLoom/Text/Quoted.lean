import TextureLoom.Text.Numeral
import TextureLoom.Text.Shown

set_option autoImplicit false

namespace TextureLoom.Text

/-- How one character is written between quotes. -/
def escaped (c : Char) : String :=
  if c == '"' then "\\\""
  else if c == '\\' then "\\\\"
  else if c == '\n' then "\\n"
  else if c == '\r' then "\\r"
  else if c == '\t' then "\\t"
  else if c == '\x00' then "\\0"
  else if isShown c then c.toString
  else "\\u\x7b" ++ hex 1 c.toNat ++ "\x7d"

/-- The text between double quotes, with quotes, backslashes and unshown characters escaped. -/
def quoted (text : String) : String :=
  "\"" ++ String.join (text.toList.map escaped) ++ "\""

end TextureLoom.Text
