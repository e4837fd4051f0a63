import RangeTyping.Text.Hidden

/-!
# Quoted text

A text in double quotes, as it is shown for inspection.  The quote and the backslash are escaped, a
few controls have letters of their own, and any other character that does not print by itself is
written as its code point in hexadecimal.
-/

namespace RangeTyping.Text

/-- A character as it is written between quotes. -/
def quotedChar (c : Char) : String :=
  if c == '\x00' then "\\0"
  else if c == '\t' then "\\t"
  else if c == '\r' then "\\r"
  else if c == '\n' then "\\n"
  else if c == '\\' then "\\\\"
  else if c == '"' then "\\\""
  else if isHidden c then
    "\\u\x7b" ++ String.ofList (Nat.toDigits 16 c.toNat) ++ "\x7d"
  else c.toString

/-- The text in quotes. -/
def quoted (s : String) : String := "\"" ++ String.join (s.toList.map quotedChar) ++ "\""

end RangeTyping.Text
