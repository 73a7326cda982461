import Reckon.Text.Unprinted
/-!
# Quoted text

Text between double quotes, as structural dumps show a name: quotes, backslashes, line breaks, tabs and the null
character have short escapes, and any other character that does not print on its own is written by its number.
-/

namespace Reckon.Text

/-- One character inside the quotes. -/
def quotedChar (c : Char) : String :=
  if c = '\x22' then "\\\""
  else if c = '\x5c' then "\\\\"
  else if c = '\n' then "\\n"
  else if c = '\r' then "\\r"
  else if c = '\t' then "\\t"
  else if c = '\x00' then "\\0"
  else if isUnprinted c then "\\u\x7b" ++ String.ofList (Nat.toDigits 16 c.toNat) ++ "\x7d"
  else String.singleton c

/-- The text between double quotes. -/
def quoted (s : String) : String := "\"" ++ String.join (s.toList.map quotedChar) ++ "\""

end Reckon.Text
