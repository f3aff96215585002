import MgLang.Text.Printable
/-!
# Quoted text

How a message shows a piece of source text: between double quotes, on one line, and with every
character that could not be seen written as a code.
-/

namespace MgLang

/-- The code point in lower-case hexadecimal digits, without leading zeros. -/
def hexCode (c : Char) : List Char :=
  Nat.toDigits 16 c.toNat

/-- A character between double quotes: the quote and the backslash are escaped, NUL, tab, carriage
return and newline have names, and a character that could not be seen on its own is written as its
code point. -/
def quotedChar (c : Char) : List Char :=
  if c = '"' ∨ c = '\\' then ['\\', c]
  else if c = '\x00' then ['\\', '0']
  else if c = '\t' then ['\\', 't']
  else if c = '\r' then ['\\', 'r']
  else if c = '\n' then ['\\', 'n']
  else if isVisible c then [c]
  else ['\\', 'u', '\x7b'] ++ hexCode c ++ ['\x7d']

/-- The text between double quotes, with every character as `quotedChar` writes it. -/
def quoted (s : String) : String :=
  String.ofList ('"' :: s.toList.flatMap quotedChar ++ ['"'])

end MgLang
