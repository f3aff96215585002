/-!
# Values of numerals

Integers have 63 bits and no sign, since a minus is an operator. A fractional numeral stands for
the nearest binary floating-point number of 64 bits.
-/

namespace MgLang

/-- The integers stay below this number. -/
def intLimit : Nat := 0x8000000000000000

/-- The value of a row of digits, if it is one of the language's integers. -/
def intValue? (digits : String) : Option Nat :=
  let n := Nat.ofDigitChars 10 digits.toList 0
  if n < intLimit then some n else none

/-- The number nearest to a numeral of digits, a point and digits. -/
def floatValue (numeral : String) : Float :=
  let cs := numeral.toList
  let whole := cs.takeWhile (· != '.')
  let places := cs.drop (whole.length + 1)
  Float.ofScientific (Nat.ofDigitChars 10 (whole ++ places) 0) true places.length

end MgLang
