import MgLang.Toml.Value
import MgLang.Toml.Text
/-!
# Numbers and dates in a TOML document

Readers for integers, other numbers, dates and times. A number has to be one that 64 bits can hold,
and a date has to be one of the calendar.
-/

namespace MgLang.Toml.Reader

/-! ### Numbers -/

/-- Digits, with single underscores between them at will. -/
def digitRun (p : Char → Bool) : List Char → Option (List Char × List Char)
  | [] => none
  | c :: '_' :: cs => if p c then prepend c (digitRun p cs) else none
  | c :: d :: cs =>
    if p c then
      if p d then prepend c (digitRun p (d :: cs)) else some ([c], d :: cs)
    else none
  | [c] => if p c then some ([c], []) else none

/-- A plus or minus, or nothing. -/
def sign : Reader (List Char) := do
  if ← accept ['+'] then return ['+']
  else if ← accept ['-'] then return ['-']
  else return []

/-- The digits of a number before its point. A zero stands alone. -/
def wholeDigits : Reader (List Char) := do
  if ← accept ['0'] then return ['0']
  else digitRun Char.isDigit

/-- An integer that 64 bits with a sign can hold. -/
def integerOf (sign : List Char) (base : Nat) (digits : List Char) : Reader Toml :=
  let n := digitsValue base digits
  let limit := 0x8000000000000000
  if sign = ['-'] then
    if n ≤ limit then pure (.integer (-n)) else failure
  else if n < limit then pure (.integer n)
  else failure

/-- An integer in another base than ten. -/
def basedInteger (mark : Char) (base : Nat) (p : Char → Bool) : Reader Toml := do
  exact ['0', mark]
  integerOf [] base (← digitRun p)

/-- The numeral `mantissa · 10 ^ exponent` is nearer to twice the largest power of two of 64-bit
floating point than to any such number. -/
def overflows (mantissa : Nat) (exponent : Int) : Bool :=
  let size := (Nat.toDigits 10 mantissa).length + exponent
  mantissa != 0 && (size > 310 ||
    (size > 300 && mantissa * Nat.pow 10 exponent.toNat ≥
      (Nat.pow 2 1024 - Nat.pow 2 970) * Nat.pow 10 (-exponent).toNat))

/-- The exponent of a number, with its sign. -/
def exponent : Reader (List Char × List Char) := do
  discard (char fun c => c == 'e' || c == 'E')
  let s ← sign
  return (s, ← digitRun Char.isDigit)

/-- The number that a sign and digits are. -/
def signed (sign digits : List Char) : Int :=
  let n : Int := digitsValue 10 digits
  if sign = ['-'] then -n else n

/-- A number in base ten. With a point or an exponent it is no integer, and must not be too large
for a floating-point number; too small it may be. -/
def decimal : Reader Toml := do
  let s ← sign
  let whole ← wholeDigits
  let places ← if ← accept ['.'] then some <$> digitRun Char.isDigit else pure none
  let e ←
    if (← ahead ['e']) || (← ahead ['E']) then some <$> exponent else pure none
  if places.isNone && e.isNone then
    integerOf s 10 whole
  else
    let places := places.getD []
    let (expSign, exp) := e.getD ([], [])
    let mantissa := digitsValue 10 (whole ++ places)
    if s != ['-'] && overflows mantissa (signed expSign exp - places.length) then failure
    else return .float (.ofList (s ++ whole ++ ['.'] ++ places ++ ['e'] ++ expSign ++ exp))

/-- One of the numbers that have no digits. -/
def wordNumber : Reader Toml := do
  let s ← sign
  if ← accept ['i', 'n', 'f'] then return .float (.ofList (s ++ ['i', 'n', 'f']))
  else
    exact ['n', 'a', 'n']
    return .float (.ofList (s ++ ['n', 'a', 'n']))

/-- A number. -/
def number : Reader Toml := do
  if ← ahead ['0', 'x'] then
    basedInteger 'x' 16 isHexDigit
  else if ← ahead ['0', 'o'] then basedInteger 'o' 8 fun c => '0' ≤ c && c ≤ '7'
  else if ← ahead ['0', 'b'] then basedInteger 'b' 2 fun c => c == '0' || c == '1'
  else decimal <|> wordNumber

/-! ### Dates -/

/-- That many digits. -/
def digits : Nat → Reader (List Char)
  | 0 => pure []
  | n + 1 => do
    let d ← char Char.isDigit
    return d :: (← digits n)

/-- Two digits that are a number between the bounds. -/
def twoDigits (low high : Nat) : Reader (List Char) := do
  let ds ← digits 2
  let n := digitsValue 10 ds
  if low ≤ n && n ≤ high then return ds else failure

/-- The number of days of a month. -/
def daysOf (year month : Nat) : Nat :=
  if month = 2 then
    if year % 4 = 0 ∧ (year % 100 ≠ 0 ∨ year % 400 = 0) then 29 else 28
  else if month = 4 ∨ month = 6 ∨ month = 9 ∨ month = 11 then 30
  else 31

/-- A day of the calendar. -/
def fullDate : Reader (List Char) := do
  let year ← digits 4
  exact ['-']
  let month ← twoDigits 1 12
  exact ['-']
  let day ← twoDigits 1 (daysOf (digitsValue 10 year) (digitsValue 10 month))
  return year ++ ['-'] ++ month ++ ['-'] ++ day

/-- The digits of a second that count: the first nine, without zeros at the end. -/
def secondPlaces (ds : List Char) : List Char :=
  let kept := (((ds.take 9).reverse.dropWhile (· == '0'))).reverse
  if kept = [] then [] else '.' :: kept

/-- A time of the day. -/
def time : Reader (List Char) := do
  let hour ← twoDigits 0 23
  exact [':']
  let minute ← twoDigits 0 59
  exact [':']
  let second ← twoDigits 0 60
  let places ←
    if ← accept ['.'] then do
      let first ← char Char.isDigit
      pure (secondPlaces (first :: (← takeWhile Char.isDigit)))
    else pure []
  return hour ++ [':'] ++ minute ++ [':'] ++ second ++ places

/-- How far a time is from that of the prime meridian. No distance has no direction. -/
def zone : Reader (List Char) := do
  if (← accept ['Z']) || (← accept ['z']) then return ['Z']
  else
    let s ← char fun c => c == '+' || c == '-'
    let hour ← twoDigits 0 23
    exact [':']
    let minute ← twoDigits 0 59
    let distance := hour ++ [':'] ++ minute
    return (if distance = ['0', '0', ':', '0', '0'] then '+' else s) :: distance

/-- A time behind a date. -/
def timeOfDate : Reader (List Char) := do
  discard (char fun c => c == 'T' || c == 't' || c == ' ')
  let t ← time
  let z ← optional zone
  return ['T'] ++ t ++ z.getD []

/-- A date, a time or both. -/
def date : Reader Toml :=
  (do
    let day ← fullDate
    let rest ← optional timeOfDate
    return .date (.ofList (day ++ rest.getD []))) <|>
  (do return .date (.ofList (← time)))

end MgLang.Toml.Reader
