import MgLang.Text.Hex
/-!
# The text of a TOML document

Readers for the parts of a document that hold text: blanks, comments, keys and strings. A reader
takes its part off the front of the rest of the document, or fails.
-/

namespace MgLang.Toml

/-- Takes something off the front of the rest of a document. -/
abbrev Reader (α : Type) : Type := StateT (List Char) Option α

namespace Reader

/-- Takes the longest front whose characters pass. -/
def takeWhile (p : Char → Bool) : Reader (List Char) :=
  fun cs => some (cs.takeWhile p, cs.dropWhile p)

/-- Takes that text. -/
def exact (text : List Char) : Reader Unit :=
  fun cs => (text.isPrefixOf? cs).map ((), ·)

/-- Takes that text if it is there, and says whether it was. -/
def accept (text : List Char) : Reader Bool :=
  fun cs => some (match text.isPrefixOf? cs with
    | some rest => (true, rest)
    | none => (false, cs))

/-- Takes one character that passes. -/
def char (p : Char → Bool) : Reader Char
  | c :: cs => if p c then some (c, cs) else none
  | [] => none

/-- Whether that text comes next. -/
def ahead (text : List Char) : Reader Bool :=
  fun cs => some (text.isPrefixOf cs, cs)

/-- Takes what the reader takes, if it takes something. -/
def optional {α : Type} (x : Reader α) : Reader (Option α) :=
  fun cs => some (match x cs with
    | some (a, rest) => (some a, rest)
    | none => (none, cs))

/-- Takes one or more of the same with separators between them. The limit has to exceed the number
of those. -/
def separated {α : Type} (sep : List Char) (x : Reader α) : Nat → Reader (List α)
  | 0 => fun _ => none
  | limit + 1 => do
    let a ← x
    if ← accept sep then
      return a :: (← separated sep x limit)
    else
      return [a]


/-! ### Blanks and comments -/

/-- Spaces and tabs. -/
def isSpace (c : Char) : Bool :=
  c == ' ' || c == '\t'

/-- The characters that text may hold as they are: all but the control characters, of which only
the tab counts. -/
def isPlain (c : Char) : Bool :=
  c == '\t' || (' ' ≤ c && c != '\x7f')

/-- Skips spaces and tabs. -/
def spaces : Reader Unit := do
  discard (takeWhile isSpace)

/-- Takes the end of a line. -/
def newline : Reader Unit
  | '\n' :: cs => some ((), cs)
  | '\r' :: '\n' :: cs => some ((), cs)
  | _ => none

/-- Takes the end of a line, or the end of the document. -/
def lineEnd : Reader Unit
  | [] => some ((), [])
  | cs => newline cs

/-- Takes what may stand behind something on its line: blanks, a comment, and the end of the
line. -/
def lineRest : Reader Unit := do
  spaces
  if ← accept ['#'] then
    discard (takeWhile isPlain)
  lineEnd

/-- Skips blanks, ends of lines and comments, as between the items of an array. A comment has to
end with its line. -/
def skipBlank (inComment : Bool) : List Char → Option (List Char)
  | [] => if inComment then none else some []
  | '\n' :: cs => skipBlank false cs
  | '\r' :: '\n' :: cs => skipBlank false cs
  | c :: cs =>
    if inComment then
      if isPlain c then skipBlank true cs else none
    else if isSpace c then skipBlank false cs
    else if c = '#' then skipBlank true cs
    else some (c :: cs)

/-- Skips blanks, ends of lines and comments. -/
def blank : Reader Unit :=
  fun cs => (skipBlank false cs).map ((), ·)

/-! ### Strings -/

/-- The character with the number that the digits are, if there is one. -/
def charOfHex? (digits : List Char) : Option Char :=
  let n := digitsValue 16 digits
  if digits.all isHexDigit ∧ n.isValidChar then some (.ofNat n) else none

/-- The character that stands for itself and one letter behind a backslash. -/
def charOfLetter? : Char → Option Char
  | 'b' => some '\x08'
  | 'f' => some '\x0c'
  | 'n' => some '\n'
  | 'r' => some '\r'
  | 't' => some '\t'
  | '\\' => some '\\'
  | '"' => some '"'
  | _ => none

/-- Puts a character before the text of a string. -/
def prepend (c : Char) (x : Option (List Char × List Char)) : Option (List Char × List Char) :=
  x.map fun (text, rest) => (c :: text, rest)

/-- The text of a string in double quotes, from behind the first quote. -/
def basicText : List Char → Option (List Char × List Char)
  | [] => none
  | '"' :: cs => some ([], cs)
  | '\\' :: 'u' :: a :: b :: c :: d :: cs =>
    (charOfHex? [a, b, c, d]).bind fun x => prepend x (basicText cs)
  | '\\' :: 'U' :: a :: b :: c :: d :: e :: f :: g :: h :: cs =>
    (charOfHex? [a, b, c, d, e, f, g, h]).bind fun x => prepend x (basicText cs)
  | '\\' :: c :: cs => (charOfLetter? c).bind fun x => prepend x (basicText cs)
  | c :: cs => if isPlain c then prepend c (basicText cs) else none

/-- Where the text of a string over several lines stands. -/
inductive Fold where
  /-- In text. -/
  | text
  /-- Behind a backslash at the end of a line, which joins the lines. -/
  | lineEnd
  /-- Before the text that such a backslash joins to. -/
  | lineStart
deriving DecidableEq

/-- The text of a string in three double quotes, from behind the first three. Up to two more quotes
may stand before the last three, and belong to the text. -/
def basicLines (place : Fold) : List Char → Option (List Char × List Char)
  | [] => none
  | '\r' :: '\n' :: cs => if place = .text then prepend '\n' (basicLines .text cs)
    else basicLines .lineStart cs
  | '\n' :: cs => if place = .text then prepend '\n' (basicLines .text cs)
    else basicLines .lineStart cs
  | ' ' :: cs => if place = .text then prepend ' ' (basicLines .text cs) else basicLines place cs
  | '\t' :: cs => if place = .text then prepend '\t' (basicLines .text cs) else basicLines place cs
  | '"' :: '"' :: '"' :: cs =>
    if place = .lineEnd then none
    else
      match cs with
      | '"' :: '"' :: cs => some (['"', '"'], cs)
      | '"' :: cs => some (['"'], cs)
      | cs => some ([], cs)
  | '\\' :: 'u' :: a :: b :: c :: d :: cs =>
    if place = .lineEnd then none
    else (charOfHex? [a, b, c, d]).bind fun x => prepend x (basicLines .text cs)
  | '\\' :: 'U' :: a :: b :: c :: d :: e :: f :: g :: h :: cs =>
    if place = .lineEnd then none
    else (charOfHex? [a, b, c, d, e, f, g, h]).bind fun x => prepend x (basicLines .text cs)
  | '\\' :: c :: cs =>
    if place = .lineEnd then none
    else if isSpace c then basicLines .lineEnd cs
    else if c = '\n' then basicLines .lineStart cs
    else if c = '\r' then
      match cs with
      | '\n' :: cs => basicLines .lineStart cs
      | _ => none
    else (charOfLetter? c).bind fun x => prepend x (basicLines .text cs)
  | c :: cs =>
    if place = .lineEnd then none
    else if isPlain c then prepend c (basicLines .text cs)
    else none

/-- The text of a string in three single quotes, from behind the first three. -/
def literalLines : List Char → Option (List Char × List Char)
  | [] => none
  | '\'' :: '\'' :: '\'' :: '\'' :: '\'' :: cs => some (['\'', '\''], cs)
  | '\'' :: '\'' :: '\'' :: '\'' :: cs => some (['\''], cs)
  | '\'' :: '\'' :: '\'' :: cs => some ([], cs)
  | '\r' :: '\n' :: cs => prepend '\n' (literalLines cs)
  | c :: cs => if c = '\n' ∨ isPlain c then prepend c (literalLines cs) else none

/-- A string in double quotes. -/
def basicString : Reader String := do
  exact ['"']
  return .ofList (← basicText)

/-- A string in single quotes, which holds nothing but itself. -/
def literalString : Reader String := do
  exact ['\'']
  let text ← takeWhile fun c => isPlain c && c != '\''
  exact ['\'']
  return .ofList text

/-- A string of any form. An end of line right behind three opening quotes does not count. -/
def string : Reader String := do
  if ← accept ['"', '"', '"'] then
    discard (optional newline)
    return .ofList (← basicLines .text)
  else if ← accept ['\'', '\'', '\''] then
    discard (optional newline)
    return .ofList (← literalLines)
  else if ← ahead ['"'] then basicString
  else literalString

/-! ### Keys -/

/-- The characters of a key without quotes. -/
def isBare (c : Char) : Bool :=
  c.isAlphanum || c == '-' || c == '_'

/-- One part of a key, in quotes or bare. -/
def simpleKey : Reader String := do
  if ← ahead ['"'] then basicString
  else if ← ahead ['\''] then literalString
  else
    let first ← char isBare
    return .ofList (first :: (← takeWhile isBare))

/-- The number of parts that a key cannot reach. -/
def nestingLimit : Nat := 80

/-- A key: parts with dots between them. What stands before its last part, and the last part. -/
def key : Reader (List String × String) := do
  let part : Reader String := do
    spaces
    let name ← simpleKey
    spaces
    return name
  let parts ← separated ['.'] part nestingLimit
  match parts.getLast? with
  | some last => if parts.length < nestingLimit then return (parts.dropLast, last) else failure
  | none => failure

end Reader

end MgLang.Toml
