import MgLang.Text.Hex
/-!
# Escapes in string literals

What the characters between the quotes of a string literal stand for. A backslash that starts no
escape stands for itself.
-/

namespace MgLang

/-- The character that a one-letter escape stands for. -/
def escape? : Char → Option Char
  | 'n' => some '\n'
  | 't' => some '\t'
  | 'r' => some '\r'
  | '0' => some '\x00'
  | '\\' => some '\\'
  | '"' => some '"'
  | '\x7b' => some '\x7b'
  | '\x7d' => some '\x7d'
  | _ => none

/-- The text that a literal stands for (`unescape`). `\x` takes the one or two hexadecimal digits
after it. -/
def unescape : List Char → List Char
  | [] => []
  | ['\\'] => ['\\']
  | ['\\', 'x'] => ['\\', 'x']
  | ['\\', 'x', a] =>
    match hexDigit? a with
    | some i => [Char.ofNat i]
    | none => '\\' :: 'x' :: unescape [a]
  | '\\' :: 'x' :: a :: b :: r =>
    match hexDigit? a, hexDigit? b with
    | some i, some j => Char.ofNat (16 * i + j) :: unescape r
    | some i, none => Char.ofNat i :: unescape (b :: r)
    | none, _ => '\\' :: 'x' :: unescape (a :: b :: r)
  | '\\' :: c :: r =>
    match escape? c with
    | some e => e :: unescape r
    | none => '\\' :: c :: unescape r
  | c :: r => c :: unescape r

end MgLang
