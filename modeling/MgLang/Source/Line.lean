import MgLang.Text.Bytes
/-!
# Lines of a text

A line reaches from just after one newline up to and including the next. `lineAt?` finds the line
that holds a byte offset; the end of the text belongs to its last line. This is
`get_line_at_position`.
-/

namespace MgLang

/-- The lines of a text, each with the newline that ends it (`split_inclusive` at newlines). The
last line has none if the text does not end in one, and no line is empty. -/
def segments : List Char → List (List Char)
  | [] => []
  | c :: cs =>
    if c = '\n' then [c] :: segments cs
    else
      match segments cs with
      | [] => [[c]]
      | l :: ls => (c :: l) :: ls

/-- A line without the newline that ends it, and without a carriage return before that newline. -/
def withoutEnding (line : List Char) : List Char :=
  match line.reverse with
  | '\n' :: '\r' :: r => r.reverse
  | '\n' :: r => r.reverse
  | _ => line

/-- An offset resolved to a line. -/
structure Line where
  /-- The number of the line, counted from 1. -/
  number : Nat
  /-- The characters of the line. -/
  text : List Char
  /-- How many bytes of the line come before the offset. -/
  offset : Nat
deriving DecidableEq, Repr

/-- Walks over `lines`, the first of which has number `number`, to the one that holds the byte
`position` bytes on (the loop of `get_line_at_position`). -/
def lineWithin? (number position : Nat) : List (List Char) → Option Line
  | [] => none
  | l :: ls =>
    if position < byteLength l then some ⟨number, l, position⟩
    else lineWithin? (number + 1) (position - byteLength l) ls

/-- The last line of a text, with its ending removed and the offset just past it. An empty text
has one empty line. -/
def lastLine (lines : List (List Char)) : Line :=
  let text := withoutEnding (lines.getLast?.getD [])
  ⟨max 1 lines.length, text, byteLength text⟩

/-- The line that holds the byte at `position`, or `none` if `position` lies past the end
(`get_line_at_position`). The offset of the end itself is just past the last line. -/
def lineAt? (content : List Char) (position : Nat) : Option Line :=
  let lines := segments content
  if position > byteLength content then none
  else some ((lineWithin? 1 position lines).getD (lastLine lines))

theorem flatten_segments (cs : List Char) : (segments cs).flatten = cs := by
  induction cs with
  | nil => rfl
  | cons c cs ih =>
    simp only [segments]
    split
    · simp [ih]
    · split
      · next h => simp [h] at ih; simp [← ih]
      · next l ls h => simp [h] at ih; simp [ih]

end MgLang
