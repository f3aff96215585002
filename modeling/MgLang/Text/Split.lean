/-!
# Splitting and joining

Dotted module paths and slashed file paths are rows of pieces. `splitOn` cuts a text at every
separator, so it always yields one piece more than there are separators, and `joinWith` undoes it.
-/

namespace MgLang

/-- The pieces between the separators, the empty ones included. -/
def splitOn (sep : Char) : List Char → List (List Char)
  | [] => [[]]
  | c :: cs =>
    if c = sep then [] :: splitOn sep cs
    else
      match splitOn sep cs with
      | [] => [[c]]
      | s :: ss => (c :: s) :: ss

/-- The pieces with the separator between them. -/
def joinWith (sep : Char) : List (List Char) → List Char
  | [] => []
  | [s] => s
  | s :: ss => s ++ sep :: joinWith sep ss

/-- The piece after the last separator, or everything if there is none. -/
def lastPiece (sep : Char) (cs : List Char) : List Char :=
  (cs.reverse.takeWhile (· != sep)).reverse

theorem splitOn_ne_nil (sep : Char) (cs : List Char) : splitOn sep cs ≠ [] := by
  cases cs with
  | nil => simp [splitOn]
  | cons c cs =>
    simp only [splitOn]
    split
    · simp
    · split <;> simp

/-- Splitting loses nothing. -/
theorem joinWith_splitOn (sep : Char) (cs : List Char) : joinWith sep (splitOn sep cs) = cs := by
  induction cs with
  | nil => rfl
  | cons c cs ih =>
    simp only [splitOn]
    split
    · next h =>
      match hs : splitOn sep cs with
      | [] => exact absurd hs (splitOn_ne_nil sep cs)
      | s :: ss => rw [hs] at ih; simp [joinWith, ih, h]
    · match hs : splitOn sep cs with
      | [] => exact absurd hs (splitOn_ne_nil sep cs)
      | [s] => rw [hs] at ih; simpa [joinWith] using ih
      | s :: t :: ss => rw [hs] at ih; simpa [joinWith] using ih

end MgLang
