import MgLang.Text.Bytes
/-!
# Interpolated strings

The body of an interpolated string, split into text and holes. An opening brace starts a hole unless
a backslash stands before it, and the next closing brace of any kind ends it.
-/

namespace MgLang

/-- A piece of the body of an interpolated string. -/
inductive Piece where
  /-- Text, with its escapes not yet resolved. -/
  | text (raw : List Char)
  /-- The text of a hole, `offset` bytes into the body. -/
  | hole (offset : Nat) (source : List Char)
  /-- A hole that is never closed. -/
  | unclosed
deriving DecidableEq, Repr

namespace Piece

/-- A bound on what reading the piece can cost. -/
def weight : Piece → Nat
  | text _ => 1
  | hole _ source => source.length + 1
  | unclosed => 1

/-- The weight of all pieces together. -/
def totalWeight (ps : List Piece) : Nat :=
  ps.foldr (fun p n => p.weight + n) 0

@[simp] theorem totalWeight_nil : totalWeight [] = 0 := rfl

@[simp] theorem totalWeight_cons (p : Piece) (ps : List Piece) :
    totalWeight (p :: ps) = p.weight + totalWeight ps := rfl

/-- The number of characters before the next hole. A backslash takes the next character with it. -/
def textLength : List Char → Nat
  | [] => 0
  | '\\' :: _ :: r => textLength r + 2
  | '\x7b' :: _ => 0
  | _ :: r => textLength r + 1

theorem textLength_pos {c : Char} {r : List Char} (h : c ≠ '\x7b') :
    0 < textLength (c :: r) := by
  unfold textLength
  split <;> simp_all

/-- The pieces of a body that starts `offset` bytes into the whole (the loop of
`parse_interpolated_expr`). -/
def split (offset : Nat) (body : List Char) : List Piece :=
  match body with
  | [] => []
  | c :: r =>
    if c = '\x7b' then
      let source := r.takeWhile (· != '\x7d')
      match _closed : r.drop source.length with
      | [] => [unclosed]
      | _ :: rest => hole (offset + 1) source :: split (offset + 2 + byteLength source) rest
    else
      let raw := (c :: r).take (textLength (c :: r))
      text raw :: split (offset + byteLength raw) ((c :: r).drop (textLength (c :: r)))
termination_by body.length
decreasing_by
  · have : (r.drop source.length).length ≤ r.length := by simp
    rw [_closed] at this
    simp only [List.length_cons] at *
    omega
  · next hc =>
    have := textLength_pos (r := r) hc
    simp only [List.length_drop, List.length_cons]
    omega

theorem totalWeight_split_le (offset : Nat) (body : List Char) :
    totalWeight (split offset body) ≤ body.length := by
  fun_induction split offset body with
  | case1 => simp
  | case2 => simp [weight]
  | case3 offset r source b rest hr ih =>
    have h1 : (r.drop source.length).length = rest.length + 1 := by rw [hr]; rfl
    have h2 : source.length ≤ r.length := (List.takeWhile_prefix _).length_le
    simp only [List.length_drop] at h1
    simp only [totalWeight_cons, weight, List.length_cons] at *
    omega
  | case4 offset c r hc raw ih =>
    have := textLength_pos (r := r) hc
    simp only [totalWeight_cons, weight, List.length_drop,
      List.length_cons] at *
    omega

end Piece

end MgLang
