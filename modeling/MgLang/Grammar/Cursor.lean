import MgLang.Diagnostic.Basic
import MgLang.Syntax.Expr
import MgLang.Token.Lexer
/-!
# Reading tokens

A `Cursor` stands before a token, and a reader is a function from a cursor to a `Step`: an outcome
and the cursor where the reader stopped, which a failed reader leaves where it failed. A step
records that success never moves the cursor back, and how far it moved at least. That is what
makes the mutually recursive readers of the grammar terminate.

A cursor is the state of a `Parser`: the tokens from its position on, and the end of the token
before that (`Parser::previous_end`). The counter behind `Parser::advance_id`, which all parsers
share, is handed on with it.
-/

namespace MgLang

/-- A place in a token stream (`Parser`). -/
structure Cursor where
  /-- The file the tokens stand in. -/
  file : String
  /-- The tokens still to be read. -/
  rest : List Token
  /-- The offset of the end mark. -/
  stop : Nat
  /-- The end of the token read last, 0 at the start. -/
  lastStop : Nat
  /-- The number of the next expression. -/
  nextId : Nat

namespace Cursor

/-- The cursor at the start of a stream. -/
def ofStream (s : TokenStream) (nextId : Nat) : Cursor :=
  ⟨s.file, s.tokens, s.stop, 0, nextId⟩

/-- The token at the cursor, the end mark once all are read (`Parser::current_token`). -/
def current (c : Cursor) : Token :=
  match c.rest with
  | [] => .endMark c.file c.stop
  | t :: _ => t

/-- The kind of the token at the cursor. -/
def kind (c : Cursor) : TokenKind := c.current.kind

/-- Where the token at the cursor starts. -/
def start (c : Cursor) : Nat := c.current.span.start

/-- The kind of the token `n` places on (`Parser::peek_kind`). -/
def peek (c : Cursor) (n : Nat) : TokenKind :=
  match c.rest[n]? with
  | some t => t.kind
  | none => .eof

/-- The cursor one token on (`Parser::advance`). It never moves past the end mark. -/
def advance (c : Cursor) : Cursor :=
  match c.rest with
  | [] => c
  | t :: r => { c with rest := r, lastStop := t.span.stop }

/-- From `start` to the end of the token read last (`Parser::span_from`). -/
def spanFrom (c : Cursor) (start : Nat) : Span :=
  ⟨c.file, start, c.lastStop⟩

/-- The token at the cursor cannot stand here. -/
def unexpected (c : Cursor) : Diagnostic :=
  ⟨.unexpectedToken c.current.value, c.current.span⟩

/-- The token at the cursor cannot stand here, and `message` says what could
(`Parser::unexpected`). -/
def expected (c : Cursor) (message : String) : Diagnostic :=
  ⟨.unexpectedTokenDetailed c.current.value message, c.current.span⟩

/-- A bound on what is left to be read. -/
def weight (c : Cursor) : Nat :=
  Token.totalWeight c.rest

@[simp] theorem weight_ofStream (s : TokenStream) (nextId : Nat) :
    (ofStream s nextId).weight = s.weight := rfl

theorem weight_advance_le (c : Cursor) : c.advance.weight ≤ c.weight := by
  unfold advance weight
  split
  · exact Nat.le_refl _
  · next t r h => simp [h]

/-- Stepping over a token that is not the end mark leaves less to be read. -/
theorem weight_advance_lt {c : Cursor} (h : c.kind ≠ .eof) : c.advance.weight + 1 ≤ c.weight := by
  unfold advance weight
  split
  · next hr => simp [kind, current, hr, Token.endMark] at h
  · next t r hr =>
    have := t.weight_pos
    simp only [hr, Token.totalWeight_cons]
    omega

/-- Stepping over an interpolated string leaves less to be read by more than its text. -/
theorem weight_advance_interpolated {c : Cursor} (h : c.kind = .interpolated) :
    c.advance.weight + c.current.value.length + 1 ≤ c.weight := by
  unfold advance weight
  split
  · next hr => simp [kind, current, hr, Token.endMark] at h
  · next t r hr =>
    have ht : t.kind = .interpolated := by simpa [kind, current, hr] using h
    simp only [current, hr, Token.totalWeight_cons, Token.weight, ht, if_true]
    omega

end Cursor

/-- What a reader gives at cursor `c`: an outcome and the cursor where it stopped. A reader that
succeeds has taken at least `k` off the weight. -/
structure Step (k : Nat) (c : Cursor) (α : Type) where
  /-- The value that was read, or what stood in the way. -/
  outcome : Except Diagnostic α
  /-- Where the reader stopped. -/
  next : Cursor
  /-- What is left weighs less. -/
  progress : ∀ a, outcome = .ok a → next.weight + k ≤ c.weight

namespace Step

variable {α β : Type} {j k : Nat} {c : Cursor}

/-- Reads nothing. -/
def done (c : Cursor) (a : α) : Step 0 c α :=
  ⟨.ok a, c, fun _ _ => Nat.le_refl _⟩

/-- Fails where it stands. -/
def fail (d : Diagnostic) (c' : Cursor) : Step k c α :=
  ⟨.error d, c', fun _ h => nomatch h⟩

/-- Reads one thing, then another from where the first stopped. -/
def andThen (x : Step k c α)
    (f : α → (c' : Cursor) → c'.weight + k ≤ c.weight → Step j c' β) : Step k c β :=
  match x with
  | ⟨.error d, c', _⟩ => .fail d c'
  | ⟨.ok a, c', h⟩ =>
    let y := f a c' (h a rfl)
    ⟨y.outcome, y.next, fun b hb => by
      have := y.progress b hb
      have := h a rfl
      omega⟩

/-- Reads something that may be absent, then something that is not. -/
def optThen (x : Step 0 c α)
    (f : α → (c' : Cursor) → c'.weight ≤ c.weight → Step k c' β) : Step k c β :=
  match x with
  | ⟨.error d, c', _⟩ => .fail d c'
  | ⟨.ok a, c', h⟩ =>
    let y := f a c' (h a rfl)
    ⟨y.outcome, y.next, fun b hb => Nat.le_trans (y.progress b hb) (h a rfl)⟩

/-- The same step with no record of how far it went. -/
def weaken (x : Step k c α) : Step 0 c α :=
  ⟨x.outcome, x.next, fun a ha => by have := x.progress a ha; omega⟩

/-- The same step, of which is only known that it went on. -/
def moved (x : Step (k + 1) c α) : Step 1 c α :=
  ⟨x.outcome, x.next, fun a ha => by have := x.progress a ha; omega⟩

/-- A reading of another text in the middle of this one: only the numbers it handed out remain. -/
def inside {inner : Cursor} (c : Cursor) (x : Step k inner α) : Step 0 c α :=
  ⟨x.outcome, { c with nextId := x.next.nextId }, fun _ _ => Nat.le_refl _⟩

/-- Changes the value that was read. -/
def map (f : α → β) (x : Step k c α) : Step k c β :=
  x.andThen fun a c' _ => .done c' (f a)

end Step

namespace Cursor

/-- Reads the token at the cursor, which is not the end mark. -/
def take (c : Cursor) (h : c.kind ≠ .eof) : Step 1 c Token :=
  ⟨.ok c.current, c.advance, fun _ _ => weight_advance_lt h⟩

/-- Reads the interpolated string at the cursor. -/
def takeInterpolated (c : Cursor) (h : c.kind = .interpolated) :
    Step (c.current.value.length + 1) c Token :=
  ⟨.ok c.current, c.advance, fun _ _ => by have := weight_advance_interpolated h; omega⟩

/-- Reads a token of the given kind, or fails with `d` (`Parser::expect_error`). The end mark cannot
be read. -/
def expectOr (c : Cursor) (kind : TokenKind) (d : Diagnostic) : Step 1 c Token :=
  if h : c.kind = kind ∧ kind ≠ .eof then c.take (h.1 ▸ h.2) else .fail d c

/-- Reads a token of the given kind (`Parser::expect`). -/
def expect (c : Cursor) (kind : TokenKind) : Step 1 c Token :=
  c.expectOr kind c.unexpected

/-- Reads a token of any given kind, the end mark included, or fails with `d`. -/
def expectKind (c : Cursor) (kind : TokenKind) (d : Diagnostic) : Step 0 c Token :=
  if c.kind = kind then ⟨.ok c.current, c.advance, fun _ _ => weight_advance_le c⟩ else .fail d c

/-- Reads a name, or fails with a message that says which. -/
def expectName (c : Cursor) (message : String) : Step 1 c Token :=
  c.expectOr .identifier (c.expected message)

/-- Steps over a token of the given kind, if it is there, and says whether it was. -/
def accept (c : Cursor) (kind : TokenKind) : Step 0 c Bool :=
  if c.kind = kind then ⟨.ok true, c.advance, fun _ _ => weight_advance_le c⟩
  else .done c false

/-- Hands out the number of a new expression with that span (`make_expr`). -/
def build {α : Type} (c : Cursor) (span : Span) (f : Node → α) : Step 0 c α :=
  ⟨.ok (f ⟨c.nextId, span⟩), { c with nextId := c.nextId + 1 }, fun _ _ => Nat.le_refl _⟩

end Cursor

end MgLang
