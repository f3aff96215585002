import MgLang.Source.Span
import MgLang.Token.Kind
/-!
# Tokens

A token is a piece of source text with its category. A `TokenStream` holds the tokens of one text
together with the place of its end; the end mark is not stored, it is what a reader sees once the
tokens are used up.
-/

namespace MgLang

/-- A piece of source text that the grammar treats as one. -/
structure Token where
  /-- The category. -/
  kind : TokenKind
  /-- The text, as far as it matters: escapes in a string are resolved and its quotes gone. -/
  value : String
  /-- Where the piece stands. -/
  span : Span
deriving DecidableEq, Repr

namespace Token

/-- The mark at the end of a text, `stop` bytes into the file. -/
def endMark (file : String) (stop : Nat) : Token :=
  ⟨.eof, "EOF", ⟨file, stop, stop⟩⟩

/-- A token as shown to a developer. -/
def describe (t : Token) : String :=
  s!"Token \x7b\nkind: {t.kind.name},\nvalue: {t.value}\x7d"

/-- The same token `k` bytes later. -/
def shift (t : Token) (k : Nat) : Token :=
  { t with span := t.span.shift k }

/-- A bound on how much reading a token can cost. An interpolated string has the text of its holes
still to be read; any other token is read in one step. -/
def weight (t : Token) : Nat :=
  if t.kind = .interpolated then t.value.length + 1 else 1

theorem weight_pos (t : Token) : 0 < t.weight := by
  simp only [weight]; split <;> omega

@[simp] theorem weight_shift (t : Token) (k : Nat) : (t.shift k).weight = t.weight := rfl

/-- The weight of all tokens together. -/
def totalWeight (ts : List Token) : Nat :=
  ts.foldr (fun t n => t.weight + n) 0

@[simp] theorem totalWeight_nil : totalWeight [] = 0 := rfl

@[simp] theorem totalWeight_cons (t : Token) (ts : List Token) :
    totalWeight (t :: ts) = t.weight + totalWeight ts := rfl

theorem totalWeight_map_shift (ts : List Token) (k : Nat) :
    totalWeight (ts.map (·.shift k)) = totalWeight ts := by
  induction ts with
  | nil => rfl
  | cons t ts ih => simp [ih]

end Token

/-- The tokens of a text and the place where it ends. -/
structure TokenStream where
  /-- The file the tokens stand in. -/
  file : String
  /-- The tokens, in source order. -/
  tokens : List Token
  /-- The offset of the end mark. -/
  stop : Nat

namespace TokenStream

/-- The tokens followed by the end mark. -/
def toList (s : TokenStream) : List Token :=
  s.tokens ++ [.endMark s.file s.stop]

/-- The same stream `k` bytes later. -/
def shift (s : TokenStream) (k : Nat) : TokenStream :=
  ⟨s.file, s.tokens.map (·.shift k), s.stop + k⟩

/-- The same tokens, ended right after the last of them. -/
def cutEnd (s : TokenStream) : TokenStream :=
  { s with stop := (s.tokens.getLast?.map (·.span.stop)).getD 0 }

/-- The weight of all tokens together. -/
def weight (s : TokenStream) : Nat :=
  Token.totalWeight s.tokens

@[simp] theorem weight_shift (s : TokenStream) (k : Nat) : (s.shift k).weight = s.weight :=
  Token.totalWeight_map_shift s.tokens k

end TokenStream

end MgLang
