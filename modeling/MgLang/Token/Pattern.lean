import MgLang.Text.Blank
import MgLang.Token.Basic
import MgLang.Token.Escape
/-!
# Lexical patterns

What a token, a comment or a gap looks like. `Pattern.munch?` says how many characters a pattern
takes from the front of a text, and `Pattern.all` lists the patterns in the order in which they are
tried: the first that takes anything wins.

The lexer has them as regular expressions (`PATTERNS`). `munch?` is what each of these matches at
the front of a text.
-/

namespace MgLang

/-- A shape that a piece of source text can have. -/
inductive Pattern where
  /-- A letter or underscore and the letters, digits and underscores after it. -/
  | word
  /-- Digits, a point and digits. -/
  | float
  /-- Digits. -/
  | int
  /-- Blank characters. -/
  | blank
  /-- A dollar sign and text between double quotes. -/
  | interpolated
  /-- Text between double quotes. -/
  | string
  /-- Two slashes and the rest of the line. -/
  | lineComment
  /-- Text up to the first closing mark of a block comment. -/
  | blockComment
  /-- A fixed mark. -/
  | mark (kind : TokenKind) (text : List Char)
deriving DecidableEq, Repr

namespace Pattern

/-- The patterns in the order in which they are tried (`PATTERNS`). -/
def all : List Pattern :=
  [word, float, int, blank, interpolated, string, lineComment, blockComment,
   mark .openBracket ['['], mark .closeBracket [']'],
   mark .openCurly ['\x7b'], mark .closeCurly ['\x7d'],
   mark .openParen ['('], mark .closeParen [')'],
   mark .equals ['=', '='], mark .fatArrow ['=', '>'],
   mark .notEquals ['!', '='], mark .not ['!'], mark .assignment ['='],
   mark .lessEquals ['<', '='], mark .less ['<'],
   mark .greaterEquals ['>', '='], mark .greater ['>'],
   mark .or ['|', '|'], mark .and ['&', '&'],
   mark .dot ['.'], mark .semicolon [';'], mark .colon [':'], mark .comma [','],
   mark .arrow ['-', '>'], mark .plus ['+'], mark .dash ['-'],
   mark .slash ['/'], mark .star ['*'], mark .percent ['%']]

/-- The letters of a word, all of them ASCII. -/
def isWordStart (c : Char) : Bool :=
  c.isAlpha || c == '_'

/-- The letters, digits and underscores of a word, all of them ASCII. -/
def isWordChar (c : Char) : Bool :=
  c.isAlphanum || c == '_'

/-- The number of characters at the front that satisfy `p`. -/
def run (p : Char → Bool) (cs : List Char) : Nat :=
  (cs.takeWhile p).length

/-- The number of characters up to and including the quote that closes a string. A backslash takes
the next character with it, which cannot be a newline. -/
def quoteEnd? : List Char → Option Nat
  | [] => none
  | '"' :: _ => some 1
  | ['\\'] => none
  | '\\' :: c :: r => if c = '\n' then none else (quoteEnd? r).map (· + 2)
  | _ :: r => (quoteEnd? r).map (· + 1)

/-- The number of characters up to and including the mark that closes a block comment. -/
def commentEnd? : List Char → Option Nat
  | '*' :: '/' :: _ => some 2
  | _ :: r => (commentEnd? r).map (· + 1)
  | [] => none

/-- The length of a word at the front. -/
def wordLength? : List Char → Option Nat
  | [] => none
  | c :: r => if isWordStart c then some (1 + run isWordChar r) else none

/-- The length of a nonempty run of characters that satisfy `p` at the front. -/
def runLength? (p : Char → Bool) (cs : List Char) : Option Nat :=
  if 0 < run p cs then some (run p cs) else none

/-- The length of digits, a point and digits at the front. -/
def floatLength? (cs : List Char) : Option Nat :=
  match runLength? Char.isDigit cs with
  | none => none
  | some n =>
    match cs.drop n with
    | '.' :: r => (runLength? Char.isDigit r).map fun m => n + 1 + m
    | _ => none

/-- The length of an interpolated string at the front. -/
def interpolatedLength? : List Char → Option Nat
  | '$' :: '"' :: r => (quoteEnd? r).map (· + 2)
  | _ => none

/-- The length of a string at the front. -/
def stringLength? : List Char → Option Nat
  | '"' :: r => (quoteEnd? r).map (· + 1)
  | _ => none

/-- The length of a line comment at the front. -/
def lineCommentLength? : List Char → Option Nat
  | '/' :: '/' :: r => some (2 + run (· != '\n') r)
  | _ => none

/-- The length of a block comment at the front. -/
def blockCommentLength? : List Char → Option Nat
  | '/' :: '*' :: r => (commentEnd? r).map (· + 2)
  | _ => none

/-- How many characters the pattern takes from the front of a text. -/
def munch? (p : Pattern) (cs : List Char) : Option Nat :=
  match p with
  | word => wordLength? cs
  | float => floatLength? cs
  | int => runLength? Char.isDigit cs
  | blank => runLength? isBlank cs
  | interpolated => interpolatedLength? cs
  | string => stringLength? cs
  | lineComment => lineCommentLength? cs
  | blockComment => blockCommentLength? cs
  | mark _ text => if text.isPrefixOf cs then some text.length else none

/-- The first pattern that takes anything from the front of a text, and how much it takes (the
search in the loop of `tokenize`). -/
def first? (cs : List Char) : Option (Pattern × Nat) :=
  all.findSome? fun p => (p.munch? cs).map fun n => (p, n)

/-- The category and value of the token that a piece of text stands for (the handlers of
`PATTERNS`). Comments and gaps stand for none. -/
def token? (p : Pattern) (piece : List Char) : Option (TokenKind × String) :=
  match p with
  | word => some (.ofWord (.ofList piece), .ofList piece)
  | float => some (.float, .ofList piece)
  | int => some (.int, .ofList piece)
  | blank => none
  | interpolated => some (.interpolated, .ofList (piece.drop 2).dropLast)
  | string => some (.string, .ofList (unescape (piece.drop 1).dropLast))
  | lineComment => none
  | blockComment => none
  | mark kind _ => some (kind, .ofList piece)

/-! ### What a pattern takes is there and is not empty -/

theorem run_le_length (p : Char → Bool) (cs : List Char) : run p cs ≤ cs.length :=
  (List.takeWhile_prefix p).length_le

theorem quoteEnd?_le_length {cs : List Char} {n : Nat} (h : quoteEnd? cs = some n) :
    0 < n ∧ n ≤ cs.length := by
  fun_induction quoteEnd? cs generalizing n <;> grind [Option.map_eq_some_iff]

theorem commentEnd?_le_length {cs : List Char} {n : Nat} (h : commentEnd? cs = some n) :
    0 < n ∧ n ≤ cs.length := by
  fun_induction commentEnd? cs generalizing n <;> grind [Option.map_eq_some_iff]

theorem runLength?_le_length {p : Char → Bool} {cs : List Char} {n : Nat}
    (h : runLength? p cs = some n) : 0 < n ∧ n ≤ cs.length := by
  have := run_le_length p cs
  grind [runLength?]

theorem munch?_le_length {p : Pattern} {cs : List Char} {n : Nat} (hp : p ∈ all)
    (h : p.munch? cs = some n) : 0 < n ∧ n ≤ cs.length := by
  cases p with
  | word =>
    cases cs with
    | nil => simp [munch?, wordLength?] at h
    | cons c r =>
      have := run_le_length isWordChar r
      grind [munch?, wordLength?]
  | float =>
    simp only [munch?, floatLength?] at h
    split at h
    · contradiction
    · next m hm =>
      split at h
      · next r hr =>
        obtain ⟨k, hk, rfl⟩ := Option.map_eq_some_iff.1 h
        have hlen : (cs.drop m).length = r.length + 1 := by rw [hr]; rfl
        have := runLength?_le_length hm
        have := runLength?_le_length hk
        grind
      · contradiction
  | int => exact runLength?_le_length h
  | blank => exact runLength?_le_length h
  | interpolated =>
    simp only [munch?, interpolatedLength?] at h
    split at h
    · obtain ⟨k, hk, rfl⟩ := Option.map_eq_some_iff.1 h
      have := quoteEnd?_le_length hk
      simp only [List.length_cons]
      omega
    · contradiction
  | string =>
    simp only [munch?, stringLength?] at h
    split at h
    · obtain ⟨k, hk, rfl⟩ := Option.map_eq_some_iff.1 h
      have := quoteEnd?_le_length hk
      simp only [List.length_cons]
      omega
    · contradiction
  | lineComment =>
    simp only [munch?, lineCommentLength?] at h
    split at h
    · next r =>
      cases h
      have := run_le_length (· != '\n') r
      simp only [List.length_cons]
      omega
    · contradiction
  | blockComment =>
    simp only [munch?, blockCommentLength?] at h
    split at h
    · obtain ⟨k, hk, rfl⟩ := Option.map_eq_some_iff.1 h
      have := commentEnd?_le_length hk
      simp only [List.length_cons]
      omega
    · contradiction
  | mark kind text =>
    have ht : text ≠ [] := by
      rintro rfl
      revert hp
      cases kind <;> decide
    simp only [munch?] at h
    split at h
    · next hpre =>
      cases h
      exact ⟨List.length_pos_iff.2 ht, (List.isPrefixOf_iff_prefix.1 hpre).length_le⟩
    · contradiction

theorem first?_le_length {cs : List Char} {p : Pattern} {n : Nat} (h : first? cs = some (p, n)) :
    0 < n ∧ n ≤ cs.length := by
  obtain ⟨q, hq, hn⟩ := List.exists_of_findSome?_eq_some h
  obtain ⟨m, hm, he⟩ := Option.map_eq_some_iff.1 hn
  cases he
  exact munch?_le_length hq hm

end Pattern

end MgLang
