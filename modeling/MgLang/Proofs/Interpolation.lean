import MgLang.Proofs.Escaped
import MgLang.Proofs.Moving
import MgLang.Proofs.Staying
import Mathlib.Data.List.Chain
/-!
# Interpolated strings are split exactly

A `Template` is the body of an interpolated string in its parts: text, and holes with the text
behind each. Three functions go over such a body, each with its own idea of a backslash: the lexer
finds where it ends, `Piece.split` finds its holes, and `unescape` resolves each of its texts. They
agree because a hole begins and ends where no escape does (`quotable_texts`), although a backslash
in a hole takes nothing along.

The main statement is `readInterpolated_splits`: when a body can be read, and what is read of it.
-/

namespace MgLang

/-! ### Bodies in their parts -/

/-- Text in which no hole opens: a backslash takes the next character along. -/
inductive Holeless : List Char → Prop
  | nil : Holeless []
  | char {c : Char} {r : List Char} (hslash : c ≠ '\\') (hopen : c ≠ '\x7b') (h : Holeless r) :
    Holeless (c :: r)
  | pair {c : Char} {r : List Char} (h : Holeless r) : Holeless ('\\' :: c :: r)

/-- The body of an interpolated string in its parts. -/
structure Template where
  /-- The text in front of the first hole. -/
  text : List Char
  /-- The holes, each with the text behind it. -/
  holes : List (List Char × List Char)
  /-- What stands behind a last brace that opens a hole but is never closed. -/
  unclosed : Option (List Char)

namespace Template

/-- The holes in their braces, each with the text behind it. -/
def written (unclosed : Option (List Char)) : List (List Char × List Char) → List Char
  | [] => (unclosed.map ('\x7b' :: ·)).getD []
  | (source, text) :: holes =>
    '\x7b' :: (source ++ '\x7d' :: (text ++ written unclosed holes))

/-- The body. -/
def body (b : Template) : List Char :=
  b.text ++ written b.unclosed b.holes

/-- A brace opens a hole unless a backslash takes it along, and the next closing brace of any kind
ends the hole. -/
structure Valid (b : Template) : Prop where
  text : Holeless b.text
  holes : ∀ hole ∈ b.holes, '\x7d' ∉ hole.1 ∧ Holeless hole.2
  unclosed : ∀ source ∈ b.unclosed, '\x7d' ∉ source

end Template

/-! ### What a body stands for -/

/-- The plain literal with that text between its quotes has the value. -/
def LiteralValue (raw : List Char) (value : String) : Prop :=
  ∀ file, ∃ s, tokenize file ('"' :: (raw ++ ['"'])) = .ok s ∧
    s.tokens.map Token.lexeme = [⟨.string, value⟩]

/-- What a text between holes stands for: nothing if it is empty, else the value of the literal. -/
inductive TextParts (raw : List Char) : List Part → Prop
  | empty (h : raw = []) : TextParts raw []
  | text {value : String} (hne : raw ≠ []) (h : LiteralValue raw value) :
    TextParts raw [.text value]

/-- What the holes and the texts behind them stand for, if `front` is the body in front of them and
`start` the byte at which the body starts: each hole is the expression that its text is on its own,
moved to where the text stands. The numbers go from `n` up to `n'`. -/
inductive HoleParts (file : String) (start : Nat) :
    List Char → Nat → List (List Char × List Char) → List Part → Nat → Prop
  | nil {front : List Char} {n : Nat} : HoleParts file start front n [] [] n
  | cons {front source text : List Char} {holes : List (List Char × List Char)} {e : Expr}
    {parts rest : List Part} {n m n' : Nat}
    (hsource : parseExpr file (.ofList source) 0 0 = (.ok e, m)) (htext : TextParts text parts)
    (hrest :
      HoleParts file start (front ++ '\x7b' :: (source ++ '\x7d' :: text)) (m + n) holes rest n') :
    HoleParts file start front n ((source, text) :: holes)
      (.hole (e.moved n (start + byteLength (front ++ ['\x7b']))) :: (parts ++ rest)) n'

/-- What the body stands for, if it starts at byte `start` and numbers go from `n` up to `n'`. -/
def Template.Parts (b : Template) (file : String) (start n : Nat) (parts : List Part) (n' : Nat) :
    Prop :=
  ∃ first rest, parts = first ++ rest ∧ TextParts b.text first ∧
    HoleParts file start b.text n b.holes rest n'

/-- The text is an expression. -/
def IsExpr (file : String) (source : List Char) : Prop :=
  ∃ e, (parseExpr file (.ofList source) 0 0).1 = .ok e

/-- The part is text. -/
def Part.IsText : Part → Prop
  | .text _ => True
  | .hole _ => False

/-- No text is empty, and no two are next to each other. -/
structure Tidy (parts : List Part) : Prop where
  nonempty : ∀ value, .text value ∈ parts → value ≠ ""
  apart : parts.IsChain fun p q => ¬ (p.IsText ∧ q.IsText)

/-! ### Where the lexer sees escapes -/

section

variable {raw rest cs source : List Char}

theorem Quotable.of_char {c : Char} (h : Quotable (c :: raw)) (hslash : c ≠ '\\') :
    c ≠ '"' ∧ Quotable raw := by
  cases h with
  | char hquote _ h => exact ⟨hquote, h⟩
  | escape => exact absurd rfl hslash

theorem Quotable.of_escape {c : Char} (h : Quotable ('\\' :: c :: raw)) :
    c ≠ '\n' ∧ Quotable raw := by
  cases h with
  | char _ hslash => exact absurd rfl hslash
  | escape hline h => exact ⟨hline, h⟩

/-- In front of a hole, the lexer and the splitter see the same escapes. -/
theorem Holeless.quotable (h : Holeless raw) (hq : Quotable (raw ++ rest)) :
    Quotable raw ∧ Quotable rest := by
  induction h with
  | nil => exact ⟨.nil, hq⟩
  | char hslash _ _ ih =>
    obtain ⟨hquote, hq⟩ := hq.of_char hslash
    obtain ⟨hraw, hrest⟩ := ih hq
    exact ⟨.char hquote hslash hraw, hrest⟩
  | pair _ ih =>
    obtain ⟨hline, hq⟩ := hq.of_escape
    obtain ⟨hraw, hrest⟩ := ih hq
    exact ⟨.escape hline hraw, hrest⟩

/-- No escape goes on behind a closing brace, even if a backslash takes the brace along. -/
theorem Quotable.behind_brace (h : Quotable cs) (front : List Char)
    (hcs : cs = front ++ '\x7d' :: rest) : Quotable rest := by
  induction h generalizing front with
  | nil => simp at hcs
  | @char c r _ _ h ih =>
    cases front with
    | nil =>
      obtain ⟨-, rfl⟩ := List.cons.inj hcs
      exact h
    | cons d front => exact ih front (List.cons.inj hcs).2
  | @escape c r _ h ih =>
    rcases front with _ | ⟨d, _ | ⟨d', front⟩⟩
    · exact absurd (List.cons.inj hcs).1 (by decide)
    · obtain ⟨-, rfl⟩ := List.cons.inj (List.cons.inj hcs).2
      exact h
    · exact ih front (List.cons.inj (List.cons.inj hcs).2).2

/-- A text that can stand between quotes goes on up to the first hole. -/
theorem exists_holeless (h : Quotable cs) :
    ∃ raw rest, cs = raw ++ rest ∧ Holeless raw ∧ ∀ c ∈ rest.head?, c = '\x7b' := by
  induction h with
  | nil => exact ⟨[], [], rfl, .nil, by rintro _ ⟨⟩⟩
  | @char c r _ hslash _ ih =>
    by_cases hopen : c = '\x7b'
    · exact ⟨[], c :: r, rfl, .nil, fun x hx => Option.some.inj hx ▸ hopen⟩
    · obtain ⟨raw, rest, rfl, hraw, hrest⟩ := ih
      exact ⟨c :: raw, rest, rfl, .char hslash hopen hraw, hrest⟩
  | @escape c r _ _ ih =>
    obtain ⟨raw, rest, rfl, hraw, hrest⟩ := ih
    exact ⟨'\\' :: c :: raw, rest, rfl, .pair hraw, hrest⟩

end

namespace Template

/-- Every body that the lexer accepts has its parts. -/
theorem exists_of_quotable {body : List Char} (h : Quotable body) :
    ∃ b : Template, b.Valid ∧ b.body = body := by
  obtain ⟨raw, rest, hbody, hraw, hrest⟩ := exists_holeless h
  cases rest with
  | nil => exact ⟨⟨raw, [], none⟩, ⟨hraw, List.forall_mem_nil _, by rintro _ ⟨⟩⟩, hbody.symm⟩
  | cons c r =>
    obtain rfl : c = '\x7b' := hrest c rfl
    by_cases hclosed : '\x7d' ∈ r
    · obtain ⟨source, behind, rfl, hsource⟩ := List.eq_append_cons_of_mem hclosed
      have hbehind : Quotable behind :=
        h.behind_brace (raw ++ '\x7b' :: source) (by simp [hbody])
      have hlt : behind.length < body.length := by
        simp only [hbody, List.length_append, List.length_cons]
        omega
      obtain ⟨⟨text, holes, unclosed⟩, hvalid, hwritten⟩ := exists_of_quotable hbehind
      refine ⟨⟨raw, (source, text) :: holes, unclosed⟩, ⟨hraw, ?_, hvalid.unclosed⟩, ?_⟩
      · exact List.forall_mem_cons.2 ⟨⟨hsource, hvalid.text⟩, hvalid.holes⟩
      · rw [hbody, ← hwritten]
        rfl
    · refine ⟨⟨raw, [], some r⟩, ⟨hraw, List.forall_mem_nil _, ?_⟩, hbody.symm⟩
      rintro _ ⟨⟩
      exact hclosed
termination_by body.length

/-- Behind each hole stands a text that the lexer accepts. -/
theorem quotable_holes {unclosed : Option (List Char)} {holes : List (List Char × List Char)}
    (h : Quotable (written unclosed holes)) (hholes : ∀ hole ∈ holes, Holeless hole.2) :
    ∀ hole ∈ holes, Quotable hole.2 := by
  induction holes with
  | nil => exact List.forall_mem_nil _
  | cons hole holes ih =>
    obtain ⟨source, text⟩ := hole
    obtain ⟨htext, hholes⟩ := List.forall_mem_cons.1 hholes
    obtain ⟨hquotable, hrest⟩ := htext.quotable (h.behind_brace ('\x7b' :: source) rfl)
    exact List.forall_mem_cons.2 ⟨hquotable, ih hrest hholes⟩

/-- **The lexer and the splitter agree**: each text can stand between quotes. -/
theorem Valid.quotable_texts {b : Template} (h : b.Valid) (hbody : Quotable b.body) :
    Quotable b.text ∧ ∀ hole ∈ b.holes, Quotable hole.2 := by
  obtain ⟨htext, hrest⟩ := h.text.quotable hbody
  exact ⟨htext, quotable_holes hrest fun hole hm => (h.holes hole hm).2⟩

end Template

/-! ### The value of a text -/

theorem unescape_ne_nil {cs : List Char} (h : cs ≠ []) : unescape cs ≠ [] := by
  fun_cases unescape cs <;> simp_all

theorem literalValue_iff {raw : List Char} {value : String} (h : Quotable raw) :
    LiteralValue raw value ↔ value = .ofList (unescape raw) := by
  constructor
  · intro hvalue
    obtain ⟨s, hs, hlexemes⟩ := hvalue ""
    cases (tokenize_quoted "" h).symm.trans hs
    exact (congrArg Lexeme.value (List.cons.inj hlexemes).1).symm
  · rintro rfl file
    exact ⟨_, tokenize_quoted file h, rfl⟩

/-- The parts of a text are none or one. -/
theorem textParts_iff {raw : List Char} {parts : List Part} (h : Quotable raw) :
    TextParts raw parts ↔
      parts = if raw = [] then [] else [.text (.ofList (unescape raw))] := by
  constructor
  · rintro (hempty | ⟨hne, hvalue⟩)
    · rw [if_pos hempty]
    · rw [if_neg hne, (literalValue_iff h).1 hvalue]
  · rintro rfl
    split
    · next hempty => exact .empty hempty
    · next hne => exact .text hne ((literalValue_iff h).2 rfl)

/-! ### Where the splitter cuts -/

namespace Piece

variable {raw rest source : List Char}

theorem textLength_append (h : Holeless raw) (hrest : ∀ c ∈ rest.head?, c = '\x7b') :
    textLength (raw ++ rest) = raw.length := by
  induction h with
  | nil =>
    cases rest with
    | nil => rfl
    | cons c rest =>
      obtain rfl := hrest c rfl
      rfl
  | char hslash hopen _ ih => simp [textLength, hslash, ih]
  | pair _ ih => simp [textLength, ih]

/-- The pieces of a text between holes: none if it is empty. -/
def ofText (raw : List Char) : List Piece :=
  if raw = [] then [] else [.text raw]

/-- Text goes up to the next hole. -/
theorem split_text (h : Holeless raw) (hrest : ∀ c ∈ rest.head?, c = '\x7b') (offset : Nat) :
    split offset (raw ++ rest) = ofText raw ++ split (offset + byteLength raw) rest := by
  cases raw with
  | nil => rfl
  | cons c r =>
    have hopen : c ≠ '\x7b' := by
      rcases h with _ | ⟨-, hopen, -⟩ | -
      · exact hopen
      · decide
    have hlength := textLength_append h hrest
    rw [List.cons_append] at hlength ⊢
    rw [split, if_neg hopen, hlength, ← List.cons_append, List.take_left, List.drop_left]
    rfl

theorem all_ne_of_not_mem (h : '\x7d' ∉ source) : ∀ c ∈ source, (c != '\x7d') = true := by
  intro c hc
  rw [bne_iff_ne]
  rintro rfl
  exact h hc

/-- The next closing brace ends a hole. -/
theorem split_hole (h : '\x7d' ∉ source) (offset : Nat) :
    split offset ('\x7b' :: (source ++ '\x7d' :: rest)) =
      hole (offset + 1) source :: split (offset + 2 + byteLength source) rest := by
  have htake : (source ++ '\x7d' :: rest).takeWhile (· != '\x7d') = source := by
    rw [List.takeWhile_append_of_pos (all_ne_of_not_mem h)]
    exact List.append_nil source
  rw [split, if_pos rfl]
  dsimp only
  split
  · next heq =>
    rw [htake, List.drop_left] at heq
    cases heq
  · next heq =>
    rw [htake, List.drop_left] at heq
    obtain ⟨-, rfl⟩ := List.cons.inj heq
    rw [htake]

theorem split_unclosed (h : '\x7d' ∉ source) (offset : Nat) :
    split offset ('\x7b' :: source) = [unclosed] := by
  have htake : (source ++ []).takeWhile (· != '\x7d') = source ++ [] :=
    List.takeWhile_append_of_pos (all_ne_of_not_mem h)
  rw [List.append_nil] at htake
  rw [split, if_pos rfl]
  dsimp only
  split
  · rfl
  · next heq =>
    rw [htake, List.drop_length] at heq
    cases heq

end Piece

/-! ### What the reader makes of the pieces -/

namespace Step

variable {α β : Type} {j k n : Nat} {c : Cursor} {b : β}

/-- The reader succeeds with that value, and `n` is the next number. -/
def Gets (x : Step k c α) (a : α) (n : Nat) : Prop :=
  x.outcome = .ok a ∧ x.next.nextId = n

theorem gets_andThen {x : Step k c α}
    {f : α → (c' : Cursor) → c'.weight + k ≤ c.weight → Step j c' β} :
    (x.andThen f).Gets b n ↔ ∃ a h, x.outcome = .ok a ∧ (f a x.next h).Gets b n := by
  obtain ⟨out, next, progress⟩ := x
  constructor
  · rintro ⟨ho, hn⟩
    obtain ⟨a, h, ha, hb⟩ := exists_of_andThen_ok ho
    cases ha
    exact ⟨a, h, rfl, hb, hn⟩
  · rintro ⟨a, h, ha, hb⟩
    cases ha
    exact hb

theorem gets_map {f : α → β} {x : Step k c α} :
    (x.map f).Gets b n ↔ ∃ a, x.Gets a n ∧ f a = b := by
  refine gets_andThen.trans (exists_congr fun a => ?_)
  constructor
  · rintro ⟨-, ha, hb, hn⟩
    exact ⟨⟨ha, hn⟩, Except.ok.inj hb⟩
  · rintro ⟨⟨ha, hn⟩, hb⟩
    exact ⟨x.progress a ha, ha, congrArg Except.ok hb, hn⟩

end Step

/-- A text is an expression wherever it starts, and gives the same tree there. -/
theorem parseExpr_eq_ok_iff {file text : String} {k n m : Nat} {e : Expr} :
    parseExpr file text k n = (.ok e, m) ↔
      ∃ e₀ m₀, parseExpr file text 0 0 = (.ok e₀, m₀) ∧ e = e₀.moved n k ∧ m = m₀ + n := by
  unfold parseExpr
  cases tokenize file text.toList with
  | error d => simp
  | ok stream =>
    have hstream := Cursor.ofStream_shift n k stream 0 0
    obtain ⟨houtcome, hid⟩ := readWhole_elsewhere n k
      (readExpr_moved n k (.ofStream (stream.shift 0) 0) .default)
    rw [← hstream, Nat.zero_add, Nat.zero_add] at houtcome hid
    simp only [Prod.mk.injEq]
    constructor
    · rintro ⟨he, rfl⟩
      have he := houtcome.symm.trans he
      cases ho : (readWhole (.ofStream (stream.shift 0) 0)).outcome with
      | error d =>
        rw [ho] at he
        cases he
      | ok e₀ =>
        rw [ho] at he
        exact ⟨e₀, _, ⟨ho, rfl⟩, (Except.ok.inj he).symm, hid⟩
    · rintro ⟨e₀, m₀, ⟨ho, rfl⟩, rfl, rfl⟩
      have ho : (readWhole (.ofStream (stream.shift 0) 0)).outcome = .ok e₀ := ho
      rw [ho] at houtcome
      exact ⟨houtcome, hid⟩

namespace Piece

variable {c : Cursor} {token : Token} {pieces : List Piece} {parts : List Part} {n : Nat}

theorem gets_text {raw : List Char} :
    (readParts c token (.text raw :: pieces)).Gets parts n ↔
      ∃ rest, (readParts c token pieces).Gets rest n ∧
        parts = .text (.ofList (unescape raw)) :: rest := by
  rw [readParts, Step.gets_map]
  exact exists_congr fun rest => and_congr_right fun _ => eq_comm

theorem gets_hole {offset : Nat} {source : List Char} :
    (readParts c token (.hole offset source :: pieces)).Gets parts n ↔
      ∃ e m rest,
        parseExpr c.file (.ofList source) (token.span.start + 2 + offset) c.nextId = (.ok e, m) ∧
        (readParts { c with nextId := m } token pieces).Gets rest n ∧ parts = .hole e :: rest := by
  rw [readParts]
  unfold parseExpr
  rw [String.toList_ofList]
  split
  · next d lexed =>
    rw [lexed]
    constructor
    · rintro ⟨⟨⟩, -⟩
    · rintro ⟨_, _, _, ⟨⟩, -⟩
  · next stream lexed =>
    rw [lexed, Step.gets_andThen]
    simp only [Step.gets_map, Prod.mk.injEq]
    constructor
    · rintro ⟨e, -, he, rest, hrest, hparts⟩
      exact ⟨e, _, rest, ⟨he, rfl⟩, hrest, hparts.symm⟩
    · rintro ⟨e, _, rest, ⟨he, rfl⟩, hrest, hparts⟩
      exact ⟨e, Nat.le_refl _, he, rest, hrest, hparts.symm⟩

theorem not_gets_unclosed : ¬ (readParts c token (.unclosed :: pieces)).Gets parts n := by
  rw [readParts]
  rintro ⟨⟨⟩, -⟩

theorem gets_nil : (readParts c token []).Gets parts n ↔ parts = [] ∧ c.nextId = n := by
  rw [readParts]
  constructor
  · rintro ⟨⟨⟩, hn⟩
    exact ⟨rfl, hn⟩
  · rintro ⟨rfl, hn⟩
    exact ⟨rfl, hn⟩

/-- A text between holes gives what it stands for. -/
theorem gets_ofText {raw : List Char} (h : Quotable raw) :
    (readParts c token (ofText raw ++ pieces)).Gets parts n ↔
      ∃ first rest, parts = first ++ rest ∧ TextParts raw first ∧
        (readParts c token pieces).Gets rest n := by
  simp only [textParts_iff h, ofText]
  split
  · constructor
    · exact fun hparts => ⟨[], parts, rfl, rfl, hparts⟩
    · rintro ⟨_, _, rfl, rfl, hrest⟩
      exact hrest
  · rw [List.singleton_append, gets_text]
    constructor
    · rintro ⟨rest, hrest, rfl⟩
      exact ⟨_, rest, rfl, rfl, hrest⟩
    · rintro ⟨_, rest, rfl, rfl, hrest⟩
      exact ⟨rest, hrest, rfl⟩

end Piece

section

variable {file : String} {start n n' : Nat} {front : List Char}
  {holes : List (List Char × List Char)} {unclosed : Option (List Char)} {parts : List Part}

/-- Behind a text comes a hole, if anything. -/
theorem Template.head_written :
    ∀ c ∈ (written unclosed holes).head?, c = '\x7b' := by
  cases holes with
  | cons => exact fun c hc => (Option.some.inj hc).symm
  | nil =>
    cases unclosed with
    | none => rintro _ ⟨⟩
    | some source => exact fun c hc => (Option.some.inj hc).symm

/-- **The holes are read as they are written.** They can be read if the last one is closed, and
stand for their expressions and the texts behind them. -/
theorem Piece.gets_written {token : Token}
    (hholes : ∀ hole ∈ holes, '\x7d' ∉ hole.1 ∧ Holeless hole.2 ∧ Quotable hole.2)
    (hunclosed : ∀ source ∈ unclosed, '\x7d' ∉ source) {c : Cursor} (front : List Char) :
    (readParts c token
        (Piece.split (byteLength front) (Template.written unclosed holes))).Gets parts n' ↔
      unclosed = none ∧
        HoleParts c.file (token.span.start + 2) front c.nextId holes parts n' := by
  induction holes generalizing c front parts with
  | nil =>
    cases unclosed with
    | some source =>
      have hsplit : Piece.split (byteLength front) (Template.written (some source) []) =
          [.unclosed] := split_unclosed (hunclosed source rfl) _
      rw [hsplit]
      exact ⟨fun h => absurd h not_gets_unclosed, by rintro ⟨⟨⟩, -⟩⟩
    | none =>
      have hsplit : Piece.split (byteLength front) (Template.written none []) = [] := by
        rw [Template.written, Option.map_none, Option.getD_none, Piece.split]
      rw [hsplit, gets_nil]
      constructor
      · rintro ⟨rfl, rfl⟩
        exact ⟨rfl, .nil⟩
      · rintro ⟨-, ⟨⟩⟩
        exact ⟨rfl, rfl⟩
  | cons hole holes ih =>
    obtain ⟨source, text⟩ := hole
    obtain ⟨⟨hsource, htext, hquotable⟩, hholes⟩ := List.forall_mem_cons.1 hholes
    have hopen : '\x7b'.utf8Size = 1 := rfl
    have hclose : '\x7d'.utf8Size = 1 := rfl
    have hbehind : byteLength front + 2 + byteLength source + byteLength text =
        byteLength (front ++ '\x7b' :: (source ++ '\x7d' :: text)) := by
      simp only [byteLength_append, byteLength_cons, hopen, hclose]
      omega
    have hstart : token.span.start + 2 + (byteLength front + 1) =
        token.span.start + 2 + byteLength (front ++ ['\x7b']) := by
      simp [hopen]
    rw [Template.written, split_hole hsource, split_text htext Template.head_written, hbehind,
      gets_hole, hstart]
    constructor
    · rintro ⟨e, m, _, he, hrest, rfl⟩
      obtain ⟨e₀, m₀, he₀, rfl, rfl⟩ := parseExpr_eq_ok_iff.1 he
      obtain ⟨first, rest, rfl, hfirst, hrest⟩ := (gets_ofText hquotable).1 hrest
      obtain ⟨hnone, hrest⟩ := (ih hholes _).1 hrest
      exact ⟨hnone, .cons he₀ hfirst hrest⟩
    · rintro ⟨hnone, h⟩
      cases h with
      | cons he hfirst hrest =>
        refine ⟨_, _, _, parseExpr_eq_ok_iff.2 ⟨_, _, he, rfl, rfl⟩, ?_, rfl⟩
        exact (gets_ofText hquotable).2 ⟨_, _, rfl, hfirst, (ih hholes _).2 ⟨hnone, hrest⟩⟩

/-- The holes stand for something if each of them is an expression. -/
theorem exists_holeParts_iff (hquotable : ∀ hole ∈ holes, Quotable hole.2) :
    (∃ parts n', HoleParts file start front n holes parts n') ↔
      ∀ hole ∈ holes, IsExpr file hole.1 := by
  induction holes generalizing front n with
  | nil => exact ⟨fun _ => List.forall_mem_nil _, fun _ => ⟨[], n, .nil⟩⟩
  | cons hole holes ih =>
    obtain ⟨source, text⟩ := hole
    obtain ⟨htext, hquotable⟩ := List.forall_mem_cons.1 hquotable
    rw [List.forall_mem_cons]
    constructor
    · rintro ⟨_, n', h⟩
      cases h with
      | cons he _ hrest => exact ⟨⟨_, congrArg Prod.fst he⟩, (ih hquotable).1 ⟨_, _, hrest⟩⟩
    · rintro ⟨⟨e, he⟩, hrest⟩
      obtain ⟨rest, n', hrest⟩ := (ih hquotable).2 hrest
      exact ⟨_, n', .cons (Prod.ext he rfl) ((textParts_iff htext).2 rfl) hrest⟩

/-- A text in front of a hole, or at the end, is not empty and not next to another. -/
theorem TextParts.tidy {raw : List Char} {first rest : List Part} (h : Quotable raw)
    (hfirst : TextParts raw first) (hrest : Tidy rest) (hhead : ∀ p ∈ rest.head?, ¬ p.IsText) :
    Tidy (first ++ rest) := by
  cases hfirst with
  | empty => exact hrest
  | @text value hne hvalue =>
    constructor
    · intro value' hm
      rcases List.mem_cons.1 hm with heq | hm
      · cases heq
        rw [(literalValue_iff h).1 hvalue]
        exact fun hempty => unescape_ne_nil hne (String.ofList_injective hempty)
      · exact hrest.nonempty value' hm
    · exact hrest.apart.cons fun p hp htexts => hhead p hp htexts.2

theorem HoleParts.tidy (h : HoleParts file start front n holes parts n')
    (hquotable : ∀ hole ∈ holes, Quotable hole.2) :
    Tidy parts ∧ ∀ p ∈ parts.head?, ¬ p.IsText := by
  induction h with
  | nil => exact ⟨⟨fun _ hm => absurd hm List.not_mem_nil, .nil⟩, by rintro _ ⟨⟩⟩
  | cons _ htext _ ih =>
    obtain ⟨hquotable, hholes⟩ := List.forall_mem_cons.1 hquotable
    obtain ⟨hrest, hhead⟩ := ih hholes
    have htidy := htext.tidy hquotable hrest hhead
    refine ⟨⟨fun value hm => ?_, ?_⟩, ?_⟩
    · rcases List.mem_cons.1 hm with ⟨⟨⟩⟩ | hm
      exact htidy.nonempty value hm
    · exact htidy.apart.cons fun p _ htexts => htexts.1
    · rintro _ ⟨⟩ htext
      exact htext

/-- Text takes up no region. -/
theorem TextParts.regions_append {raw : List Char} {first rest : List Part}
    (h : TextParts raw first) : partsRegions (first ++ rest) = partsRegions rest := by
  cases h with
  | empty => rfl
  | text => rfl

/-- The holes take up regions of the body, one behind the other. -/
theorem HoleParts.row (h : HoleParts file start front n holes parts n') :
    Row file (start + byteLength front) (partsRegions parts)
      (start + byteLength front + byteLength (Template.written none holes)) := by
  induction h with
  | nil => exact .nil (Nat.le_add_right _ _)
  | @cons front source text holes e parts rest n m n' he htext _ ih =>
    have hhole : parseExpr file (.ofList source) (start + byteLength (front ++ ['\x7b'])) n = _ :=
      parseExpr_eq_ok_iff.2 ⟨e, m, he, rfl, rfl⟩
    have hrow := parseExpr_row (congrArg Prod.fst hhole)
    have hopen : '\x7b'.utf8Size = 1 := rfl
    have hclose : '\x7d'.utf8Size = 1 := rfl
    simp only [String.toList_ofList, byteLength_append, byteLength_cons, byteLength_nil, hopen]
      at hrow
    simp only [byteLength_append, byteLength_cons, hopen, hclose] at ih
    rw [partsRegions, htext.regions_append, Template.written]
    simp only [byteLength_append, byteLength_cons, hopen, hclose]
    exact (hrow.mono (by omega) (Nat.le_refl _)).append (ih.mono (by omega) (by omega))

end

/-! ### Interpolated strings -/

theorem Spelled.quotable_body {piece : List Char} {value : String}
    (h : Spelled piece .interpolated value) : Quotable value.toList := by
  cases h with
  | word _ _ hkind =>
    exact absurd (TokenKind.ofWord_iff.1 hkind).symm (TokenKind.ofWord_ne_interpolated _)
  | interpolated h => rwa [String.toList_ofList]
  | mark h => exact absurd h (by simp [Pattern.all])

/-- An interpolated string is one token. -/
theorem tokenize_interpolated (file : String) {body : List Char} (h : Quotable body) :
    let text := '$' :: '"' :: (body ++ ['"'])
    tokenize file text =
      .ok ⟨file, [⟨.interpolated, .ofList body, ⟨file, 0, byteLength text⟩⟩], byteLength text⟩ := by
  intro text
  have hfirst := Pattern.first?_interpolated h []
  have htoken : Pattern.interpolated.token? text = some (.interpolated, .ofList body) := by
    simp [Pattern.token?, text]
  have hread : tokensFrom file 0 (text ++ []) = _ :=
    tokensFrom_token hfirst htoken (by rw [tokensFrom])
  rw [List.append_nil, Nat.zero_add] at hread
  rw [tokenize, hread]

/-- The body of an interpolated string can stand between quotes. -/
theorem quotable_of_tokenize {file : String} {text : List Char} {s : TokenStream} {t : Token}
    (hs : tokenize file text = .ok s) (ht : t ∈ s.tokens) (hk : t.kind = .interpolated) :
    Quotable t.value.toList := by
  unfold tokenize at hs
  split at hs
  · cases hs
  next tokens htokens =>
  cases hs
  obtain ⟨-, -, piece, -, -, hword⟩ := (cut_of_tokensFrom htokens).slices [] rfl t ht
  rw [hk] at hword
  exact hword.quotable_body

/-- The body of an interpolated string stands behind two characters and in front of a quote. -/
theorem body_of_tokenize {file : String} {text : List Char} {s : TokenStream} {t : Token}
    (hs : tokenize file text = .ok s) (ht : t ∈ s.tokens) (hk : t.kind = .interpolated) :
    t.span.start + 2 + byteLength t.value.toList ≤ t.span.stop := by
  have hin := inside_of_tokenize (x := ⟨file, byteLength text⟩) hs rfl
    (Nat.le_of_eq (Nat.zero_add _)) 0
  rw [s.shift_zero] at hin
  exact (hin.tokens t ht).1.body hk

namespace Template

variable {b : Template} {c : Cursor} {t : Token}

/-- The whole body, hole by hole. -/
theorem gets_body (hvalid : b.Valid) (hbody : Quotable b.body) {parts : List Part} {n : Nat} :
    (readParts c t (Piece.split 0 b.body)).Gets parts n ↔
      b.unclosed = none ∧ b.Parts c.file (t.span.start + 2) c.nextId parts n := by
  obtain ⟨htext, hholes⟩ := hvalid.quotable_texts hbody
  have hholes' : ∀ hole ∈ b.holes, '\x7d' ∉ hole.1 ∧ Holeless hole.2 ∧ Quotable hole.2 :=
    fun hole hm => ⟨(hvalid.holes hole hm).1, (hvalid.holes hole hm).2, hholes hole hm⟩
  rw [body, Piece.split_text hvalid.text head_written, Piece.gets_ofText htext, Nat.zero_add]
  simp only [Piece.gets_written hholes' hvalid.unclosed, Template.Parts]
  constructor
  · rintro ⟨first, rest, hparts, hfirst, hnone, hrest⟩
    exact ⟨hnone, first, rest, hparts, hfirst, hrest⟩
  · rintro ⟨hnone, first, rest, hparts, hfirst, hrest⟩
    exact ⟨first, rest, hparts, hfirst, hnone, hrest⟩

theorem exists_parts_iff (hvalid : b.Valid) (hbody : Quotable b.body) (file : String)
    (start n : Nat) :
    (∃ parts n', b.Parts file start n parts n') ↔ ∀ hole ∈ b.holes, IsExpr file hole.1 := by
  obtain ⟨htext, hholes⟩ := hvalid.quotable_texts hbody
  have hiff : (∃ parts n', HoleParts file start b.text n b.holes parts n') ↔
      ∀ hole ∈ b.holes, IsExpr file hole.1 := exists_holeParts_iff hholes
  rw [← hiff]
  constructor
  · rintro ⟨_, n', first, rest, -, -, hrest⟩
    exact ⟨rest, n', hrest⟩
  · rintro ⟨rest, n', hrest⟩
    exact ⟨_, n', _, rest, rfl, (textParts_iff htext).2 rfl, hrest⟩

theorem Parts.tidy (hvalid : b.Valid) (hbody : Quotable b.body) {file : String} {start n n' : Nat}
    {parts : List Part} (h : b.Parts file start n parts n') : Tidy parts := by
  obtain ⟨htext, hholes⟩ := hvalid.quotable_texts hbody
  obtain ⟨first, rest, rfl, hfirst, hrest⟩ := h
  obtain ⟨hrest, hhead⟩ := hrest.tidy hholes
  exact hfirst.tidy htext hrest hhead

end Template

/-- The string is read by the pieces of its body, and takes the number behind theirs. -/
theorem readInterpolated_eq_ok_iff {c : Cursor} (h : c.kind = .interpolated) {e : Expr} :
    (readInterpolated c h).outcome = .ok e ↔
      ∃ parts n,
        (readParts c.advance c.current (Piece.split 0 c.current.value.toList)).Gets parts n ∧
          e = .interpolated ⟨n, c.current.span⟩ parts := by
  have hread : (readInterpolated c h).outcome =
      ((readParts c.advance c.current (Piece.split 0 c.current.value.toList)).andThen
        fun parts c' _ => c'.build c.current.span fun n => .interpolated n parts).outcome := by
    rw [readInterpolated]
    rfl
  rw [hread]
  constructor
  · intro he
    obtain ⟨parts, -, hparts, ⟨⟩⟩ := Step.exists_of_andThen_ok he
    exact ⟨parts, _, ⟨hparts, rfl⟩, rfl⟩
  · rintro ⟨parts, n, ⟨hparts, rfl⟩, rfl⟩
    exact (Step.gets_andThen.2 ⟨parts, Step.progress _ parts hparts, hparts, rfl, rfl⟩).1

/-- **Interpolated strings are split exactly.** The body of an interpolated token has its parts, and
can be read if each hole is closed and is an expression. What is read is then text for each text
that is not empty, as the plain literal has it, and each hole as its text has it, at its place. If
the token ends before byte 2^32, that place is kept as it is. -/
theorem readInterpolated_splits {file : String} {text : List Char} {s : TokenStream} {t : Token}
    (hs : tokenize file text = .ok s) (ht : t ∈ s.tokens) (hk : t.kind = .interpolated) {k : Nat}
    (hsize : t.span.stop + k < UInt32.size) :
    (∃ b : Template, b.Valid ∧ b.body = t.value.toList) ∧
      ∀ b : Template, b.Valid → b.body = t.value.toList →
        ∀ (c : Cursor) (h : c.kind = .interpolated), c.current = t.shift k →
          ((∃ e, (readInterpolated c h).outcome = .ok e) ↔
            b.unclosed = none ∧ ∀ hole ∈ b.holes, IsExpr c.file hole.1) ∧
          ∀ e, (readInterpolated c h).outcome = .ok e →
            ∃ parts n, e = .interpolated ⟨n, t.span.shift k⟩ parts ∧
              b.Parts c.file (t.span.start + k + 2) c.nextId parts n ∧ Tidy parts ∧
              ∀ s ∈ e.region.spans, s.stored = s := by
  have hquotable := quotable_of_tokenize hs ht hk
  refine ⟨Template.exists_of_quotable hquotable, fun b hvalid hbody c h hcurrent => ?_⟩
  rw [← hbody] at hquotable
  have hread : ∀ e, (readInterpolated c h).outcome = .ok e ↔ ∃ parts n,
      (b.unclosed = none ∧ b.Parts c.file (t.span.start + k + 2) c.nextId parts n) ∧
        e = .interpolated ⟨n, t.span.shift k⟩ parts := by
    intro e
    have hvalue : (t.shift k).value.toList = b.body := hbody.symm
    rw [readInterpolated_eq_ok_iff, hcurrent, hvalue]
    simp only [Template.gets_body hvalid hquotable, Cursor.file_advance, Cursor.nextId_advance]
    rfl
  constructor
  · rw [← Template.exists_parts_iff hvalid hquotable c.file (t.span.start + k + 2) c.nextId]
    constructor
    · rintro ⟨e, he⟩
      obtain ⟨parts, n, ⟨hnone, hparts⟩, -⟩ := (hread e).1 he
      exact ⟨hnone, parts, n, hparts⟩
    · rintro ⟨hnone, parts, n, hparts⟩
      exact ⟨_, (hread _).2 ⟨parts, n, ⟨hnone, hparts⟩, rfl⟩⟩
  · intro e he
    obtain ⟨parts, n, ⟨hnone, hparts⟩, rfl⟩ := (hread e).1 he
    refine ⟨parts, n, rfl, hparts, hparts.tidy hvalid hquotable, ?_⟩
    obtain ⟨first, rest, rfl, hfirst, hrest⟩ := hparts
    have hwithin := body_of_tokenize hs ht hk
    rw [← hbody, Template.body, hnone, byteLength_append] at hwithin
    intro span hspan
    rw [Expr.region, Region.spans, List.mem_cons, hfirst.regions_append] at hspan
    rcases hspan with rfl | hspan
    · refine Span.stored_eq_self ?_ hsize
      show t.span.start + k < UInt32.size
      omega
    · obtain ⟨-, -, hlt, hstop⟩ := hrest.row.forall_spans span hspan
      exact Span.stored_eq_self (by omega) (by omega)

/-- A brace that a backslash takes along opens no hole, and `é` takes two bytes: the hole is read at
byte 7, five bytes into the body. -/
theorem readInterpolated_splits_escaped :
    let t : Token := ⟨.interpolated, "\\\x7bé\x7ba\x7d\\n", ⟨"a", 0, 12⟩⟩
    let b : Template := ⟨['\\', '\x7b', 'é'], [(['a'], ['\\', 'n'])], none⟩
    tokenize "a" "$\"\\\x7bé\x7ba\x7d\\n\"".toList = .ok ⟨"a", [t], 12⟩ ∧
      t.span.stop + 0 < UInt32.size ∧
      ∃ e parts n, (readInterpolated ⟨"a", [t], 12, 0, 0⟩ rfl).outcome = .ok e ∧
        e = .interpolated ⟨n, ⟨"a", 0, 12⟩⟩ parts ∧ b.Parts "a" 2 0 parts n ∧ Tidy parts ∧
        ∀ s ∈ e.region.spans, s.stored = s := by
  intro t b
  have htokens : tokensFrom "a" 0 "$\"\\\x7bé\x7ba\x7d\\n\"".toList = .ok [t] := by
    decide +kernel
  have hs : tokenize "a" "$\"\\\x7bé\x7ba\x7d\\n\"".toList = .ok ⟨"a", [t], 12⟩ := by
    rw [tokenize, htokens]
    rfl
  have hvalid : b.Valid := by
    refine ⟨.pair (.char (by decide) (by decide) .nil), ?_, by rintro _ ⟨⟩⟩
    exact List.forall_mem_singleton.2 ⟨by decide, .pair .nil⟩
  have hexpr : IsExpr "a" ['a'] := by
    have hrun : (parseExpr "a" (.ofList ['a']) 0 0).1.toOption.isSome = true := by decide +kernel
    obtain ⟨e, he⟩ := Option.isSome_iff_exists.1 hrun
    exact ⟨e, eq_ok_of_toOption he⟩
  have hbody : b.body = t.value.toList := by decide
  have hsize : t.span.stop + 0 < UInt32.size := by decide
  obtain ⟨hiff, hparts⟩ := (readInterpolated_splits hs (List.mem_singleton_self t) rfl hsize).2 b
    hvalid hbody ⟨"a", [t], 12, 0, 0⟩ rfl rfl
  obtain ⟨e, he⟩ := hiff.2 ⟨rfl, List.forall_mem_singleton.2 hexpr⟩
  obtain ⟨parts, n, hparts⟩ := hparts e he
  exact ⟨hs, hsize, e, parts, n, he, hparts⟩

/-- A hole behind that many blanks. -/
def Template.behindBlanks (n : Nat) : Template :=
  ⟨blanks n, [(['x'], [])], none⟩

theorem Template.valid_behindBlanks (n : Nat) : (behindBlanks n).Valid := by
  refine ⟨?_, List.forall_mem_singleton.2 ⟨by decide, .nil⟩, by rintro _ ⟨⟩⟩
  induction n with
  | zero => exact .nil
  | succ n ih => exact .char (by decide) (by decide) ih

theorem Template.quotable_behindBlanks (n : Nat) : Quotable (behindBlanks n).body := by
  induction n with
  | zero =>
    exact .char (by decide) (by decide) (.char (by decide) (by decide)
      (.char (by decide) (by decide) .nil))
  | succ n ih => exact .char (by decide) (by decide) ih

/-- The hole behind 2^32 blanks is read at byte 2^32 + 3 of the file, and kept as one at byte 3: its
place in the body is cut off to byte 1, and behind the two characters before the body that is 3. -/
theorem readInterpolated_splits_behindBlanks :
    let b := Template.behindBlanks UInt32.size
    let text := '$' :: '"' :: (b.body ++ ['"'])
    let t : Token := ⟨.interpolated, .ofList b.body, ⟨"a", 0, byteLength text⟩⟩
    tokenize "a" text = .ok ⟨"a", [t], byteLength text⟩ ∧ b.Valid ∧ b.body = t.value.toList ∧
      ∃ parts e, (readInterpolated ⟨"a", [t], byteLength text, 0, 0⟩ rfl).outcome =
          .ok (.interpolated ⟨1, t.span⟩ parts) ∧ .hole e ∈ parts ∧
        e.span.stored = ⟨"a", 3, 4⟩ ∧
        t.span.start + 2 + byteLength (b.text ++ ['\x7b']) = UInt32.size + 3 := by
  intro b text t
  have hvalid : b.Valid := Template.valid_behindBlanks _
  have hquotable : Quotable b.body := Template.quotable_behindBlanks _
  have hbody : b.body = t.value.toList := String.toList_ofList.symm
  have hrun : ((parseExpr "a" (.ofList ['x']) 0 0).1.toOption.any fun e =>
      decide (e.span = ⟨"a", 0, 1⟩)) = true ∧ (parseExpr "a" (.ofList ['x']) 0 0).2 = 1 := by
    decide +kernel
  obtain ⟨hread, hnext⟩ := hrun
  obtain ⟨e, he, hspan⟩ := (Option.any_eq_true _ _).1 hread
  have hx : parseExpr "a" (.ofList ['x']) 0 0 = (.ok e, 1) := Prod.ext (eq_ok_of_toOption he) hnext
  have hstart : byteLength (b.text ++ ['\x7b']) = UInt32.size + 1 := by
    rw [byteLength_append]
    exact congrArg (· + 1) (byteLength_blanks _)
  obtain ⟨first, hfirst⟩ : ∃ first, TextParts b.text first :=
    ⟨_, (textParts_iff (hvalid.quotable_texts hquotable).1).2 rfl⟩
  let hole := e.moved 0 (2 + byteLength (b.text ++ ['\x7b']))
  have hparts : b.Parts "a" 2 0 (first ++ [.hole hole]) 1 :=
    ⟨first, [.hole hole], rfl, hfirst, .cons hx (.empty rfl) .nil⟩
  refine ⟨tokenize_interpolated "a" hquotable, hvalid, hbody, first ++ [.hole hole], hole, ?_,
    List.mem_append_right _ List.mem_cons_self, ?_, ?_⟩
  · refine (readInterpolated_eq_ok_iff rfl).2 ⟨_, 1, ?_, rfl⟩
    have hvalue : Cursor.current ⟨"a", [t], byteLength text, 0, 0⟩ = t := rfl
    rw [hvalue, ← hbody]
    exact (Template.gets_body hvalid hquotable).2 ⟨rfl, hparts⟩
  · rw [Expr.span_moved, of_decide_eq_true hspan, hstart]
    rfl
  · rw [hstart, Nat.zero_add, ← Nat.add_assoc, Nat.add_comm 2]

end MgLang
