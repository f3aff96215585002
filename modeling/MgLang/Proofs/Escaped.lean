import MgLang.Proofs.Layout
/-!
# Every string can be written as a literal

`Written` says how a character may be written between quotes: as itself, as a backslash and a
letter, or by its number in two hexadecimal digits. A literal may choose anew for each of its
characters. The lexer has to find the end of such a literal before its escapes are resolved; both go
by the same pieces (`Written.quotable`, `Written.unescape`), so that what was written is read back
(`tokenize_written`).
-/

namespace MgLang

/-- The letters behind a backslash, each with the character that it stands for. -/
def letterEscapes : List (Char × Char) :=
  [('n', '\n'), ('t', '\t'), ('r', '\r'), ('0', '\x00'), ('\\', '\\'), ('"', '"'),
   ('\x7b', '\x7b'), ('\x7d', '\x7d')]

/-- The hexadecimal digits in both cases, each with its value. -/
def hexDigits : List (Char × Nat) :=
  "0123456789abcdef".toList.zipIdx ++ "ABCDEF".toList.zipIdx 10

/-- The character may be written as that text between quotes. -/
inductive Written (c : Char) : List Char → Prop
  | plain (hquote : c ≠ '"') (hslash : c ≠ '\\') : Written c [c]
  | letter {e : Char} (h : (e, c) ∈ letterEscapes) : Written c ['\\', e]
  | number {a b : Char} {i j : Nat} (ha : (a, i) ∈ hexDigits) (hb : (b, j) ∈ hexDigits)
    (h : c.toNat = 16 * i + j) : Written c ['\\', 'x', a, b]

/-! ### The tables -/

theorem escape?_of_mem : ∀ e ∈ letterEscapes, escape? e.1 = some e.2 ∧ e.1 ≠ 'x' ∧ e.1 ≠ '\n' := by
  decide

theorem hexDigit?_of_mem :
    ∀ e ∈ hexDigits, hexDigit? e.1 = some e.2 ∧ e.1 ≠ '"' ∧ e.1 ≠ '\\' := by
  decide +kernel

/-! ### The pieces of a literal -/

namespace Written

variable {c : Char} {piece rest : List Char}

/-- The characters that cannot stand for themselves have a letter. -/
theorem exists_piece (c : Char) : ∃ piece, Written c piece := by
  by_cases hquote : c = '"'
  · subst hquote
    exact ⟨['\\', '"'], .letter (by decide)⟩
  by_cases hslash : c = '\\'
  · subst hslash
    exact ⟨['\\', '\\'], .letter (by decide)⟩
  exact ⟨[c], .plain hquote hslash⟩

/-- The lexer does not end the literal within a piece. -/
theorem quotable (h : Written c piece) (hrest : Quotable rest) : Quotable (piece ++ rest) := by
  cases h with
  | plain hquote hslash => exact .char hquote hslash hrest
  | letter h => exact .escape (escape?_of_mem _ h).2.2 hrest
  | number ha hb =>
    obtain ⟨-, haquote, haslash⟩ := hexDigit?_of_mem _ ha
    obtain ⟨-, hbquote, hbslash⟩ := hexDigit?_of_mem _ hb
    exact .escape (by decide) (.char haquote haslash (.char hbquote hbslash hrest))

/-- A piece stands for its character, whatever comes behind it. -/
theorem unescape (h : Written c piece) (rest : List Char) :
    unescape (piece ++ rest) = c :: unescape rest := by
  cases h with
  | plain hquote hslash => simp [MgLang.unescape, hslash]
  | letter h =>
    obtain ⟨hescape, hx, -⟩ := escape?_of_mem _ h
    simp [MgLang.unescape, hx, hescape]
  | number ha hb h =>
    have ha := (hexDigit?_of_mem _ ha).1
    have hb := (hexDigit?_of_mem _ hb).1
    simp only [List.cons_append, List.nil_append, MgLang.unescape, ha, hb, ← h, Char.ofNat_toNat]

end Written

section

variable {cs : List Char} {pieces : List (List Char)}

theorem quotable_of_written (h : List.Forall₂ Written cs pieces) : Quotable pieces.flatten := by
  induction h with
  | nil => exact .nil
  | cons hpiece _ ih => exact hpiece.quotable ih

theorem unescape_of_written (h : List.Forall₂ Written cs pieces) :
    unescape pieces.flatten = cs := by
  induction h with
  | nil => rfl
  | @cons c piece cs pieces hpiece _ ih => rw [List.flatten_cons, hpiece.unescape, ih]

theorem exists_written : ∀ cs : List Char, ∃ pieces, List.Forall₂ Written cs pieces
  | [] => ⟨[], .nil⟩
  | c :: cs =>
    have ⟨piece, hpiece⟩ := Written.exists_piece c
    have ⟨pieces, hpieces⟩ := exists_written cs
    ⟨piece :: pieces, .cons hpiece hpieces⟩

end

/-- A text between quotes is one token. -/
theorem tokenize_quoted (file : String) {body : List Char} (h : Quotable body) :
    tokenize file ('"' :: (body ++ ['"'])) =
      .ok ⟨file, [⟨.string, .ofList (unescape body),
          ⟨file, 0, byteLength ('"' :: (body ++ ['"']))⟩⟩],
        byteLength ('"' :: (body ++ ['"']))⟩ := by
  have hfirst := Pattern.first?_string h []
  have htoken : Pattern.string.token? ('"' :: (body ++ ['"'])) =
      some (.string, .ofList (unescape body)) := by
    simp [Pattern.token?]
  have hread : tokensFrom file 0 ('"' :: (body ++ ['"']) ++ []) = _ :=
    tokensFrom_token hfirst htoken (by rw [tokensFrom])
  rw [List.append_nil, Nat.zero_add] at hread
  rw [tokenize, hread]

/-- **Every string can be written and is read back exactly.** Each of its characters can be written
in some way, and however they are written, the lexer takes the literal as a string of that value. -/
theorem tokenize_written (file value : String) :
    (∃ pieces, List.Forall₂ Written value.toList pieces) ∧
      ∀ pieces, List.Forall₂ Written value.toList pieces →
        let text := '"' :: (pieces.flatten ++ ['"'])
        ∃ s, tokenize file text = .ok s ∧
          s.toList = [⟨.string, value, ⟨file, 0, byteLength text⟩⟩,
            .endMark file (byteLength text)] := by
  refine ⟨exists_written _, fun pieces h => ⟨_, tokenize_quoted file (quotable_of_written h), ?_⟩⟩
  rw [unescape_of_written h, String.ofList_toList]
  rfl

/-- A letter that could be a digit, right behind a number, and a line that is broken in two. -/
theorem tokenize_written_mixed :
    ∃ s, tokenize "a" "\"\\x41B\\\"\n\\n\"".toList = .ok s ∧
      s.toList = [⟨.string, "AB\"\n\n", ⟨"a", 0, 12⟩⟩, .endMark "a" 12] := by
  have hpieces : List.Forall₂ Written "AB\"\n\n".toList
      [['\\', 'x', '4', '1'], ['B'], ['\\', '"'], ['\n'], ['\\', 'n']] := by
    refine .cons (@Written.number _ '4' '1' 4 1 ?_ ?_ rfl) (.cons (.plain ?_ ?_)
      (.cons (.letter ?_) (.cons (.plain ?_ ?_) (.cons (.letter ?_) .nil))))
    all_goals decide
  exact (tokenize_written "a" "AB\"\n\n").2 _ hpieces

end MgLang
