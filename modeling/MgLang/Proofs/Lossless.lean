import MgLang.Proofs.Lexemes
import MgLang.Proofs.Precedence
/-!
# Nothing of a text is lost

The tokens of a text, with what separates them, are the text (`Cut`), so every byte is in one token
or in one gap. The main statement is `tokenize_lossless`: what the spans of the tokens say holds of
the text (`Lossless`), and if there are no tokens, then some character begins no piece.

One step of the lexer puts one more piece in front (`Cut.filler`, `Cut.spelled`).
-/

namespace MgLang

/-! ### Texts that are cut -/

/-- The text is made of what separates tokens. -/
inductive Gap (behind : List Char) : List Char → Prop
  | nil : Gap behind []
  | cons {piece rest : List Char} (h : Filler (rest ++ behind) piece) (hrest : Gap behind rest) :
    Gap behind (piece ++ rest)

/-- The text that begins at byte `start` is made of these tokens and the gaps around them. -/
inductive Cut (file : String) (behind : List Char) : Nat → List Char → List Token → Prop
  | last {start : Nat} {gap : List Char} (hgap : Gap behind gap) : Cut file behind start gap []
  | token {start : Nat} {gap piece rest : List Char} {t : Token} {tokens : List Token}
    (hgap : Gap (piece ++ (rest ++ behind)) gap) (hpiece : Spelled piece t.kind t.value)
    (hspan : t.span = ⟨file, start + byteLength gap, start + byteLength (gap ++ piece)⟩)
    (hrest : Cut file behind t.span.stop rest tokens) :
    Cut file behind start (gap ++ (piece ++ rest)) (t :: tokens)

/-- From byte `start` to byte `stop` of the text stands `cs`, and then `behind`. -/
def Slice (text : List Char) (start stop : Nat) (cs behind : List Char) : Prop :=
  ∃ before, text = before ++ (cs ++ behind) ∧ byteLength before = start ∧
    start + byteLength cs = stop

section

variable {file : String} {behind cs piece : List Char} {start pos : Nat} {tokens : List Token}

theorem Cut.filler (hpiece : Filler (cs ++ behind) piece)
    (h : Cut file behind (start + byteLength piece) cs tokens) :
    Cut file behind start (piece ++ cs) tokens := by
  cases h with
  | last hgap => exact .last (.cons hpiece hgap)
  | @token _ gap word rest t tokens hgap hword hspan hrest =>
    rw [← List.append_assoc]
    refine .token (.cons ?_ hgap) hword ?_ hrest
    · simpa using hpiece
    · rw [hspan]
      simp [Nat.add_assoc]

theorem Cut.spelled {kind : TokenKind} {value : String} (hpiece : Spelled piece kind value)
    (h : Cut file behind (start + byteLength piece) cs tokens) :
    Cut file behind start (piece ++ cs)
      (⟨kind, value, ⟨file, start, start + byteLength piece⟩⟩ :: tokens) :=
  .token .nil hpiece rfl h

/-- What a pattern takes is put in front, with or without a token. -/
theorem Cut.fits {p : Pattern} (hpiece : p.Fits piece (cs ++ behind))
    (h : Cut file behind (start + byteLength piece) cs tokens) :
    ∃ tokens', Cut file behind start (piece ++ cs) tokens' := by
  cases ht : p.token? piece with
  | none => exact ⟨tokens, h.filler (hpiece.filler ht)⟩
  | some t => exact ⟨_, h.spelled (hpiece.spelled ht)⟩

/-! ### The lexer -/

/-- The tokens of a text cut it to its end. -/
theorem cut_of_tokensFrom (h : tokensFrom file start cs = .ok tokens) :
    Cut file [] start cs tokens := by
  fun_induction tokensFrom file start cs generalizing tokens with
  | case1 =>
    cases h
    exact .last .nil
  | case2 => contradiction
  | case3 => contradiction
  | case4 start c r p n hf piece stop rest hrest ht =>
    rename_i ih
    cases h
    have hpiece := (Pattern.fits_of_first? hf).filler ht
    rw [← List.take_append_drop n (c :: r)]
    exact (ih hrest).filler ((List.append_nil _).symm ▸ hpiece)
  | case5 start c r p n hf piece stop rest hrest kind value ht =>
    rename_i ih
    cases h
    rw [← List.take_append_drop n (c :: r)]
    exact (ih hrest).spelled ((Pattern.fits_of_first? hf).spelled ht)

/-- A text without tokens is cut up to a character at which no pattern takes anything. -/
theorem exists_of_tokensFrom_error {d : Diagnostic} (h : tokensFrom file start cs = .error d) :
    ∃ before c behind, cs = before ++ c :: behind ∧
      (∃ tokens, Cut file (c :: behind) start before tokens) ∧
      Pattern.first? (c :: behind) = none ∧
      d = ⟨.unrecognisedToken (.singleton c),
        ⟨file, start + byteLength before, start + byteLength before + c.utf8Size⟩⟩ := by
  fun_induction tokensFrom file start cs with
  | case1 => contradiction
  | case2 start c r hf =>
    cases h
    exact ⟨[], c, r, rfl, ⟨[], .last .nil⟩, hf, rfl⟩
  | case3 start c r p n hf piece stop d' hd ih =>
    cases h
    obtain ⟨before, x, behind, hcs, ⟨tokens, hcut⟩, hnone, rfl⟩ := ih hd
    have hpiece := Pattern.fits_of_first? hf
    rw [hcs] at hpiece
    refine ⟨piece ++ before, x, behind, ?_, hcut.fits hpiece, hnone, ?_⟩
    · rw [List.append_assoc, ← hcs, List.take_append_drop]
    · rw [byteLength_append, ← Nat.add_assoc]
  | case4 => contradiction
  | case5 => contradiction

/-! ### Places in the text -/

theorem byteLength_pos (h : cs ≠ []) : 0 < byteLength cs := by
  obtain ⟨c, r, rfl⟩ := List.exists_cons_of_ne_nil h
  have := c.utf8Size_pos
  rw [byteLength_cons]
  omega

/-- Tokens follow each other, within the text. -/
theorem Cut.ordered (h : Cut file behind start cs tokens) :
    (∀ t ∈ tokens, start ≤ t.span.start ∧ t.span.stop ≤ start + byteLength cs) ∧
      tokens.Pairwise fun a b => a.span.stop ≤ b.span.start := by
  induction h with
  | last => exact ⟨List.forall_mem_nil _, .nil⟩
  | @token start gap piece rest t tokens _ _ hspan _ ih =>
    have hstart : t.span.start = start + byteLength gap := by rw [hspan]
    have hstop : t.span.stop = start + byteLength (gap ++ piece) := by rw [hspan]
    rw [byteLength_append] at hstop
    obtain ⟨hwithin, hordered⟩ := ih
    refine ⟨List.forall_mem_cons.2 ⟨?_, fun x hx => ?_⟩, List.pairwise_cons.2 ⟨?_, hordered⟩⟩
    · simp only [byteLength_append]
      omega
    · have := hwithin x hx
      simp only [byteLength_append]
      omega
    · exact fun x hx => (hwithin x hx).1

/-- Every token stands where its span says. -/
theorem Cut.slices (h : Cut file behind start cs tokens) (before : List Char)
    (hbefore : byteLength before = start) :
    ∀ t ∈ tokens, t.span.file = file ∧ t.span.start < t.span.stop ∧
      ∃ piece after, Slice (before ++ (cs ++ behind)) t.span.start t.span.stop piece after ∧
        Spelled piece t.kind t.value := by
  induction h generalizing before with
  | last => exact List.forall_mem_nil _
  | @token start gap piece rest t tokens _ hword hspan _ ih =>
    have hstart : t.span.start = start + byteLength gap := by rw [hspan]
    have hstop : t.span.stop = start + byteLength (gap ++ piece) := by rw [hspan]
    have hpos := byteLength_pos hword.ne_nil
    have hfront : byteLength (before ++ (gap ++ piece)) = t.span.stop := by
      rw [byteLength_append, hbefore, hstop]
    rw [byteLength_append] at hstop
    refine List.forall_mem_cons.2 ⟨⟨by rw [hspan], by omega, piece, rest ++ behind, ?_, hword⟩, ?_⟩
    · refine ⟨before ++ gap, by simp, ?_, by omega⟩
      rw [byteLength_append]
      omega
    · have htext : before ++ (gap ++ (piece ++ rest) ++ behind) =
          before ++ (gap ++ piece) ++ (rest ++ behind) := by simp
      rw [htext]
      exact ih _ hfront

/-- What stands before, between and behind the tokens separates them. -/
theorem Cut.gaps (h : Cut file behind start cs tokens) (before : List Char)
    (hbefore : byteLength before = start) :
    ∀ g ∈ (start :: tokens.map (·.span.stop)).zip
        (tokens.map (·.span.start) ++ [start + byteLength cs]),
      ∃ gap after, Slice (before ++ (cs ++ behind)) g.1 g.2 gap after ∧ Gap after gap := by
  induction h generalizing before with
  | @last start gap hgap =>
    refine List.forall_mem_singleton.2 ⟨gap, behind, ⟨before, rfl, hbefore, rfl⟩, hgap⟩
  | @token start gap piece rest t tokens hgap _ hspan _ ih =>
    have hstart : t.span.start = start + byteLength gap := by rw [hspan]
    have hstop : t.span.stop = start + byteLength (gap ++ piece) := by rw [hspan]
    have hfront : byteLength (before ++ (gap ++ piece)) = t.span.stop := by
      rw [byteLength_append, hbefore, hstop]
    have hend : start + byteLength (gap ++ (piece ++ rest)) = t.span.stop + byteLength rest := by
      rw [hstop]
      simp [Nat.add_assoc]
    have htext : before ++ (gap ++ (piece ++ rest) ++ behind) =
        before ++ (gap ++ piece) ++ (rest ++ behind) := by simp
    refine List.forall_mem_cons.2 ⟨⟨gap, piece ++ (rest ++ behind), ?_, hgap⟩, ?_⟩
    · exact ⟨before, by simp, hbefore, hstart.symm⟩
    · rw [htext, hend]
      exact ih _ hfront

end

/-- What the tokens of a text say about it. -/
structure Lossless (file : String) (text : List Char) (s : TokenStream) : Prop where
  /-- The mark at the end of the text is the last token, -/
  endMark : s.toList.getLast? = some (.endMark file (byteLength text))
  /-- and the only one of its kind. -/
  inner : ∀ t ∈ s.tokens, t.kind ≠ .eof
  /-- Any other token takes the bytes of its span, which determine the rest of it. -/
  slices : ∀ t ∈ s.tokens, t.span.file = file ∧ t.span.start < t.span.stop ∧
    ∃ piece behind, Slice text t.span.start t.span.stop piece behind ∧
      Spelled piece t.kind t.value ∧
      ∀ kind value, Spelled piece kind value → kind = t.kind ∧ value = t.value
  /-- No two overlap, and they are in order. -/
  ordered : s.toList.Pairwise fun a b => a.span.stop ≤ b.span.start
  /-- Before, between and behind them stands what separates tokens. -/
  gaps : ∀ g ∈ (0 :: s.tokens.map (·.span.stop)).zip (s.toList.map (·.span.start)),
    ∃ gap behind, Slice text g.1 g.2 gap behind ∧ Gap behind gap

/-- **Lexing is lossless.** Every text either has tokens that, with the gaps between them, are the
text, or is so up to a character at which no pattern takes anything, which is reported. -/
theorem tokenize_lossless (file : String) (text : List Char) :
    (∃ s, tokenize file text = .ok s ∧ Lossless file text s) ∨
      ∃ before c behind, text = before ++ c :: behind ∧
        (∃ tokens, Cut file (c :: behind) 0 before tokens) ∧
        Pattern.first? (c :: behind) = none ∧
        tokenize file text = .error ⟨.unrecognisedToken (.singleton c),
          ⟨file, byteLength before, byteLength before + c.utf8Size⟩⟩ := by
  cases h : tokensFrom file 0 text with
  | error d =>
    obtain ⟨before, c, behind, htext, hcut, hnone, rfl⟩ := exists_of_tokensFrom_error h
    refine .inr ⟨before, c, behind, htext, hcut, hnone, ?_⟩
    rw [tokenize, h, Nat.zero_add]
  | ok tokens =>
    have hok : tokenize file text = .ok ⟨file, tokens, byteLength text⟩ := by rw [tokenize, h]
    have hcut := cut_of_tokensFrom h
    have htext : [] ++ (text ++ []) = text := by simp
    have hslices := hcut.slices [] rfl
    have hgaps := hcut.gaps [] rfl
    obtain ⟨hwithin, hordered⟩ := hcut.ordered
    rw [htext] at hslices hgaps
    rw [Nat.zero_add] at hgaps hwithin
    refine .inl ⟨_, hok, ?_, tokenize_ne_eof hok, ?_, ?_, ?_⟩
    · exact List.getLast?_concat
    · intro t ht
      obtain ⟨hfile, hpos, piece, behind, hslice, hword⟩ := hslices t ht
      exact ⟨hfile, hpos, piece, behind, hslice, hword, fun _ _ h => h.unique hword⟩
    · refine List.pairwise_append.2 ⟨hordered, List.pairwise_singleton _ _, ?_⟩
      intro t ht e he
      rw [List.mem_singleton.1 he]
      exact (hwithin t ht).2
    · simpa [TokenStream.toList, Token.endMark] using hgaps

end MgLang
