import MgLang.Proofs.Lossless
import Mathlib.Data.List.Forall2
/-!
# Layout and comments do not matter

A text can be laid out again: its tokens are kept as they are written, and any blanks and comments
are put around them (`respaced`). As long as a blank comes right behind each token, the new text has
the tokens of the old one (`tokenize_respaced`).

Reading goes over spacing without a trace (`tokensFrom_spacing`), and a token in front of a blank is
cut as one piece whatever the blank is followed by (`Spelled.first?_append`).
-/

namespace MgLang

/-! ### Spacing -/

/-- The text is made of blanks, closed comments and commented lines with their ends. -/
inductive Spacing : List Char → Prop
  | nil : Spacing []
  | blank {c : Char} {r : List Char} (hc : isBlank c = true) (h : Spacing r) : Spacing (c :: r)
  | blockComment {body r : List Char} (hbody : ¬ ['*', '/'] <:+: body) (h : Spacing r) :
    Spacing ('/' :: '*' :: (body ++ ['*', '/']) ++ r)
  | lineComment {body r : List Char} (hbody : '\n' ∉ body) (h : Spacing r) :
    Spacing ('/' :: '/' :: body ++ '\n' :: r)

/-- The text is spacing that begins with a blank. -/
structure Separator (gap : List Char) : Prop where
  spacing : Spacing gap
  begins : ∃ c ∈ gap.head?, isBlank c = true

/-- The pieces with a gap in front of each and one behind the last. -/
def respaced : List (List Char) → List (List Char) → List Char
  | [], _ => []
  | gap :: _, [] => gap
  | gap :: gaps, piece :: pieces => gap ++ (piece ++ respaced gaps pieces)

theorem Separator.breaks {gap : List Char} (h : Separator gap) (rest : List Char) :
    Pattern.Breaks (gap ++ rest) := by
  obtain ⟨c, hc, hblank⟩ := h.begins
  intro x hx
  rw [List.head?_append, hc] at hx
  cases hx
  exact hblank

/-- A text that is laid out again begins with a blank. -/
theorem breaks_respaced {gaps : List (List Char)} (h : ∀ gap ∈ gaps, Separator gap)
    (pieces : List (List Char)) : Pattern.Breaks (respaced gaps pieces) := by
  cases gaps with
  | nil => exact Pattern.breaks_nil
  | cons gap gaps =>
    have hgap := h gap List.mem_cons_self
    cases pieces with
    | nil => exact List.append_nil gap ▸ hgap.breaks []
    | cons piece pieces => exact hgap.breaks _

namespace Pattern

/-- The first closing mark ends the comment. -/
theorem commentEnd?_append {body : List Char} (h : ¬ ['*', '/'] <:+: body) (rest : List Char) :
    commentEnd? (body ++ '*' :: '/' :: rest) = some (body.length + 2) := by
  induction body with
  | nil => rfl
  | cons c body ih =>
    have hbody : ¬ ['*', '/'] <:+: body :=
      fun hin => h (hin.trans (List.suffix_cons c body).isInfix)
    have hopen : ∀ r, c = '*' → body ++ '*' :: '/' :: rest = '/' :: r → False := by
      rintro r rfl heq
      cases body with
      | nil => cases heq
      | cons d body =>
        obtain ⟨rfl, -⟩ := List.cons.inj heq
        exact h ⟨[], body, rfl⟩
    rw [List.cons_append, commentEnd?, ih hbody, List.length_cons]
    · rfl
    · exact hopen

theorem first?_blanks {b : Char} {bs rest : List Char} (h : ∀ c ∈ b :: bs, isBlank c = true)
    (hend : ∀ c ∈ rest.head?, isBlank c = false) :
    first? (b :: bs ++ rest) = some (.blank, (b :: bs).length) := by
  have hchar : Pattern.isWordChar b = false := Bool.eq_false_iff.2 fun hchar => by
    have hb := isBlank_of_isWordChar hchar
    rw [h b List.mem_cons_self] at hb
    cases hb
  simp only [Pattern.isWordChar, Char.isAlphanum, Bool.or_eq_false_iff] at hchar
  obtain ⟨⟨halpha, hdigit⟩, hline⟩ := hchar
  have hstart : isWordStart b = false := Bool.or_eq_false_iff.2 ⟨halpha, hline⟩
  have hdigits : runLength? Char.isDigit (b :: bs ++ rest) = none := by
    simp [runLength?, run, hdigit]
  refine first?_of_munch? [word, float, int] _ rfl ?_ ?_
  · simp only [List.forall_mem_cons]
    refine ⟨?_, ?_, hdigits, List.forall_mem_nil _⟩
    · simp [munch?, wordLength?, hstart]
    · simp only [munch?, floatLength?, hdigits]
  · exact runLength?_append (List.cons_ne_nil _ _) h hend

theorem first?_lineComment {body : List Char} (h : '\n' ∉ body) (rest : List Char) :
    first? ('/' :: '/' :: body ++ '\n' :: rest) =
      some (.lineComment, ('/' :: '/' :: body).length) := by
  have hbody : ∀ c ∈ body, (c != '\n') = true := fun c hc => by
    rw [bne_iff_ne]
    rintro rfl
    exact h hc
  have hrun : run (· != '\n') (body ++ '\n' :: rest) = body.length + 0 := by
    rw [run_append hbody, run_eq_zero (by rintro c ⟨⟩; rfl)]
  refine first?_of_munch? [word, float, int, blank, interpolated, string] _ rfl ?_ ?_
  · simp only [List.forall_mem_cons]
    exact ⟨rfl, rfl, rfl, rfl, rfl, rfl, List.forall_mem_nil _⟩
  · simp only [List.cons_append, munch?, lineCommentLength?, hrun, List.length_cons, Nat.add_zero,
      Nat.add_comm 2]

theorem first?_blockComment {body : List Char} (h : ¬ ['*', '/'] <:+: body) (rest : List Char) :
    first? ('/' :: '*' :: (body ++ ['*', '/']) ++ rest) =
      some (.blockComment, ('/' :: '*' :: (body ++ ['*', '/'])).length) := by
  have hcs : '/' :: '*' :: (body ++ ['*', '/']) ++ rest =
      '/' :: '*' :: (body ++ '*' :: '/' :: rest) := by simp
  rw [hcs]
  refine first?_of_munch? [word, float, int, blank, interpolated, string, lineComment] _ rfl ?_ ?_
  · simp only [List.forall_mem_cons]
    exact ⟨rfl, rfl, rfl, rfl, rfl, rfl, rfl, List.forall_mem_nil _⟩
  · simp [munch?, blockCommentLength?, commentEnd?_append h]

end Pattern

/-! ### Reading over spacing -/

section

variable {file : String} {pos : Nat} {p : Pattern} {piece rest : List Char}

/-- A piece that stands for no token is passed over. -/
theorem tokensFrom_skip (hfirst : Pattern.first? (piece ++ rest) = some (p, piece.length))
    (htoken : p.token? piece = none) :
    tokensFrom file pos (piece ++ rest) = tokensFrom file (pos + byteLength piece) rest := by
  obtain ⟨c, r, hcr⟩ := List.exists_cons_of_length_pos (Pattern.first?_le_length hfirst).1
  subst hcr
  rw [List.cons_append, tokensFrom]
  split
  · next hnone => cases hfirst.symm.trans hnone
  · next q n hsome =>
    cases hfirst.symm.trans hsome
    simp only [← List.cons_append, List.take_left, List.drop_left, htoken]
    split
    · next he => rw [he]
    · next hok => rw [hok]

/-- A piece that stands for a token puts it in front of the rest. -/
theorem tokensFrom_token {kind : TokenKind} {value : String} {tokens : List Token}
    (hfirst : Pattern.first? (piece ++ rest) = some (p, piece.length))
    (htoken : p.token? piece = some (kind, value))
    (hrest : tokensFrom file (pos + byteLength piece) rest = .ok tokens) :
    tokensFrom file pos (piece ++ rest) =
      .ok (⟨kind, value, ⟨file, pos, pos + byteLength piece⟩⟩ :: tokens) := by
  obtain ⟨c, r, hcr⟩ := List.exists_cons_of_length_pos (Pattern.first?_le_length hfirst).1
  subst hcr
  rw [List.cons_append, tokensFrom]
  split
  · next hnone => cases hfirst.symm.trans hnone
  · next q n hsome =>
    cases hfirst.symm.trans hsome
    simp only [← List.cons_append, List.take_left, List.drop_left, htoken, hrest]

/-- A run of blanks is passed over at once. -/
theorem tokensFrom_blanks {bs : List Char} (h : ∀ c ∈ bs, isBlank c = true)
    (hend : ∀ c ∈ rest.head?, isBlank c = false) :
    tokensFrom file pos (bs ++ rest) = tokensFrom file (pos + byteLength bs) rest := by
  cases bs with
  | nil => rfl
  | cons b bs => exact tokensFrom_skip (Pattern.first?_blanks h hend) rfl

/-- A blank is passed over, whether or not others follow. -/
theorem tokensFrom_blank {c : Char} (hc : isBlank c = true) (cs : List Char) :
    tokensFrom file pos (c :: cs) = tokensFrom file (pos + c.utf8Size) cs := by
  obtain ⟨bs, rest, rfl, -, hblank, hend⟩ := Pattern.exists_run isBlank cs
  have hblanks : ∀ x ∈ c :: bs, isBlank x = true := List.forall_mem_cons.2 ⟨hc, hblank⟩
  rw [← List.cons_append, tokensFrom_blanks hblanks hend, tokensFrom_blanks hblank hend,
    byteLength_cons, Nat.add_assoc]

/-- **Spacing is passed over without a trace.** -/
theorem tokensFrom_spacing {gap : List Char} (h : Spacing gap) (rest : List Char) :
    tokensFrom file pos (gap ++ rest) = tokensFrom file (pos + byteLength gap) rest := by
  induction h generalizing pos with
  | nil => rfl
  | blank hc _ ih =>
    rw [List.cons_append, tokensFrom_blank hc, ih, byteLength_cons, Nat.add_assoc]
  | blockComment hbody _ ih =>
    rw [List.append_assoc, tokensFrom_skip (Pattern.first?_blockComment hbody _) rfl, ih,
      byteLength_append, Nat.add_assoc]
  | @lineComment body r hbody _ ih =>
    have hcs : '/' :: '/' :: body ++ '\n' :: r ++ rest =
        '/' :: '/' :: body ++ '\n' :: (r ++ rest) := by simp
    rw [hcs, tokensFrom_skip (Pattern.first?_lineComment hbody _) rfl, tokensFrom_blank (by decide),
      ih, byteLength_append, byteLength_cons '\n', Nat.add_assoc, Nat.add_assoc]

/-- A row of that many blanks. -/
def blanks (n : Nat) : List Char :=
  List.replicate n ' '

theorem blanks_succ (n : Nat) : blanks (n + 1) = ' ' :: blanks n := rfl

theorem blanks_add (m n : Nat) : blanks (m + n) = blanks m ++ blanks n :=
  List.replicate_add m n ' '

@[simp] theorem byteLength_blanks (n : Nat) : byteLength (blanks n) = n := by
  induction n with
  | zero => rfl
  | succ n ih =>
    have hone : ' '.utf8Size = 1 := rfl
    rw [blanks_succ, byteLength_cons, ih, hone, Nat.add_comm]

/-- Each of the bytes of a row of blanks is one. -/
theorem exists_slice_blanks {start n : Nat} (h : start < n) (cs : List Char) :
    ∃ behind, Slice (blanks n ++ cs) start (start + 1) [' '] behind := by
  obtain ⟨k, rfl⟩ := Nat.exists_eq_add_of_lt h
  refine ⟨blanks k ++ cs, blanks start, ?_, byteLength_blanks start, rfl⟩
  rw [Nat.add_assoc, blanks_add, blanks_succ, List.append_assoc]
  rfl

/-- A text behind blanks has the tokens that it has where it begins. -/
theorem tokensFrom_behind_blanks (n : Nat) (cs : List Char) :
    tokensFrom file pos (blanks n ++ cs) = tokensFrom file (pos + n) cs := by
  induction n generalizing pos with
  | zero => rfl
  | succ n ih =>
    have hone : ' '.utf8Size = 1 := rfl
    rw [blanks_succ, List.cons_append, tokensFrom_blank (by decide), ih, hone, Nat.add_assoc,
      Nat.add_comm 1]

/-- The declarations of a text are read from its tokens. -/
theorem parseSource_of_tokens {text : List Char} {tokens : List Token}
    (h : tokensFrom file 0 text = .ok tokens) (nextId : Nat) :
    (parseSource file (.ofList text) nextId).1 =
      (readItems (.ofStream ⟨file, tokens, byteLength text⟩ nextId) {}).outcome := by
  rw [parseSource, String.toList_ofList, tokenize, h]

/-- Those of a text behind blanks can be found without the blanks. -/
theorem exists_parseSource_behind_blanks {n nextId : Nat} {cs : List Char} {p : Declarations → Bool}
    (h : (tokensFrom file n cs).toOption.any (fun tokens =>
      let c := Cursor.ofStream ⟨file, tokens, n + byteLength cs⟩ nextId
      (readItems c {}).outcome.toOption.any p) = true) :
    ∃ d, (parseSource file (.ofList (blanks n ++ cs)) nextId).1 = .ok d ∧ p d = true := by
  obtain ⟨tokens, htokens, hread⟩ := (Option.any_eq_true _ _).1 h
  obtain ⟨d, hd, hp⟩ := (Option.any_eq_true _ _).1 hread
  have hfront : tokensFrom file 0 (blanks n ++ cs) = .ok tokens := by
    rw [tokensFrom_behind_blanks, Nat.zero_add, eq_ok_of_toOption htokens]
  refine ⟨d, ?_, hp⟩
  rw [parseSource_of_tokens hfront, byteLength_append, byteLength_blanks]
  exact eq_ok_of_toOption hd

end

/-! ### Tokens that are laid out again -/

/-- Texts that begin with as many bytes begin alike. -/
theorem append_inj_of_byteLength {as as' bs bs' : List Char} (h : as ++ bs = as' ++ bs')
    (hbytes : byteLength as = byteLength as') : as = as' ∧ bs = bs' := by
  induction as generalizing as' with
  | nil =>
    cases as' with
    | nil => exact ⟨rfl, h⟩
    | cons c as' =>
      have := byteLength_pos (List.cons_ne_nil c as')
      rw [byteLength_nil] at hbytes
      omega
  | cons c as ih =>
    cases as' with
    | nil =>
      have := byteLength_pos (List.cons_ne_nil c as)
      rw [byteLength_nil] at hbytes
      omega
    | cons c' as' =>
      obtain ⟨rfl, hrest⟩ := List.cons.inj h
      obtain ⟨rfl, hbs⟩ := ih hrest (Nat.add_left_cancel hbytes)
      exact ⟨rfl, hbs⟩

/-- What stands between two bytes of a text is determined. -/
theorem Slice.unique {text piece piece' behind behind' : List Char} {start stop : Nat}
    (h : Slice text start stop piece behind) (h' : Slice text start stop piece' behind') :
    piece = piece' := by
  obtain ⟨before, htext, hstart, hstop⟩ := h
  obtain ⟨before', htext', hstart', hstop'⟩ := h'
  have hbehind : piece ++ behind = piece' ++ behind' :=
    (append_inj_of_byteLength (htext.symm.trans htext') (hstart.trans hstart'.symm)).2
  exact (append_inj_of_byteLength hbehind (Nat.add_left_cancel (hstop.trans hstop'.symm))).1

/-- Tokens that are spelled out with separators around them are read as they are. -/
theorem exists_of_respaced {file : String} {tokens : List Token} {pieces : List (List Char)}
    (hpieces : List.Forall₂ (fun t piece => Spelled piece t.kind t.value) tokens pieces)
    {gaps : List (List Char)} (hlength : gaps.length = pieces.length + 1)
    (hgaps : ∀ gap ∈ gaps, Separator gap) (pos : Nat) :
    ∃ tokens', tokensFrom file pos (respaced gaps pieces) = .ok tokens' ∧
      tokens'.map Token.lexeme = tokens.map Token.lexeme := by
  induction hpieces generalizing gaps pos with
  | nil =>
    obtain ⟨gap, rfl⟩ := List.length_eq_one_iff.1 hlength
    have hgap := hgaps gap (List.mem_singleton_self gap)
    have hend := (tokensFrom_spacing hgap.spacing [] : tokensFrom file pos (gap ++ []) = _)
    refine ⟨[], ?_, rfl⟩
    rwa [List.append_nil, tokensFrom] at hend
  | @cons t piece tokens pieces hpiece hpieces ih =>
    obtain ⟨gap, gaps, rfl⟩ := List.exists_cons_of_length_eq_add_one hlength
    obtain ⟨hgap, hgaps⟩ := List.forall_mem_cons.1 hgaps
    obtain ⟨tokens', htokens, hlexemes⟩ :=
      ih (Nat.succ.inj hlength) hgaps (pos + byteLength gap + byteLength piece)
    obtain ⟨p, hfirst, htoken⟩ := hpiece.first?_append (breaks_respaced hgaps pieces)
    have hread : tokensFrom file pos (respaced (gap :: gaps) (piece :: pieces)) = _ :=
      (tokensFrom_spacing hgap.spacing _).trans (tokensFrom_token hfirst htoken htokens)
    refine ⟨_, hread, ?_⟩
    rw [List.map_cons, List.map_cons, hlexemes]
    rfl

/-- **Layout and comments never change the tokens.** The tokens of a text, each as it is written
there, make a text with the same tokens when they are put between any separators. What is written
there is told by the spans, as they are kept in a text of less than 2^32 bytes. -/
theorem tokenize_respaced (file' : String) {file : String} {text : List Char} {s : TokenStream}
    (h : tokenize file text = .ok s) {pieces : List (List Char)}
    (hpieces : List.Forall₂
      (fun t piece => ∃ behind, Slice text t.span.start t.span.stop piece behind) s.tokens pieces)
    {gaps : List (List Char)} (hlength : gaps.length = pieces.length + 1)
    (hgaps : ∀ gap ∈ gaps, Separator gap) :
    ∃ s', tokenize file' (respaced gaps pieces) = .ok s' ∧
      s'.toList.map Token.lexeme = s.toList.map Token.lexeme := by
  have hslices : ∀ t ∈ s.tokens, ∃ piece behind,
      Slice text t.span.start t.span.stop piece behind ∧ Spelled piece t.kind t.value := by
    obtain ⟨s', hs', hlossless⟩ | ⟨_, _, _, _, _, _, herror⟩ := tokenize_lossless file text
    · cases h.symm.trans hs'
      intro t ht
      obtain ⟨-, -, piece, behind, hslice, hword, -⟩ := hlossless.slices t ht
      exact ⟨piece, behind, hslice, hword⟩
    · cases h.symm.trans herror
  have hspelled : List.Forall₂ (fun t piece => Spelled piece t.kind t.value) s.tokens pieces := by
    refine ((List.forall₂_and_left _ _).2 ⟨hslices, hpieces⟩).imp ?_
    rintro t piece ⟨⟨piece', behind', hslice', hword⟩, behind, hslice⟩
    rwa [hslice.unique hslice']
  obtain ⟨tokens, htokens, hlexemes⟩ := exists_of_respaced hspelled hlength hgaps 0
  refine ⟨⟨file', tokens, byteLength (respaced gaps pieces)⟩, by rw [tokenize, htokens], ?_⟩
  simp only [TokenStream.toList, List.map_append, hlexemes]
  rfl

/-- A point and the digits around it stay three tokens when other comments come between them. -/
theorem tokenize_respaced_point :
    ∃ s s', tokenize "a" "1./**/5".toList = .ok s ∧
      tokenize "b" " 1 /*.*/. //5\n5 ".toList = .ok s' ∧
      s'.toList.map Token.lexeme = s.toList.map Token.lexeme := by
  have hrun : ((tokenize "a" "1./**/5".toList).toOption.any fun s => decide (s.tokens =
      [⟨.int, "1", ⟨"a", 0, 1⟩⟩, ⟨.dot, ".", ⟨"a", 1, 2⟩⟩, ⟨.int, "5", ⟨"a", 6, 7⟩⟩])) = true := by
    decide +kernel
  obtain ⟨s, hs, hrun⟩ := (Option.any_eq_true _ _).1 hrun
  have hs := eq_ok_of_toOption hs
  have htokens := of_decide_eq_true hrun
  have hpieces : List.Forall₂
      (fun (t : Token) piece =>
        ∃ behind, Slice "1./**/5".toList t.span.start t.span.stop piece behind)
      s.tokens [['1'], ['.'], ['5']] := by
    rw [htokens]
    refine .cons ⟨"./**/5".toList, [], rfl, rfl, rfl⟩ (.cons ⟨"/**/5".toList, ['1'], rfl, rfl, rfl⟩
      (.cons ⟨[], "1./**/".toList, rfl, rfl, rfl⟩ .nil))
  have hblank : Separator " ".toList := ⟨.blank rfl .nil, ' ', rfl, rfl⟩
  have hblock : Separator " /*.*/".toList :=
    ⟨.blank rfl (@Spacing.blockComment ['.'] [] (by decide) .nil), ' ', rfl, rfl⟩
  have hline : Separator " //5\n".toList :=
    ⟨.blank rfl (@Spacing.lineComment ['5'] [] (by decide) .nil), ' ', rfl, rfl⟩
  have hgaps : ∀ gap ∈ [" ".toList, " /*.*/".toList, " //5\n".toList, " ".toList],
      Separator gap := by
    simp only [List.forall_mem_cons]
    exact ⟨hblank, hblock, hline, hblank, List.forall_mem_nil _⟩
  obtain ⟨s', hs', hlexemes⟩ := tokenize_respaced "b" hs hpieces rfl hgaps
  exact ⟨s, s', hs, hs', hlexemes⟩

end MgLang
