import MgLang.Proofs.Layout
/-!
# Where the tokens of a text end

A text is scanned piece by piece, each taken by the first pattern that takes anything (`Scan`). The
scan goes on to the end of the text, or to a character at which no pattern takes anything. The fault
of a text without tokens is at that character (`tokenize_error_exact`).

What is cut off behind a piece does not matter for the piece (`Pattern.first?_cut`), although the
ends of strings and comments are looked for arbitrarily far ahead. A pattern takes what it takes
wherever the text ends behind that, and where it takes nothing, it takes nothing of less text
(`Pattern.Steady`). So the text in front of the fault has the tokens that were found there
(`Scan.cut`).
-/

namespace MgLang

namespace Pattern

/-! ### Texts that are cut off -/

/-- What is taken from the front of a text does not change if the text is cut off behind it, and
nothing is taken once the text is cut off where nothing was taken before. -/
structure Steady (f : List Char → Option Nat) : Prop where
  cut : ∀ {cs rest n}, f (cs ++ rest) = some n → n ≤ cs.length → f cs = some n
  none : ∀ {cs rest}, f (cs ++ rest) = none → f cs = none

section

variable {p : Char → Bool} {cs rest : List Char} {n : Nat}

/-- A run goes on into what follows only if it comes to the end. -/
theorem run_append_eq (p : Char → Bool) (cs rest : List Char) :
    run p (cs ++ rest) = if run p cs = cs.length then cs.length + run p rest else run p cs := by
  unfold run
  rw [List.takeWhile_append]
  split <;> simp

theorem run_cut (h : run p (cs ++ rest) ≤ cs.length) : run p cs = run p (cs ++ rest) := by
  rw [run_append_eq] at h ⊢
  split at h <;> split <;> omega

theorem steady_run (p : Char → Bool) : Steady fun cs => some (run p cs) where
  cut h hn := by
    cases h
    rw [run_cut hn]
  none h := by cases h

theorem steady_runLength? (p : Char → Bool) : Steady (runLength? p) where
  cut h hn := by
    unfold runLength? at h ⊢
    split at h
    · next hpos =>
      cases h
      rw [run_cut hn, if_pos hpos]
    · cases h
  none {cs rest} h := by
    unfold runLength? at h ⊢
    split at h
    · cases h
    · next hpos =>
      have hle : run p cs ≤ run p (cs ++ rest) := by
        rw [run_append_eq]
        split <;> omega
      rw [if_neg (by omega)]

/-- A front of a text that ends within `cs` is a front of `cs`. -/
theorem exists_of_append_eq {front behind : List Char} (h : cs ++ rest = front ++ behind)
    (hn : front.length ≤ cs.length) : ∃ more, cs = front ++ more ∧ behind = more ++ rest := by
  have hprefix : front <+: cs :=
    List.prefix_of_prefix_length_le ⟨behind, h.symm⟩ (List.prefix_append cs rest) hn
  obtain ⟨more, rfl⟩ := hprefix
  rw [List.append_assoc] at h
  exact ⟨more, rfl, (List.append_cancel_left h).symm⟩

theorem steady_quoteEnd? : Steady quoteEnd? where
  cut {cs rest n} h hn := by
    obtain ⟨body, behind, hcs, rfl, hbody⟩ := exists_of_quoteEnd? h
    have hcs : cs ++ rest = (body ++ ['"']) ++ behind := by simpa using hcs
    obtain ⟨more, rfl, -⟩ := exists_of_append_eq hcs (by simpa using hn)
    simpa using quoteEnd?_append hbody more
  none {cs rest} h := by
    cases hcs : quoteEnd? cs with
    | none => rfl
    | some n =>
      obtain ⟨body, behind, rfl, -, hbody⟩ := exists_of_quoteEnd? hcs
      have hmore := quoteEnd?_append hbody (behind ++ rest)
      simp [hmore] at h

theorem steady_commentEnd? : Steady commentEnd? where
  cut {cs rest n} h hn := by
    obtain ⟨body, behind, hcs, rfl, hbody⟩ := exists_of_commentEnd? h
    have hcs : cs ++ rest = (body ++ ['*', '/']) ++ behind := by simpa using hcs
    obtain ⟨more, rfl, -⟩ := exists_of_append_eq hcs (by simpa using hn)
    simpa using commentEnd?_append hbody more
  none {cs rest} h := by
    cases hcs : commentEnd? cs with
    | none => rfl
    | some n =>
      obtain ⟨body, behind, rfl, -, hbody⟩ := exists_of_commentEnd? hcs
      have hmore := commentEnd?_append hbody (behind ++ rest)
      simp [hmore] at h

/-- What is taken only behind a fixed front. -/
theorem Steady.behind {f g : List Char → Option Nat} (hf : Steady f) (front : List Char)
    (htaken : ∀ r, g (front ++ r) = (f r).map (· + front.length))
    (hfront : ∀ {cs n}, g cs = some n → front <+: cs) : Steady g where
  cut {cs rest n} h hn := by
    obtain ⟨behind, hbehind⟩ := hfront h
    rw [← hbehind, htaken] at h
    obtain ⟨k, hk, rfl⟩ := Option.map_eq_some_iff.1 h
    obtain ⟨more, rfl, rfl⟩ := exists_of_append_eq hbehind.symm (by omega)
    rw [List.length_append] at hn
    rw [htaken, hf.cut hk (by omega)]
    rfl
  none {cs rest} h := by
    cases hcs : g cs with
    | none => rfl
    | some n =>
      obtain ⟨more, rfl⟩ := hfront hcs
      rw [List.append_assoc, htaken, Option.map_eq_none_iff] at h
      rw [htaken, hf.none h] at hcs
      cases hcs

/-! ### Every pattern is steady -/

theorem steady_wordLength? : Steady wordLength? where
  cut {cs rest n} h hn := by
    cases cs with
    | nil =>
      have := (munch?_le_length (p := .word) (by decide) h).1
      simp at hn
      omega
    | cons c r =>
      rw [List.cons_append, wordLength?] at h
      rw [wordLength?]
      split at h
      · next hstart =>
        cases h
        have hle : run isWordChar (r ++ rest) ≤ r.length := by
          rw [List.length_cons] at hn
          omega
        rw [if_pos hstart, run_cut hle]
      · cases h
  none {cs rest} h := by
    cases cs with
    | nil => rfl
    | cons c r =>
      rw [List.cons_append, wordLength?] at h
      rw [wordLength?]
      split at h
      · cases h
      · next hstart => rw [if_neg hstart]

/-- A number with a point is digits, a point and the digits up to what is no digit. -/
theorem floatLength?_eq_some_iff : floatLength? cs = some n ↔
    ∃ ds r m, cs = ds ++ '.' :: r ∧ ds ≠ [] ∧ (∀ c ∈ ds, c.isDigit = true) ∧
      runLength? Char.isDigit r = some m ∧ n = ds.length + 1 + m := by
  constructor
  · intro h
    unfold floatLength? at h
    split at h
    · cases h
    · next k hk =>
      obtain ⟨ds, behind, rfl, rfl, hne, hdigits⟩ := exists_of_runLength? hk
      rw [List.drop_left] at h
      split at h
      · next r =>
        obtain ⟨m, hm, rfl⟩ := Option.map_eq_some_iff.1 h
        exact ⟨ds, r, m, rfl, hne, hdigits, hm, rfl⟩
      · cases h
  · rintro ⟨ds, r, m, rfl, hne, hdigits, hm, rfl⟩
    have hrun : runLength? Char.isDigit (ds ++ '.' :: r) = some ds.length :=
      runLength?_append hne hdigits (by rintro c ⟨⟩; rfl)
    simp [floatLength?, hrun, hm]

theorem steady_floatLength? : Steady floatLength? where
  cut {cs rest n} h hn := by
    obtain ⟨ds, r, m, hcs, hne, hdigits, hm, rfl⟩ := floatLength?_eq_some_iff.1 h
    have hcs : cs ++ rest = (ds ++ ['.']) ++ r := by simpa using hcs
    obtain ⟨more, rfl, rfl⟩ := exists_of_append_eq hcs (by simp; omega)
    have hmore := (steady_runLength? Char.isDigit).cut hm (by simp at hn; omega)
    exact floatLength?_eq_some_iff.2 ⟨ds, more, m, by simp, hne, hdigits, hmore, rfl⟩
  none {cs rest} h := by
    cases hcs : floatLength? cs with
    | none => rfl
    | some n =>
      obtain ⟨ds, r, m, rfl, hne, hdigits, hm, -⟩ := floatLength?_eq_some_iff.1 hcs
      cases hm' : runLength? Char.isDigit (r ++ rest) with
      | none =>
        rw [(steady_runLength? Char.isDigit).none hm'] at hm
        cases hm
      | some k =>
        have hcs : ds ++ '.' :: r ++ rest = ds ++ '.' :: (r ++ rest) := by simp
        have hsome := floatLength?_eq_some_iff.2 ⟨ds, r ++ rest, k, hcs, hne, hdigits, hm', rfl⟩
        rw [h] at hsome
        cases hsome

theorem steady_munch? (p : Pattern) : Steady p.munch? := by
  cases p with
  | word => exact steady_wordLength?
  | float => exact steady_floatLength?
  | int => exact steady_runLength? Char.isDigit
  | blank => exact steady_runLength? isBlank
  | interpolated =>
    refine steady_quoteEnd?.behind ['$', '"'] (fun _ => rfl) fun h => ?_
    simp only [munch?, interpolatedLength?] at h
    split at h
    · exact ⟨_, rfl⟩
    · cases h
  | string =>
    refine steady_quoteEnd?.behind ['"'] (fun _ => rfl) fun h => ?_
    simp only [munch?, stringLength?] at h
    split at h
    · exact ⟨_, rfl⟩
    · cases h
  | lineComment =>
    refine (steady_run (· != '\n')).behind ['/', '/'] (fun r => ?_) fun h => ?_
    · simp [munch?, lineCommentLength?, Nat.add_comm]
    · simp only [munch?, lineCommentLength?] at h
      split at h
      · exact ⟨_, rfl⟩
      · cases h
  | blockComment =>
    refine steady_commentEnd?.behind ['/', '*'] (fun _ => rfl) fun h => ?_
    simp only [munch?, blockCommentLength?] at h
    split at h
    · exact ⟨_, rfl⟩
    · cases h
  | mark kind text =>
    have hnothing : Steady fun _ => some 0 := ⟨fun h _ => h, fun h => h⟩
    refine hnothing.behind text (fun r => ?_) fun h => ?_
    · simp [munch?]
    · simp only [munch?] at h
      split at h
      · next hfront => exact List.isPrefixOf_iff_prefix.1 hfront
      · cases h

theorem first?_eq_none_iff : first? cs = none ↔ ∀ p ∈ all, p.munch? cs = none := by
  simp [first?, List.findSome?_eq_none_iff]

/-- **The first pattern takes the same piece wherever the text is cut off behind it.** -/
theorem first?_cut {q : Pattern} (h : first? (cs ++ rest) = some (q, n)) (hn : n ≤ cs.length) :
    first? cs = some (q, n) := by
  obtain ⟨before, q', behind, hall, hq, hbefore⟩ := List.findSome?_eq_some_iff.1 h
  obtain ⟨m, hm, he⟩ := Option.map_eq_some_iff.1 hq
  cases he
  refine first?_of_munch? before behind hall (fun x hx => ?_) (q.steady_munch?.cut hm hn)
  exact x.steady_munch?.none (Option.map_eq_none_iff.1 (hbefore x hx))

end

end Pattern

/-! ### Scans -/

/-- Pieces of a text, each with the pattern that took it. -/
abbrev Pieces := List (Pattern × List Char)

/-- The characters of pieces. -/
def Pieces.text (ps : Pieces) : List Char :=
  ps.flatMap (·.2)

/-- The token that a piece at byte `pos` stands for, if any. -/
def Pattern.tokenAt? (p : Pattern) (file : String) (pos : Nat) (piece : List Char) :
    Option Token :=
  (p.token? piece).map fun t => ⟨t.1, t.2, ⟨file, pos, pos + byteLength piece⟩⟩

/-- The tokens that pieces stand for, the first piece beginning at byte `pos`. -/
def Pieces.tokens (file : String) (pos : Nat) : Pieces → List Token
  | [] => []
  | (p, piece) :: ps =>
    (p.tokenAt? file pos piece).toList ++ Pieces.tokens file (pos + byteLength piece) ps

/-- A text is taken apart from the front, each piece by the first pattern that takes anything, until
`behind` is left. -/
inductive Scan (behind : List Char) : List Char → Pieces → Prop
  | here : Scan behind behind []
  | piece {p : Pattern} {piece rest : List Char} {ps : Pieces}
    (hfirst : Pattern.first? (piece ++ rest) = some (p, piece.length))
    (hrest : Scan behind rest ps) : Scan behind (piece ++ rest) ((p, piece) :: ps)

/-- A piece puts the token that it stands for, if any, in front of the others. -/
theorem tokensFrom_piece {file : String} {pos : Nat} {p : Pattern} {piece rest : List Char}
    (hfirst : Pattern.first? (piece ++ rest) = some (p, piece.length)) :
    tokensFrom file pos (piece ++ rest) =
      (tokensFrom file (pos + byteLength piece) rest).map
        ((p.tokenAt? file pos piece).toList ++ ·) := by
  cases hrest : tokensFrom file (pos + byteLength piece) rest with
  | ok tokens =>
    cases htoken : p.token? piece with
    | none =>
      rw [tokensFrom_skip hfirst htoken, hrest]
      simp [Pattern.tokenAt?, htoken, Except.map]
    | some t =>
      rw [tokensFrom_token hfirst htoken hrest]
      simp [Pattern.tokenAt?, htoken, Except.map]
  | error d =>
    obtain ⟨c, r, rfl⟩ := List.exists_cons_of_length_pos (Pattern.first?_le_length hfirst).1
    rw [List.cons_append, tokensFrom]
    split
    · next hnone => cases hfirst.symm.trans hnone
    · next q n hsome =>
      cases hfirst.symm.trans hsome
      simp only [← List.cons_append, List.take_left, List.drop_left, hrest]
      rfl

/-- Where no pattern takes anything, the first character is the fault. -/
theorem tokensFrom_of_first?_eq_none {file : String} {pos : Nat} {c : Char} {cs : List Char}
    (h : Pattern.first? (c :: cs) = none) : tokensFrom file pos (c :: cs) =
      .error ⟨.unrecognisedToken (.singleton c), ⟨file, pos, pos + c.utf8Size⟩⟩ := by
  rw [tokensFrom]
  split
  · rfl
  · next hsome => cases h.symm.trans hsome

namespace Scan

variable {file : String} {text behind : List Char} {ps : Pieces} {pos : Nat}

/-- Nothing is lost in between. -/
theorem text_eq (h : Scan behind text ps) : text = ps.text ++ behind := by
  induction h with
  | here => rfl
  | piece _ _ ih => simp [ih, Pieces.text]

/-- What was scanned is scanned alike where it stands alone. -/
theorem cut (h : Scan behind text ps) : Scan [] ps.text ps := by
  induction h with
  | here => exact .here
  | @piece p piece rest ps hfirst hrest ih =>
    rw [hrest.text_eq, ← List.append_assoc] at hfirst
    exact .piece (Pattern.first?_cut hfirst (by simp)) ih

/-- Every text is scanned to a place where no pattern takes anything. -/
theorem exists_stop (text : List Char) :
    ∃ behind ps, Scan behind text ps ∧ Pattern.first? behind = none := by
  induction hn : text.length using Nat.strongRecOn generalizing text with
  | ind n ih =>
    cases hf : Pattern.first? text with
    | none => exact ⟨text, [], .here, hf⟩
    | some q =>
      obtain ⟨p, k⟩ := q
      obtain ⟨hpos, hle⟩ := Pattern.first?_le_length hf
      obtain ⟨behind, ps, hscan, hstop⟩ := ih _ (by simp; omega) (text.drop k) rfl
      have htake : (text.take k).length = k := by simp; omega
      refine ⟨behind, (p, text.take k) :: ps, ?_, hstop⟩
      have hfirst : Pattern.first? (text.take k ++ text.drop k) =
          some (p, (text.take k).length) := by
        rwa [List.take_append_drop, htake]
      have hpiece := Scan.piece hfirst hscan
      rwa [List.take_append_drop] at hpiece

/-- The tokens of a text are those of the pieces that were scanned and those of what is left. -/
theorem tokensFrom_eq (h : Scan behind text ps) :
    tokensFrom file pos text =
      (tokensFrom file (pos + byteLength ps.text) behind).map (ps.tokens file pos ++ ·) := by
  induction h generalizing pos with
  | here =>
    simp only [Pieces.text, Pieces.tokens, List.flatMap_nil, byteLength_nil, Nat.add_zero]
    cases tokensFrom file pos behind <;> rfl
  | @piece p piece rest ps hfirst hrest ih =>
    have hbytes : pos + byteLength (Pieces.text ((p, piece) :: ps)) =
        pos + byteLength piece + byteLength ps.text := by
      simp [Pieces.text, Nat.add_assoc]
    rw [tokensFrom_piece hfirst, ih, hbytes]
    cases tokensFrom file (pos + byteLength piece + byteLength ps.text) behind with
    | error d => rfl
    | ok tokens => simp [Except.map, Pieces.tokens]

/-- A text that is scanned to its end has the tokens of its pieces. -/
theorem tokenize_eq_ok (h : Scan [] text ps) :
    tokenize file text = .ok ⟨file, ps.tokens file 0, byteLength text⟩ := by
  rw [tokenize, h.tokensFrom_eq, tokensFrom]
  simp [Except.map]

/-- A text is reported where its scan comes to a character at which no pattern takes anything. -/
theorem tokenize_eq_error {c : Char} (h : Scan (c :: behind) text ps)
    (hstop : Pattern.first? (c :: behind) = none) :
    tokenize file text = .error ⟨.unrecognisedToken (.singleton c),
      ⟨file, byteLength ps.text, byteLength ps.text + c.utf8Size⟩⟩ := by
  rw [tokenize, h.tokensFrom_eq, tokensFrom_of_first?_eq_none hstop, Nat.zero_add]
  rfl

end Scan

/-- **A fault of the lexer is exact.** If a text of less than 2^32 bytes has no tokens, then the
fault is a character of it at which no pattern takes anything, and its place is kept as it is: the
scan comes to that character, and the text in front of it has the tokens of the pieces that were
scanned on the way. Whenever a scan comes to such a character, the text has no tokens. -/
theorem tokenize_error_exact (file : String) {text : List Char}
    (hsize : byteLength text < UInt32.size) :
    (∀ d, tokenize file text = .error d →
      ∃ before c behind ps, text = before ++ c :: behind ∧
        (Scan (c :: behind) text ps ∧ ps.text = before) ∧
        (∀ p ∈ Pattern.all, p.munch? (c :: behind) = none) ∧
        (d.cause = .unrecognisedToken (.singleton c) ∧ d.span.stored =
          ⟨file, byteLength before, byteLength before + c.utf8Size⟩) ∧
        (Scan [] before ps ∧
          tokenize file before = .ok ⟨file, ps.tokens file 0, byteLength before⟩)) ∧
      ∀ c behind ps, Scan (c :: behind) text ps →
        (∀ p ∈ Pattern.all, p.munch? (c :: behind) = none) →
        ∃ d, tokenize file text = .error d ∧ d.cause = .unrecognisedToken (.singleton c) ∧
          d.span.stored = ⟨file, byteLength ps.text, byteLength ps.text + c.utf8Size⟩ := by
  have hstored {behind : List Char} {c : Char} {ps : Pieces} (hscan : Scan (c :: behind) text ps) :
      Span.stored ⟨file, byteLength ps.text, byteLength ps.text + c.utf8Size⟩ =
        ⟨file, byteLength ps.text, byteLength ps.text + c.utf8Size⟩ := by
    have hbytes := congrArg byteLength hscan.text_eq
    rw [byteLength_append, byteLength_cons] at hbytes
    exact Span.stored_eq_self (by dsimp only; omega) (by dsimp only; omega)
  refine ⟨fun d hd => ?_, fun c behind ps hscan hnone => ?_⟩
  · obtain ⟨behind, ps, hscan, hstop⟩ := Scan.exists_stop text
    cases behind with
    | nil =>
      rw [hscan.tokenize_eq_ok] at hd
      cases hd
    | cons c behind =>
      rw [hscan.tokenize_eq_error hstop] at hd
      cases hd
      exact ⟨ps.text, c, behind, ps, hscan.text_eq, ⟨hscan, rfl⟩,
        Pattern.first?_eq_none_iff.1 hstop, ⟨rfl, hstored hscan⟩, hscan.cut,
        hscan.cut.tokenize_eq_ok⟩
  · exact ⟨_, hscan.tokenize_eq_error (Pattern.first?_eq_none_iff.2 hnone), rfl, hstored hscan⟩

/-- Neither the comment nor the string is closed. So the comment is a slash and a star, and the
quote is the fault; cut off in front of it, the text has tokens. -/
theorem tokenize_error_exact_unclosed :
    byteLength "1/* \"2".toList < UInt32.size ∧
      ∃ d, tokenize "a" "1/* \"2".toList = .error d ∧ d.cause = .unrecognisedToken "\"" ∧
        d.span.stored = ⟨"a", 4, 5⟩ ∧ ∃ s, tokenize "a" "1/* ".toList = .ok s ∧ s.stop = 4 := by
  have hsize : byteLength "1/* \"2".toList < UInt32.size := by decide
  have hblank := @Scan.piece ['"', '2'] .blank [' '] _ _ (by decide) .here
  have hstar := @Scan.piece _ (.mark .star ['*']) ['*'] _ _ (by decide) hblank
  have hslash := @Scan.piece _ (.mark .slash ['/']) ['/'] _ _ (by decide) hstar
  have hscan := @Scan.piece _ .int ['1'] _ _ (by decide) hslash
  obtain ⟨hexact, hfails⟩ := tokenize_error_exact "a" hsize
  obtain ⟨d, hd, hcause, hspan⟩ := hfails _ _ _ hscan (by decide)
  refine ⟨hsize, d, hd, hcause, hspan, ?_⟩
  obtain ⟨before, c, behind, ps', htext, -, -, ⟨-, hspan'⟩, -, hok⟩ := hexact _ hd
  have hbytes : byteLength "1/* ".toList = byteLength before :=
    congrArg Span.start (hspan.symm.trans hspan')
  have hfront : "1/* ".toList ++ ['"', '2'] = before ++ c :: behind := htext
  obtain ⟨rfl, -⟩ := append_inj_of_byteLength hfront hbytes
  exact ⟨_, hok, rfl⟩

/-- Behind 2^32 blanks the place of a fault is that of the first of them. -/
theorem tokenize_error_behind_blanks :
    ∃ d, tokenize "a" (blanks UInt32.size ++ ['#']) = .error d ∧
      d.cause = .unrecognisedToken "#" ∧ d.span.stored = ⟨"a", 0, 1⟩ ∧
      ¬ ∃ before c behind, blanks UInt32.size ++ ['#'] = before ++ c :: behind ∧
        d.cause = .unrecognisedToken (.singleton c) ∧
        d.span.stored = ⟨"a", byteLength before, byteLength before + c.utf8Size⟩ := by
  have hfault : tokenize "a" (blanks UInt32.size ++ ['#']) =
      .error ⟨.unrecognisedToken "#", ⟨"a", UInt32.size, UInt32.size + 1⟩⟩ := by
    have hnone : Pattern.first? ['#'] = none := by decide
    rw [tokenize, tokensFrom_behind_blanks, Nat.zero_add, tokensFrom_of_first?_eq_none hnone]
    rfl
  refine ⟨_, hfault, rfl, rfl, ?_⟩
  rintro ⟨before, c, behind, htext, hcause, hspan⟩
  have hbytes : byteLength [] = byteLength before := congrArg Span.start hspan
  -- The place is that of a blank.
  have hfirst : [] ++ ' ' :: (blanks (UInt32.size - 1) ++ ['#']) = before ++ c :: behind := htext
  obtain ⟨-, hbehind⟩ := append_inj_of_byteLength hfirst hbytes
  obtain ⟨rfl, -⟩ := List.cons.inj hbehind
  exact absurd hcause (by decide)

end MgLang
