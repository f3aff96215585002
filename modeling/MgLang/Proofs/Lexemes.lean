import MgLang.Token.Lexer
/-!
# What tokens and gaps look like

`Spelled` says which texts are tokens and of which kind and value, and `Filler` which texts may
stand between tokens, both without a word about how a text is cut. Every pattern takes one or the
other (`Pattern.fits_of_munch?`). A token that stands alone is cut as one piece (`Spelled.first?`),
so its text determines its kind and its value (`Spelled.unique`).
-/

namespace MgLang

/-! ### The rules -/

/-- The text can stand between quotes: a quote needs a backslash before it, and a backslash takes
along the next character, which is no newline. -/
inductive Quotable : List Char → Prop
  | nil : Quotable []
  | char {c : Char} {r : List Char} (hquote : c ≠ '"') (hslash : c ≠ '\\') (h : Quotable r) :
    Quotable (c :: r)
  | escape {c : Char} {r : List Char} (hline : c ≠ '\n') (h : Quotable r) :
    Quotable ('\\' :: c :: r)

/-- The kind of a word: a word that is not reserved is an identifier. -/
def TokenKind.OfWord (word : String) (kind : TokenKind) : Prop :=
  (word, kind) ∈ keywords ∨ kind = .identifier ∧ ∀ k, (word, k) ∉ keywords

/-- The text is a token of that kind and value. -/
inductive Spelled : List Char → TokenKind → String → Prop
  | word {c : Char} {r : List Char} {kind : TokenKind} (hstart : Pattern.isWordStart c = true)
    (hrest : ∀ x ∈ r, Pattern.isWordChar x = true)
    (hkind : TokenKind.OfWord (.ofList (c :: r)) kind) : Spelled (c :: r) kind (.ofList (c :: r))
  | int {ds : List Char} (hne : ds ≠ []) (hdigits : ∀ c ∈ ds, c.isDigit = true) :
    Spelled ds .int (.ofList ds)
  | float {ds es : List Char} (hne : ds ≠ []) (hdigits : ∀ c ∈ ds, c.isDigit = true)
    (hne' : es ≠ []) (hdigits' : ∀ c ∈ es, c.isDigit = true) :
    Spelled (ds ++ '.' :: es) .float (.ofList (ds ++ '.' :: es))
  | string {body : List Char} (h : Quotable body) :
    Spelled ('"' :: (body ++ ['"'])) .string (.ofList (unescape body))
  | interpolated {body : List Char} (h : Quotable body) :
    Spelled ('$' :: '"' :: (body ++ ['"'])) .interpolated (.ofList body)
  | mark {kind : TokenKind} {text : List Char} (h : .mark kind text ∈ Pattern.all) :
    Spelled text kind (.ofList text)

/-- The text separates tokens: blanks, the rest of a line or a closed comment. -/
inductive Filler (behind : List Char) : List Char → Prop
  | blanks {cs : List Char} (hne : cs ≠ []) (h : ∀ c ∈ cs, isBlank c = true) : Filler behind cs
  | lineComment {body : List Char} (h : '\n' ∉ body) (hend : ∀ c ∈ behind.head?, c = '\n') :
    Filler behind ('/' :: '/' :: body)
  | blockComment {body : List Char} (h : ¬ ['*', '/'] <:+: body) :
    Filler behind ('/' :: '*' :: (body ++ ['*', '/']))

namespace TokenKind

theorem ofWord_eq_of_mem : ∀ e ∈ keywords, ofWord e.1 = e.2 := by
  decide

theorem ofWord_of_not_mem {word : String} (h : ∀ k, (word, k) ∉ keywords) :
    ofWord word = .identifier := by
  unfold ofWord
  cases hl : keywords.lookup word with
  | none => rfl
  | some k =>
    obtain ⟨before, behind, he, -⟩ := List.lookup_eq_some_iff.1 hl
    exact absurd (by simp [he]) (h k)

theorem ofWord_iff {word : String} {kind : TokenKind} : OfWord word kind ↔ kind = ofWord word := by
  constructor
  · rintro (h | ⟨rfl, h⟩)
    · exact (ofWord_eq_of_mem _ h).symm
    · exact (ofWord_of_not_mem h).symm
  · rintro rfl
    by_cases h : ∃ k, (word, k) ∈ keywords
    · obtain ⟨k, hk⟩ := h
      have he : ofWord word = k := ofWord_eq_of_mem _ hk
      exact .inl (he ▸ hk)
    · have h' : ∀ k, (word, k) ∉ keywords := fun k hk => h ⟨k, hk⟩
      exact .inr ⟨ofWord_of_not_mem h', h'⟩

end TokenKind

namespace Pattern

/-! ### Runs, quotes and comments -/

section

variable {p : Char → Bool} {as bs cs : List Char} {n : Nat}

theorem run_append (h : ∀ c ∈ as, p c = true) : run p (as ++ bs) = as.length + run p bs := by
  rw [run, List.takeWhile_append_of_pos h, List.length_append]
  rfl

theorem run_eq_zero (h : ∀ c ∈ cs.head?, p c = false) : run p cs = 0 := by
  cases cs with
  | nil => rfl
  | cons c r => simp [run, h c rfl]

/-- A run ends where the property does. -/
theorem exists_run (p : Char → Bool) (cs : List Char) :
    ∃ as behind, cs = as ++ behind ∧ run p cs = as.length ∧ (∀ c ∈ as, p c = true) ∧
      ∀ c ∈ behind.head?, p c = false := by
  induction cs with
  | nil => exact ⟨[], [], rfl, rfl, List.forall_mem_nil _, nofun⟩
  | cons c r ih =>
    cases hp : p c with
    | true =>
      obtain ⟨as, behind, rfl, hrun, has, hend⟩ := ih
      have has' : ∀ x ∈ c :: as, p x = true := List.forall_mem_cons.2 ⟨hp, has⟩
      refine ⟨c :: as, behind, rfl, ?_, has', hend⟩
      rw [← List.cons_append, run_append has', run_eq_zero hend]
      rfl
    | false =>
      have hend : ∀ x ∈ (c :: r).head?, p x = false := by simp [hp]
      exact ⟨[], c :: r, rfl, run_eq_zero hend, List.forall_mem_nil _, hend⟩

theorem runLength?_append (hne : as ≠ []) (h : ∀ c ∈ as, p c = true)
    (hend : ∀ c ∈ bs.head?, p c = false) : runLength? p (as ++ bs) = some as.length := by
  have hpos := List.length_pos_iff.2 hne
  rw [runLength?, run_append h, run_eq_zero hend, Nat.add_zero, if_pos hpos]

theorem exists_of_runLength? (h : runLength? p cs = some n) :
    ∃ as behind, cs = as ++ behind ∧ n = as.length ∧ as ≠ [] ∧ ∀ c ∈ as, p c = true := by
  obtain ⟨as, behind, hcs, hrun, has, -⟩ := exists_run p cs
  unfold runLength? at h
  split at h
  · next hpos =>
    refine ⟨as, behind, hcs, (Option.some.inj h).symm.trans hrun, ?_, has⟩
    exact List.length_pos_iff.1 (hrun ▸ hpos)
  · cases h

/-- The closing quote is the first that no backslash takes along. -/
theorem exists_of_quoteEnd? (h : quoteEnd? cs = some n) :
    ∃ body behind, cs = body ++ '"' :: behind ∧ n = body.length + 1 ∧ Quotable body := by
  fun_induction quoteEnd? cs generalizing n with
  | case1 => cases h
  | case2 r =>
    cases h
    exact ⟨[], r, rfl, rfl, .nil⟩
  | case3 => cases h
  | case4 => cases h
  | case5 c r hline ih =>
    obtain ⟨k, hk, rfl⟩ := Option.map_eq_some_iff.1 h
    obtain ⟨body, behind, rfl, rfl, hbody⟩ := ih hk
    exact ⟨'\\' :: c :: body, behind, rfl, rfl, .escape hline hbody⟩
  | case6 c r hquote hlast hslash ih =>
    obtain ⟨k, hk, rfl⟩ := Option.map_eq_some_iff.1 h
    obtain ⟨body, behind, rfl, rfl, hbody⟩ := ih hk
    refine ⟨c :: body, behind, rfl, rfl, .char hquote ?_ hbody⟩
    rintro rfl
    obtain ⟨d, ds, hd⟩ := List.exists_cons_of_ne_nil (l := body ++ '"' :: behind) (by simp)
    exact hslash d ds rfl hd

theorem quoteEnd?_append {body : List Char} (h : Quotable body) (behind : List Char) :
    quoteEnd? (body ++ '"' :: behind) = some (body.length + 1) := by
  induction h with
  | nil => rfl
  | char _ hslash _ ih => simp [quoteEnd?, hslash, ih]
  | escape hline _ ih => simp [quoteEnd?, hline, ih]

/-- The closing mark is the first one. -/
theorem exists_of_commentEnd? (h : commentEnd? cs = some n) :
    ∃ body behind, cs = body ++ '*' :: '/' :: behind ∧ n = body.length + 2 ∧
      ¬ ['*', '/'] <:+: body := by
  fun_induction commentEnd? cs generalizing n with
  | case1 r =>
    cases h
    exact ⟨[], r, rfl, rfl, by simp⟩
  | case2 c r hclose ih =>
    obtain ⟨k, hk, rfl⟩ := Option.map_eq_some_iff.1 h
    obtain ⟨body, behind, rfl, rfl, hbody⟩ := ih hk
    refine ⟨c :: body, behind, rfl, rfl, fun hin => ?_⟩
    rcases List.infix_cons_iff.1 hin with ⟨more, hpre⟩ | hin
    · obtain ⟨rfl, hrest⟩ := List.cons.inj hpre
      refine hclose (more ++ '*' :: '/' :: behind) rfl ?_
      rw [← hrest]
      rfl
    · exact hbody hin
  | case3 => cases h

end

/-! ### What a pattern takes -/

/-- What a pattern takes is the token that it makes of it, or separates tokens. -/
def Fits (p : Pattern) (piece behind : List Char) : Prop :=
  match p.token? piece with
  | some (kind, value) => Spelled piece kind value
  | none => Filler behind piece

theorem fits_of_munch? {p : Pattern} {cs : List Char} {n : Nat} (hp : p ∈ all)
    (h : p.munch? cs = some n) :
    ∃ piece behind, cs = piece ++ behind ∧ n = piece.length ∧ p.Fits piece behind := by
  cases p with
  | word =>
    cases cs with
    | nil => cases h
    | cons c r =>
      simp only [munch?, wordLength?] at h
      split at h
      · next hstart =>
        obtain ⟨as, behind, rfl, hrun, has, -⟩ := exists_run isWordChar r
        rw [hrun, Option.some.injEq, Nat.add_comm] at h
        refine ⟨c :: as, behind, rfl, h.symm, ?_⟩
        exact .word hstart has (TokenKind.ofWord_iff.2 rfl)
      · cases h
  | float =>
    simp only [munch?, floatLength?] at h
    split at h
    · cases h
    · next m hm =>
      obtain ⟨ds, rest, rfl, rfl, hne, hdigits⟩ := exists_of_runLength? hm
      rw [List.drop_left] at h
      split at h
      · next r =>
        obtain ⟨k, hk, rfl⟩ := Option.map_eq_some_iff.1 h
        obtain ⟨es, behind, rfl, rfl, hne', hdigits'⟩ := exists_of_runLength? hk
        refine ⟨ds ++ '.' :: es, behind, by simp, ?_, .float hne hdigits hne' hdigits'⟩
        rw [List.length_append, List.length_cons]
        omega
      · cases h
  | int =>
    obtain ⟨ds, behind, rfl, rfl, hne, hdigits⟩ := exists_of_runLength? h
    exact ⟨ds, behind, rfl, rfl, .int hne hdigits⟩
  | blank =>
    obtain ⟨bs, behind, rfl, rfl, hne, hblank⟩ := exists_of_runLength? h
    exact ⟨bs, behind, rfl, rfl, .blanks hne hblank⟩
  | interpolated =>
    simp only [munch?, interpolatedLength?] at h
    split at h
    · obtain ⟨k, hk, rfl⟩ := Option.map_eq_some_iff.1 h
      obtain ⟨body, behind, rfl, rfl, hbody⟩ := exists_of_quoteEnd? hk
      refine ⟨'$' :: '"' :: (body ++ ['"']), behind, by simp, by simp, ?_⟩
      have hvalue : (('$' :: '"' :: (body ++ ['"'])).drop 2).dropLast = body := by simp
      show Spelled _ .interpolated (.ofList _)
      rw [hvalue]
      exact .interpolated hbody
    · cases h
  | string =>
    simp only [munch?, stringLength?] at h
    split at h
    · obtain ⟨k, hk, rfl⟩ := Option.map_eq_some_iff.1 h
      obtain ⟨body, behind, rfl, rfl, hbody⟩ := exists_of_quoteEnd? hk
      refine ⟨'"' :: (body ++ ['"']), behind, by simp, by simp, ?_⟩
      have hvalue : (('"' :: (body ++ ['"'])).drop 1).dropLast = body := by simp
      show Spelled _ .string (.ofList (unescape _))
      rw [hvalue]
      exact .string hbody
    · cases h
  | lineComment =>
    simp only [munch?, lineCommentLength?] at h
    split at h
    · next r =>
      obtain ⟨body, behind, rfl, hrun, hbody, hend⟩ := exists_run (· != '\n') r
      rw [hrun, Option.some.injEq] at h
      refine ⟨'/' :: '/' :: body, behind, rfl, h.symm.trans (Nat.add_comm 2 _), ?_⟩
      refine Filler.lineComment (fun hmem => ?_) fun c hc => by simpa using hend c hc
      simpa using hbody _ hmem
    · cases h
  | blockComment =>
    simp only [munch?, blockCommentLength?] at h
    split at h
    · obtain ⟨k, hk, rfl⟩ := Option.map_eq_some_iff.1 h
      obtain ⟨body, behind, rfl, rfl, hbody⟩ := exists_of_commentEnd? hk
      exact ⟨'/' :: '*' :: (body ++ ['*', '/']), behind, by simp, by simp, .blockComment hbody⟩
    · cases h
  | mark kind text =>
    simp only [munch?] at h
    split at h
    · next hpre =>
      obtain ⟨behind, rfl⟩ := List.isPrefixOf_iff_prefix.1 hpre
      exact ⟨text, behind, rfl, (Option.some.inj h).symm, .mark hp⟩
    · cases h

/-- The piece that the first pattern takes is a token or separates tokens. -/
theorem fits_of_first? {cs : List Char} {p : Pattern} {n : Nat} (h : first? cs = some (p, n)) :
    p.Fits (cs.take n) (cs.drop n) := by
  obtain ⟨q, hq, hn⟩ := List.exists_of_findSome?_eq_some h
  obtain ⟨m, hm, he⟩ := Option.map_eq_some_iff.1 hn
  cases he
  obtain ⟨piece, behind, rfl, rfl, hfits⟩ := fits_of_munch? hq hm
  rwa [List.take_left, List.drop_left]

section

variable {p : Pattern} {piece behind : List Char}

theorem Fits.filler (h : p.Fits piece behind) (ht : p.token? piece = none) :
    Filler behind piece := by
  rwa [Fits, ht] at h

theorem Fits.spelled (h : p.Fits piece behind) {kind : TokenKind} {value : String}
    (ht : p.token? piece = some (kind, value)) : Spelled piece kind value := by
  rwa [Fits, ht] at h

end

/-! ### Tokens at the front of a text -/

/-- The first pattern that takes anything is one behind those that take nothing. -/
theorem first?_of_munch? {p : Pattern} {cs : List Char} {n : Nat} (before behind : List Pattern)
    (hall : all = before ++ p :: behind) (hbefore : ∀ q ∈ before, q.munch? cs = none)
    (hp : p.munch? cs = some n) : first? cs = some (p, n) := by
  have hnone : (before.findSome? fun q => (q.munch? cs).map fun n => (q, n)) = none := by
    refine List.findSome?_eq_none_iff.2 fun q hq => ?_
    rw [hbefore q hq, Option.map_none]
  rw [first?, hall, List.findSome?_append, hnone, Option.none_or, List.findSome?_cons, hp]
  rfl

theorem isWordStart_of_isDigit {c : Char} (h : c.isDigit = true) : isWordStart c = false := by
  have hval : '0'.val ≤ c.val ∧ c.val ≤ '9'.val := by simpa [Char.isDigit] using h
  have hupper : ¬ (c.val ≥ 'A'.val ∧ c.val ≤ 'Z'.val) := by grind
  have hlower : ¬ c.val ≥ 'a'.val := by grind
  have halpha : c.isAlpha = false :=
    Bool.or_eq_false_iff.2
      ⟨decide_eq_false hupper, Bool.and_eq_false_iff.2 (.inl (decide_eq_false hlower))⟩
  have hne : c ≠ '_' := by
    rintro rfl
    cases h
  rw [isWordStart, halpha, Bool.false_or, beq_eq_false_iff_ne]
  exact hne

/-- A number does not begin as a word does. -/
theorem wordLength?_digits {ds : List Char} (hne : ds ≠ []) (hdigits : ∀ c ∈ ds, c.isDigit = true)
    (cs : List Char) : wordLength? (ds ++ cs) = none := by
  obtain ⟨d, es, rfl⟩ := List.exists_cons_of_ne_nil hne
  have hd := isWordStart_of_isDigit (hdigits d List.mem_cons_self)
  rw [List.cons_append, wordLength?, hd]
  rfl

/-- No word goes on with a blank. -/
theorem isBlank_of_isWordChar {c : Char} (h : isWordChar c = true) : isBlank c = false := by
  have hupper (h : c.isUpper = true) : 65 ≤ c.toNat ∧ c.toNat ≤ 90 := of_decide_eq_true h
  have hlower (h : c.isLower = true) : 97 ≤ c.toNat ∧ c.toNat ≤ 122 :=
    (Bool.and_eq_true_iff.1 h).imp of_decide_eq_true of_decide_eq_true
  have hdigit (h : c.isDigit = true) : 48 ≤ c.toNat ∧ c.toNat ≤ 57 :=
    (Bool.and_eq_true_iff.1 h).imp of_decide_eq_true of_decide_eq_true
  have hrange : (48 ≤ c.toNat ∧ c.toNat ≤ 57) ∨ (65 ≤ c.toNat ∧ c.toNat ≤ 90) ∨
      (97 ≤ c.toNat ∧ c.toNat ≤ 122) ∨ c.toNat = 95 := by
    obtain h | h := Bool.or_eq_true_iff.1 h
    · obtain h | h := Bool.or_eq_true_iff.1 h
      · obtain h | h := Bool.or_eq_true_iff.1 h
        · exact .inr (.inl (hupper h))
        · exact .inr (.inr (.inl (hlower h)))
      · exact .inl (hdigit h)
    · exact .inr (.inr (.inr (congrArg Char.toNat (eq_of_beq h))))
  simp only [isBlank, blankRanges, List.any_cons, List.any_nil, Bool.or_false,
    Bool.or_eq_false_iff, Bool.and_eq_false_iff, decide_eq_false_iff_not]
  omega

/-- The text is over or goes on with a blank. -/
def Breaks (cs : List Char) : Prop :=
  ∀ c ∈ cs.head?, isBlank c = true

section

variable {ds es body behind : List Char}

theorem breaks_nil : Breaks [] :=
  nofun

theorem Breaks.isWordChar (h : Breaks behind) : ∀ c ∈ behind.head?, isWordChar c = false := by
  intro c hc
  refine Bool.eq_false_iff.2 fun hword => ?_
  have hblank := isBlank_of_isWordChar hword
  rw [h c hc] at hblank
  cases hblank

theorem Breaks.isDigit (h : Breaks behind) : ∀ c ∈ behind.head?, c.isDigit = false := by
  intro c hc
  have hword := h.isWordChar c hc
  simp only [Pattern.isWordChar, Char.isAlphanum, Bool.or_eq_false_iff] at hword
  exact hword.1.2

/-- The text does not go on with a character that is no blank. -/
theorem Breaks.head_ne (h : Breaks behind) {c : Char} {r : List Char} (hc : isBlank c = false) :
    behind ≠ c :: r := by
  rintro rfl
  rw [h c rfl] at hc
  cases hc

/-- A word ends in front of anything that cannot go on with it. -/
theorem first?_word {c : Char} (hstart : isWordStart c = true)
    (hrest : ∀ x ∈ ds, Pattern.isWordChar x = true)
    (hend : ∀ x ∈ behind.head?, Pattern.isWordChar x = false) :
    first? (c :: ds ++ behind) = some (.word, (c :: ds).length) := by
  refine first?_of_munch? [] _ rfl (List.forall_mem_nil _) ?_
  rw [List.cons_append, munch?, wordLength?, if_pos hstart, run_append hrest,
    run_eq_zero hend, List.length_cons, Nat.add_zero, Nat.add_comm]

theorem first?_float (hne : ds ≠ []) (hdigits : ∀ c ∈ ds, c.isDigit = true) (hne' : es ≠ [])
    (hdigits' : ∀ c ∈ es, c.isDigit = true) (hend : Breaks behind) :
    first? (ds ++ '.' :: es ++ behind) = some (.float, (ds ++ '.' :: es).length) := by
  have hpoint : ∀ c ∈ ('.' :: (es ++ behind)).head?, c.isDigit = false := by
    rintro c ⟨⟩
    rfl
  have hrun := runLength?_append hne hdigits hpoint
  have hrun' := runLength?_append hne' hdigits' hend.isDigit
  rw [List.append_assoc, List.cons_append]
  refine first?_of_munch? [word] _ rfl ?_ ?_
  · exact List.forall_mem_singleton.2 (wordLength?_digits hne hdigits _)
  · simp [munch?, floatLength?, hrun, hrun', Nat.add_assoc, Nat.add_comm 1]

theorem first?_int (hne : ds ≠ []) (hdigits : ∀ c ∈ ds, c.isDigit = true)
    (hend : Breaks behind) : first? (ds ++ behind) = some (.int, ds.length) := by
  have hword := wordLength?_digits hne hdigits behind
  have hrun := runLength?_append hne hdigits hend.isDigit
  refine first?_of_munch? [word, float] _ rfl ?_ hrun
  refine List.forall_mem_cons.2 ⟨hword, List.forall_mem_singleton.2 ?_⟩
  simp only [munch?, floatLength?, hrun, List.drop_left]
  split
  · exact absurd rfl (hend.head_ne (by decide))
  · rfl

/-- What follows a string does not matter, since a quote ends it. -/
theorem first?_string (h : Quotable body) (behind : List Char) :
    first? ('"' :: (body ++ ['"']) ++ behind) =
      some (.string, ('"' :: (body ++ ['"'])).length) := by
  have hcs : '"' :: (body ++ ['"']) ++ behind = '"' :: (body ++ '"' :: behind) := by simp
  rw [hcs]
  refine first?_of_munch? [word, float, int, blank, interpolated] _ rfl ?_ ?_
  · simp only [List.forall_mem_cons]
    exact ⟨rfl, rfl, rfl, rfl, rfl, List.forall_mem_nil _⟩
  · simp [munch?, stringLength?, quoteEnd?_append h]

theorem first?_interpolated (h : Quotable body) (behind : List Char) :
    first? ('$' :: '"' :: (body ++ ['"']) ++ behind) =
      some (.interpolated, ('$' :: '"' :: (body ++ ['"'])).length) := by
  have hcs : '$' :: '"' :: (body ++ ['"']) ++ behind = '$' :: '"' :: (body ++ '"' :: behind) := by
    simp
  rw [hcs]
  refine first?_of_munch? [word, float, int, blank] _ rfl ?_ ?_
  · simp only [List.forall_mem_cons]
    exact ⟨rfl, rfl, rfl, rfl, List.forall_mem_nil _⟩
  · simp [munch?, interpolatedLength?, quoteEnd?_append h]

end

/-- The text of a mark. -/
def text : Pattern → List Char
  | mark _ text => text
  | _ => []

/-- No mark hides another: those that begin with another are tried before it. -/
theorem first?_text : ∀ p ∈ all, p.text ≠ [] → first? p.text = some (p, p.text.length) := by
  decide

/-- The characters that begin a mark begin nothing else, but for the slash of the comments. -/
theorem text_head {p : Pattern} (hp : p ∈ all) {c : Char} {r : List Char} (hcr : p.text = c :: r) :
    isWordStart c = false ∧ c.isDigit = false ∧ isBlank c = false ∧ c ≠ '$' ∧ c ≠ '"' ∧
      (c = '/' → c :: r = ['/']) := by
  -- Quantified over, `c` would be tried at every character there is.
  have hall : ∀ p ∈ all, p.text.head?.all fun c =>
      isWordStart c = false ∧ c.isDigit = false ∧ isBlank c = false ∧ c ≠ '$' ∧ c ≠ '"' ∧
        (c = '/' → p.text = ['/']) := by
    decide
  have h := hall p hp
  rw [hcr] at h
  exact of_decide_eq_true h

theorem text_not_blank : ∀ p ∈ all, p.text.any isBlank = false := by
  decide

/-- A mark that begins a text begins what stands in front of a blank. -/
theorem prefix_of_prefix_append {as bs behind : List Char} (has : ∀ c ∈ as, isBlank c = false)
    (hend : Breaks behind) (h : as <+: bs ++ behind) : as <+: bs := by
  rcases List.prefix_or_prefix_of_prefix h (List.prefix_append bs behind) with h' | ⟨more, rfl⟩
  · exact h'
  · cases more with
    | nil => simp
    | cons c more =>
      obtain ⟨rest, hrest⟩ := (List.prefix_append_right_inj bs).1 h
      exact absurd hrest.symm (hend.head_ne (has c (by simp)))

/-- A blank behind a mark changes nothing for any pattern. -/
theorem munch?_text_append {p : Pattern} (hp : p ∈ all) (hne : p.text ≠ []) {behind : List Char}
    (hend : Breaks behind) : ∀ q ∈ all, q.munch? (p.text ++ behind) = q.munch? p.text := by
  intro q hq
  obtain ⟨c, r, hcr⟩ := List.exists_cons_of_ne_nil hne
  obtain ⟨hword, hdigit, hblank, hdollar, hquote, hslash⟩ :=
    text_head hp hcr
  have hnone (f : Char → Bool) (hf : f c = false) (cs : List Char) :
      runLength? f (c :: cs) = none := by
    simp [runLength?, run, hf]
  cases q with
  | word => simp [hcr, munch?, wordLength?, hword]
  | float => simp [hcr, munch?, floatLength?, hnone _ hdigit]
  | int => simp [hcr, munch?, hnone _ hdigit]
  | blank => simp [hcr, munch?, hnone _ hblank]
  | interpolated => simp [hcr, munch?, interpolatedLength?, hdollar]
  | string => simp [hcr, munch?, stringLength?, hquote]
  | lineComment =>
    by_cases hc : c = '/'
    · rw [hcr, hslash hc, List.singleton_append]
      simp only [munch?, lineCommentLength?]
      split
      · next heq => exact absurd (List.cons.inj heq).2 (hend.head_ne (by decide))
      · rfl
    · simp [hcr, munch?, lineCommentLength?, hc]
  | blockComment =>
    by_cases hc : c = '/'
    · rw [hcr, hslash hc, List.singleton_append]
      simp only [munch?, blockCommentLength?]
      split
      · next heq => exact absurd (List.cons.inj heq).2 (hend.head_ne (by decide))
      · rfl
    · simp [hcr, munch?, blockCommentLength?, hc]
  | mark kind text =>
    have hiff : text.isPrefixOf (p.text ++ behind) = text.isPrefixOf p.text := by
      rw [Bool.eq_iff_iff, List.isPrefixOf_iff_prefix, List.isPrefixOf_iff_prefix]
      have hblanks := List.any_eq_false.1 (text_not_blank _ hq)
      exact ⟨prefix_of_prefix_append (fun c hc => Bool.eq_false_iff.2 (hblanks c hc)) hend,
        fun h => h.trans (List.prefix_append _ _)⟩
    simp only [munch?, hiff]

theorem findSome?_congr {f g : Pattern → Option (Pattern × Nat)} {ps : List Pattern}
    (h : ∀ q ∈ ps, f q = g q) : ps.findSome? f = ps.findSome? g := by
  induction ps with
  | nil => rfl
  | cons q ps ih =>
    have hrest := ih fun x hx => h x (List.mem_cons_of_mem _ hx)
    rw [List.findSome?_cons, List.findSome?_cons, h q List.mem_cons_self, hrest]

theorem first?_mark {kind : TokenKind} {text : List Char} (h : .mark kind text ∈ all)
    {behind : List Char} (hend : Breaks behind) :
    first? (text ++ behind) = some (.mark kind text, text.length) := by
  have hmunch : (mark kind text).munch? text = some text.length := by simp [munch?]
  have hne : (mark kind text).text ≠ [] := List.length_pos_iff.1 (munch?_le_length h hmunch).1
  have hmunches : first? (text ++ behind) = first? text :=
    findSome?_congr fun q hq => congrArg _ (munch?_text_append h hne hend q hq)
  rw [hmunches]
  exact first?_text _ h hne

end Pattern

/-- A token that ends its text, or has a blank behind it, is cut as one piece. -/
theorem Spelled.first?_append {cs behind : List Char} {kind : TokenKind} {value : String}
    (h : Spelled cs kind value) (hend : Pattern.Breaks behind) :
    ∃ p, Pattern.first? (cs ++ behind) = some (p, cs.length) ∧
      p.token? cs = some (kind, value) := by
  cases h with
  | word hstart hrest hkind =>
    refine ⟨.word, Pattern.first?_word hstart hrest hend.isWordChar, ?_⟩
    rw [TokenKind.ofWord_iff.1 hkind]
    rfl
  | int hne hdigits => exact ⟨.int, Pattern.first?_int hne hdigits hend, rfl⟩
  | float hne hdigits hne' hdigits' =>
    exact ⟨.float, Pattern.first?_float hne hdigits hne' hdigits' hend, rfl⟩
  | string h =>
    refine ⟨.string, Pattern.first?_string h behind, ?_⟩
    simp [Pattern.token?]
  | interpolated h =>
    refine ⟨.interpolated, Pattern.first?_interpolated h behind, ?_⟩
    simp [Pattern.token?]
  | mark h => exact ⟨.mark kind cs, Pattern.first?_mark h hend, rfl⟩

/-- A token that stands alone is cut as one piece. -/
theorem Spelled.first? {cs : List Char} {kind : TokenKind} {value : String}
    (h : Spelled cs kind value) :
    ∃ p, Pattern.first? cs = some (p, cs.length) ∧ p.token? cs = some (kind, value) := by
  have h' := h.first?_append Pattern.breaks_nil
  rwa [List.append_nil] at h'

/-- **The text of a token determines its kind and its value.** -/
theorem Spelled.unique {cs : List Char} {kind kind' : TokenKind} {value value' : String}
    (h : Spelled cs kind value) (h' : Spelled cs kind' value') : kind = kind' ∧ value = value' := by
  obtain ⟨p, hfirst, htoken⟩ := h.first?
  obtain ⟨p', hfirst', htoken'⟩ := h'.first?
  cases hfirst.symm.trans hfirst'
  cases htoken.symm.trans htoken'
  exact ⟨rfl, rfl⟩

theorem Spelled.ne_nil {cs : List Char} {kind : TokenKind} {value : String}
    (h : Spelled cs kind value) : cs ≠ [] := by
  obtain ⟨p, hfirst, -⟩ := h.first?
  have hpos := (Pattern.first?_le_length hfirst).1
  exact List.length_pos_iff.1 hpos

end MgLang
