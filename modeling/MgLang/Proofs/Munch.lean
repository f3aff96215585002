import MgLang.Proofs.Scanning
/-!
# The first pattern takes the most

The lexer takes the first pattern that takes anything, and never compares how much patterns take.
The order in which they stand makes up for that: `takes_longest` says that no pattern takes more
than the first one does.

Two patterns can both take something only if their pieces begin alike, so patterns are told apart by
the first characters of their pieces (`Pattern.opening`). The pairs that are left are few: a number
with a point goes on where one without a point ends, a comment is at least as long as the mark that
it begins with, and no mark begins a later one (`Pattern.outlasts`).
-/

namespace MgLang

/-- What a piece can begin with. -/
inductive Opening where
  | letter | digit | blank | dollar | quote | slash | sign
deriving DecidableEq, Repr

/-- What a piece with that first character begins with. -/
def Opening.of (c : Char) : Opening :=
  if Pattern.isWordStart c then letter
  else if c.isDigit then digit
  else if isBlank c then blank
  else if c = '$' then dollar
  else if c = '"' then quote
  else if c = '/' then slash
  else sign

namespace Pattern

/-- What all pieces of a pattern begin with. -/
def opening : Pattern → Opening
  | word => .letter
  | float | int => .digit
  | blank => .blank
  | interpolated => .dollar
  | string => .quote
  | lineComment | blockComment => .slash
  | mark _ text => (text.head?.map Opening.of).getD .sign

/-- The pieces of both patterns never begin alike, or else the first pattern takes as much as the
second wherever both take anything. -/
def outlasts (p q : Pattern) : Bool :=
  p.opening != q.opening ||
    match p, q with
    | float, int | lineComment, blockComment => true
    | lineComment, mark _ text | blockComment, mark _ text => text.length ≤ 2
    | mark _ text, mark _ text' => ¬ text <+: text'
    | _, _ => false

/-- The patterns stand in an order in which each outlasts all behind it. -/
theorem pairwise_outlasts : all.Pairwise (outlasts · ·) := by
  decide

section

variable {p q : Pattern} {cs : List Char} {m n : Nat}

/-! ### What pieces begin with -/

theorem opening_of_digit {c : Char} (h : c.isDigit = true) : Opening.of c = .digit := by
  rw [Opening.of, isWordStart_of_isDigit h, h]
  rfl

/-- No blank can stand in a word. -/
theorem opening_of_blank {c : Char} (h : isBlank c = true) : Opening.of c = .blank := by
  have hword : isWordChar c = false := by
    by_contra hc
    rw [isBlank_of_isWordChar (by simpa using hc)] at h
    cases h
  obtain ⟨halphanum, hunderscore⟩ := Bool.or_eq_false_iff.1 hword
  obtain ⟨halpha, hdigit⟩ := Bool.or_eq_false_iff.1 halphanum
  have hstart : isWordStart c = false := Bool.or_eq_false_iff.2 ⟨halpha, hunderscore⟩
  rw [Opening.of, hstart, hdigit, h]
  rfl

theorem exists_opening {p : Char → Bool} {o : Opening} (hp : ∀ c, p c = true → Opening.of c = o)
    (h : runLength? p cs = some n) : ∃ c r, cs = c :: r ∧ Opening.of c = o := by
  obtain ⟨as, behind, rfl, -, hne, has⟩ := exists_of_runLength? h
  obtain ⟨c, as, rfl⟩ := List.exists_cons_of_ne_nil hne
  exact ⟨c, as ++ behind, rfl, hp c (has c List.mem_cons_self)⟩

/-- A pattern takes something only where the text begins as its pieces do. -/
theorem opening_of_munch? (hp : p ∈ all) (h : p.munch? cs = some n) :
    ∃ c r, cs = c :: r ∧ Opening.of c = p.opening := by
  cases p with
  | word =>
    cases cs with
    | nil => cases h
    | cons c r =>
      refine ⟨c, r, rfl, ?_⟩
      simp only [munch?, wordLength?] at h
      split at h
      · next hstart => rw [Opening.of, if_pos hstart, opening]
      · cases h
  | float =>
    obtain ⟨ds, r, k, rfl, hne, hdigits, -, -⟩ := floatLength?_eq_some_iff.1 h
    obtain ⟨d, ds, rfl⟩ := List.exists_cons_of_ne_nil hne
    exact ⟨d, _, rfl, opening_of_digit (hdigits d List.mem_cons_self)⟩
  | int => exact exists_opening (fun _ => opening_of_digit) h
  | blank => exact exists_opening (fun _ => opening_of_blank) h
  | interpolated | string | lineComment | blockComment =>
    simp only [munch?, interpolatedLength?, stringLength?, lineCommentLength?,
      blockCommentLength?] at h
    split at h
    · exact ⟨_, _, rfl, by decide⟩
    · cases h
  | mark kind text =>
    have hpos := (munch?_le_length hp h).1
    simp only [munch?] at h
    split at h
    · next hfront =>
      cases h
      obtain ⟨behind, rfl⟩ := List.isPrefixOf_iff_prefix.1 hfront
      obtain ⟨c, text, rfl⟩ := List.exists_cons_of_length_pos hpos
      exact ⟨c, text ++ behind, rfl, rfl⟩
    · cases h

/-! ### What two patterns take of one text -/

/-- The digits in front of a point are all that a number without a point takes. -/
theorem int_le_float (hp : floatLength? cs = some m) (hq : runLength? Char.isDigit cs = some n) :
    n ≤ m := by
  obtain ⟨ds, r, k, rfl, hne, hdigits, -, rfl⟩ := floatLength?_eq_some_iff.1 hp
  rw [runLength?_append hne hdigits (by rintro c ⟨⟩; rfl), Option.some.injEq] at hq
  omega

theorem two_le_lineComment (h : lineCommentLength? cs = some m) : 2 ≤ m := by
  unfold lineCommentLength? at h
  split at h
  · cases h
    exact Nat.le_add_right 2 _
  · cases h

theorem two_le_blockComment (h : blockCommentLength? cs = some m) : 2 ≤ m := by
  unfold blockCommentLength? at h
  split at h
  · obtain ⟨k, -, rfl⟩ := Option.map_eq_some_iff.1 h
    exact Nat.le_add_left 2 k
  · cases h

/-- Behind the first slash stands another or a star. -/
theorem not_both_comments (hp : lineCommentLength? cs = some m)
    (hq : blockCommentLength? cs = some n) : False := by
  unfold lineCommentLength? at hp
  split at hp
  · cases hq
  · cases hp

theorem munch?_mark_eq_some_iff {kind : TokenKind} {text : List Char} :
    (mark kind text).munch? cs = some n ↔ text <+: cs ∧ text.length = n := by
  simp [munch?]

/-- Of two marks that begin the same text, the one that does not begin the other is the longer. -/
theorem mark_le_mark {kind kind' : TokenKind} {text text' : List Char} (hnot : ¬ text <+: text')
    (hp : (mark kind text).munch? cs = some m) (hq : (mark kind' text').munch? cs = some n) :
    n ≤ m := by
  obtain ⟨hfront, rfl⟩ := munch?_mark_eq_some_iff.1 hp
  obtain ⟨hfront', rfl⟩ := munch?_mark_eq_some_iff.1 hq
  by_contra hlt
  exact hnot (List.prefix_of_prefix_length_le hfront hfront' (by omega))

/-- A pattern that outlasts another takes as much. -/
theorem le_of_outlasts (hpq : p.outlasts q = true) (hp : p ∈ all) (hq : q ∈ all)
    (hm : p.munch? cs = some m) (hn : q.munch? cs = some n) : n ≤ m := by
  obtain ⟨c, r, rfl, hopening⟩ := opening_of_munch? hp hm
  obtain ⟨c', r', he, hopening'⟩ := opening_of_munch? hq hn
  obtain ⟨rfl, rfl⟩ := List.cons.inj he
  have halike : (p.opening != q.opening) = false := by simp [← hopening, ← hopening']
  unfold outlasts at hpq
  rw [halike, Bool.false_or] at hpq
  split at hpq
  · exact int_le_float hm hn
  · exact absurd hn fun hn => not_both_comments hm hn
  · obtain ⟨-, rfl⟩ := munch?_mark_eq_some_iff.1 hn
    exact Nat.le_trans (of_decide_eq_true hpq) (two_le_lineComment hm)
  · obtain ⟨-, rfl⟩ := munch?_mark_eq_some_iff.1 hn
    exact Nat.le_trans (of_decide_eq_true hpq) (two_le_blockComment hm)
  · exact mark_le_mark (of_decide_eq_true hpq) hm hn
  · cases hpq

/-- The first pattern stands behind patterns that take nothing. -/
theorem exists_of_first? (h : first? cs = some (q, n)) :
    ∃ front back, all = front ++ q :: back ∧ (∀ p ∈ front, p.munch? cs = none) ∧
      q.munch? cs = some n := by
  obtain ⟨front, q', back, hall, hq, hfront⟩ := List.findSome?_eq_some_iff.1 h
  obtain ⟨m, hm, he⟩ := Option.map_eq_some_iff.1 hq
  cases he
  exact ⟨front, back, hall, fun p hp => Option.map_eq_none_iff.1 (hfront p hp), hm⟩

/-- What stands behind the first pattern takes no more than it does. -/
theorem le_of_first? (h : first? cs = some (q, n)) (hp : p ∈ all) (hm : p.munch? cs = some m) :
    m ≤ n := by
  obtain ⟨front, back, hall, hfront, hq⟩ := exists_of_first? h
  have hpairs := pairwise_outlasts
  rw [hall, List.pairwise_append, List.pairwise_cons] at hpairs
  rw [hall, List.mem_append, List.mem_cons] at hp
  rcases hp with hp | rfl | hp
  · cases (hfront p hp).symm.trans hm
  · cases hq.symm.trans hm
    exact Nat.le_refl _
  · exact le_of_outlasts (hpairs.2.1.1 p hp) (by simp [hall]) (by simp [hall, hp]) hq hm

/-- Where any pattern takes something there is a first one. -/
theorem exists_first? (hp : p ∈ all) (hm : p.munch? cs = some m) :
    ∃ found, first? cs = some found := by
  cases h : first? cs with
  | some found => exact ⟨found, rfl⟩
  | none => cases (first?_eq_none_iff.1 h p hp).symm.trans hm

end

/-! ### Places of a text -/

/-- From byte `start` of a text on, the pattern takes what stands there up to byte `stop`. -/
def Takes (p : Pattern) (text : List Char) (start stop : Nat) : Prop :=
  ∃ piece behind, Slice text start stop piece behind ∧
    p.munch? (piece ++ behind) = some piece.length

/-- What begins at a byte of a text is determined. -/
theorem Slice.rest_eq {text piece piece' behind behind' : List Char} {start stop stop' : Nat}
    (h : Slice text start stop piece behind) (h' : Slice text start stop' piece' behind') :
    piece ++ behind = piece' ++ behind' := by
  obtain ⟨before, htext, hstart, -⟩ := h
  obtain ⟨before', htext', hstart', -⟩ := h'
  exact (append_inj_of_byteLength (htext.symm.trans htext') (hstart.trans hstart'.symm)).2

section

variable {p q : Pattern} {text piece behind : List Char} {start stop stop' : Nat}

/-- Of two pieces at the front of a text the one with more characters has more bytes. -/
theorem byteLength_le_of_length_le {as as' bs bs' : List Char} (h : as ++ bs = as' ++ bs')
    (hle : as.length ≤ as'.length) : byteLength as ≤ byteLength as' := by
  have hfront : as <+: as' :=
    List.prefix_of_prefix_length_le (List.prefix_append as bs) (h ▸ List.prefix_append as' bs') hle
  obtain ⟨more, rfl⟩ := hfront
  rw [byteLength_append]
  exact Nat.le_add_right _ _

/-- What a pattern takes where the first pattern takes a piece ends no later than the piece. -/
theorem Takes.le_of_first? (h : p.Takes text start stop) (hp : p ∈ all)
    (hpiece : Slice text start stop' piece behind)
    (hfirst : first? (piece ++ behind) = some (q, piece.length)) : stop ≤ stop' := by
  obtain ⟨piece', behind', hpiece', hm⟩ := h
  have hrest := Slice.rest_eq hpiece' hpiece
  rw [hrest] at hm
  have hbytes := byteLength_le_of_length_le hrest (Pattern.le_of_first? hfirst hp hm)
  obtain ⟨-, -, -, hstop⟩ := hpiece
  obtain ⟨-, -, -, hstop'⟩ := hpiece'
  omega

end

end Pattern

open Pattern

/-- **The first pattern takes the most.** If any pattern takes something at a byte of a text, then
there is a first pattern that does: the patterns before it take nothing there, and what it takes is
not empty and ends no earlier than what any other pattern takes there. This is what the lexer goes
over next, and what it makes a token of. -/
theorem takes_longest {p : Pattern} {text : List Char} {start stop : Nat} (hp : p ∈ all)
    (h : p.Takes text start stop) :
    ∃ front q back stop', all = front ++ q :: back ∧
      (∀ p' ∈ front, ∀ stop, ¬ p'.Takes text start stop) ∧
      q.Takes text start stop' ∧ start < stop' ∧
      (∀ p' ∈ all, ∀ stop, p'.Takes text start stop → stop ≤ stop') ∧
      ∃ piece behind, Slice text start stop' piece behind ∧
        ∀ file, tokensFrom file start (piece ++ behind) =
          (tokensFrom file stop' behind).map ((q.tokenAt? file start piece).toList ++ ·) := by
  obtain ⟨piece₀, behind₀, hslice₀, hm⟩ := h
  obtain ⟨⟨q, n⟩, hfirst⟩ := exists_first? hp hm
  obtain ⟨hpos, hle⟩ := first?_le_length hfirst
  obtain ⟨piece, behind, hcs, rfl⟩ : ∃ piece behind, piece₀ ++ behind₀ = piece ++ behind ∧
      piece.length = n :=
    ⟨_, _, (List.take_append_drop n _).symm, List.length_take_of_le hle⟩
  rw [hcs] at hfirst
  obtain ⟨front, back, hall, hfront, hq⟩ := exists_of_first? hfirst
  have hslice : Slice text start (start + byteLength piece) piece behind := by
    obtain ⟨before, htext, hstart, -⟩ := hslice₀
    exact ⟨before, hcs ▸ htext, hstart, rfl⟩
  refine ⟨front, q, back, start + byteLength piece, hall, ?_, ⟨piece, behind, hslice, hq⟩, ?_, ?_,
    piece, behind, hslice, fun file => tokensFrom_piece hfirst⟩
  · rintro p' hp' stop ⟨piece', behind', hslice', hm'⟩
    rw [Slice.rest_eq hslice' hslice, hfront p' hp'] at hm'
    cases hm'
  · have hbytes := byteLength_pos (List.ne_nil_of_length_pos hpos)
    omega
  · exact fun p' hp' stop htakes => htakes.le_of_first? hp' hslice hfirst

/-- The comment is closed, so neither its slash nor its star is a mark. -/
theorem takes_longest_comment :
    mark .slash ['/'] ∈ all ∧ (mark .slash ['/']).Takes "1/*x*/y".toList 1 2 ∧
      blockComment.Takes "1/*x*/y".toList 1 6 ∧
      ∃ (q : Pattern) (stop : Nat), q.Takes "1/*x*/y".toList 1 stop ∧ 6 ≤ stop := by
  have hmem : mark .slash ['/'] ∈ all := by decide
  have hslash : (mark .slash ['/']).Takes "1/*x*/y".toList 1 2 :=
    ⟨['/'], "*x*/y".toList, ⟨['1'], rfl, rfl, rfl⟩, by decide⟩
  have hcomment : blockComment.Takes "1/*x*/y".toList 1 6 :=
    ⟨"/*x*/".toList, ['y'], ⟨['1'], rfl, rfl, rfl⟩, by decide⟩
  obtain ⟨-, q, -, stop, -, -, hq, -, hlongest, -⟩ := takes_longest hmem hslash
  exact ⟨hmem, hslash, hcomment, q, stop, hq, hlongest _ (by decide) _ hcomment⟩

end MgLang
