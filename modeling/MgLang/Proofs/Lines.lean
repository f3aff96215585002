import MgLang.Source.Line
/-!
# Which line a byte stands in

The rule for looking up a line, written down apart from the walk that looks it up (`LineAt`), and
the proof that the two agree for every text and every byte (`lineAt?_lineAt`).

A text falls into lines in one way only: `segments_eq_iff` says of any list of lines when it is the
one that `segments` gives. So the walk over the list can be compared with a cut of the text around
one line (`IsLine`).
-/

namespace MgLang

/-! ### Lines of a text -/

/-- The text `front ++ (line ++ behind)` is cut around one of its lines: a line begins where the
text does or just after a newline, and it reaches up to and including the next newline or up to the
end of the text. -/
structure IsLine (front line behind : List Char) : Prop where
  begins : front = [] ∨ ∃ before, front = before ++ ['\n']
  ends : (∃ body, '\n' ∉ body ∧ line = body ++ ['\n']) ∨ ('\n' ∉ line ∧ behind = [])

/-- What a line is without its ending, which is a newline, or a newline with a carriage return in
front of it, or nothing. -/
inductive Ended : List Char → List Char → Prop
  | bare {body : List Char} : '\n' ∉ body → Ended body body
  | newline {body : List Char} : '\n' ∉ body → body.getLast? ≠ some '\r' →
      Ended body (body ++ ['\n'])
  | both {body : List Char} : '\n' ∉ body → Ended body (body ++ ['\r', '\n'])

/-- How many newlines begin before byte `position` of the text. -/
def newlinesBefore : Nat → List Char → Nat
  | _, [] => 0
  | position, c :: cs =>
    if position = 0 then 0
    else (if c = '\n' then 1 else 0) + newlinesBefore (position - c.utf8Size) cs

/-- The line of a byte of the text. -/
inductive LineAt (text : List Char) (position : Nat) : Line → Prop
  /-- A byte of the text is in the line around it. -/
  | inside {front line behind : List Char} {offset : Nat} :
      text = front ++ (line ++ behind) → IsLine front line behind →
      byteLength front + offset = position → offset < byteLength line →
      LineAt text position ⟨1 + newlinesBefore position text, line, offset⟩
  /-- Where the text ends, the last line is meant, and a newline at the end begins no other. -/
  | atEnd {front line body : List Char} :
      text = front ++ line → line ≠ [] → IsLine front line [] → Ended body line →
      position = byteLength text →
      LineAt text position ⟨1 + front.count '\n', body, byteLength body⟩
  /-- A text without characters has one empty line. -/
  | empty : text = [] → position = 0 → LineAt text position ⟨1, [], 0⟩

/-! ### The list of the lines -/

/-- Each of the lines ends in its only newline. -/
def AllEnded (ls : List (List Char)) : Prop :=
  ∀ l ∈ ls, ∃ body, '\n' ∉ body ∧ l = body ++ ['\n']

/-- The lines of some text: every line ends in its only newline, the last one perhaps in none, and
then it is not empty. -/
def AreLines (ls : List (List Char)) : Prop :=
  ∃ closed last, ls = closed ++ last ∧ AllEnded closed ∧
    (last = [] ∨ ∃ line, last = [line] ∧ line ≠ [] ∧ '\n' ∉ line)

theorem segments_bare {line : List Char} (hline : line ≠ []) (h : '\n' ∉ line) :
    segments line = [line] := by
  induction line with
  | nil => exact absurd rfl hline
  | cons c cs ih =>
    have hc : c ≠ '\n' := fun hc => h (hc ▸ List.mem_cons_self)
    have hcs : '\n' ∉ cs := fun hcs => h (List.mem_cons_of_mem _ hcs)
    rw [segments, if_neg hc]
    by_cases hnil : cs = []
    · subst hnil
      rfl
    · rw [ih hnil hcs]

theorem segments_closed {body : List Char} (rest : List Char) (h : '\n' ∉ body) :
    segments (body ++ '\n' :: rest) = (body ++ ['\n']) :: segments rest := by
  induction body with
  | nil => simp [segments]
  | cons c cs ih =>
    have hc : c ≠ '\n' := fun hc => h (hc ▸ List.mem_cons_self)
    have hcs : '\n' ∉ cs := fun hcs => h (List.mem_cons_of_mem _ hcs)
    rw [List.cons_append, segments, if_neg hc, ih hcs]
    rfl

theorem segments_flatten_append {closed : List (List Char)} (h : AllEnded closed)
    (rest : List Char) : segments (closed.flatten ++ rest) = closed ++ segments rest := by
  induction closed with
  | nil => rfl
  | cons l ls ih =>
    obtain ⟨body, hbody, rfl⟩ := h l List.mem_cons_self
    have hls : AllEnded ls := fun l hl => h l (List.mem_cons_of_mem _ hl)
    rw [List.flatten_cons, List.append_assoc, List.append_assoc, List.singleton_append,
      segments_closed _ hbody, ih hls]
    rfl

theorem areLines_segments (text : List Char) : AreLines (segments text) := by
  induction text with
  | nil => exact ⟨[], [], rfl, fun l hl => absurd hl List.not_mem_nil, .inl rfl⟩
  | cons c cs ih =>
    obtain ⟨closed, last, hcs, hclosed, hlast⟩ := ih
    rw [segments]
    split
    · next hc =>
      subst hc
      refine ⟨['\n'] :: closed, last, by rw [hcs]; rfl, ?_, hlast⟩
      intro l hl
      rcases List.mem_cons.1 hl with rfl | hl
      · exact ⟨[], List.not_mem_nil, rfl⟩
      · exact hclosed l hl
    · next hc =>
      have hc' : '\n' ≠ c := fun h => hc h.symm
      rw [hcs]
      -- the character joins the first line, which may be the one that ends in no newline
      cases closed with
      | cons l ls =>
        obtain ⟨body, hbody, rfl⟩ := hclosed l List.mem_cons_self
        refine ⟨(c :: body ++ ['\n']) :: ls, last, rfl, ?_, hlast⟩
        intro l hl
        rcases List.mem_cons.1 hl with rfl | hl
        · exact ⟨c :: body, by simp [hc', hbody], rfl⟩
        · exact hclosed l (List.mem_cons_of_mem _ hl)
      | nil =>
        refine ⟨[], ?_⟩
        rcases hlast with rfl | ⟨line, rfl, hne, hline⟩
        · exact ⟨[[c]], rfl, fun l hl => absurd hl List.not_mem_nil,
            .inr ⟨[c], rfl, by simp, by simp [hc']⟩⟩
        · exact ⟨[c :: line], rfl, fun l hl => absurd hl List.not_mem_nil,
            .inr ⟨c :: line, rfl, by simp, by simp [hc', hline]⟩⟩

/-- A text has one list of lines. -/
theorem segments_eq_iff {text : List Char} {ls : List (List Char)} :
    segments text = ls ↔ ls.flatten = text ∧ AreLines ls := by
  constructor
  · rintro rfl
    exact ⟨flatten_segments text, areLines_segments text⟩
  · rintro ⟨rfl, closed, last, rfl, hclosed, hlast⟩
    rw [List.flatten_append, segments_flatten_append hclosed]
    rcases hlast with rfl | ⟨line, rfl, hne, hline⟩
    · rfl
    · rw [List.flatten_singleton, segments_bare hne hline]

theorem closed_segments {front : List Char}
    (h : front = [] ∨ ∃ before, front = before ++ ['\n']) : AllEnded (segments front) := by
  rcases h with rfl | ⟨before, rfl⟩
  · exact fun l hl => absurd hl List.not_mem_nil
  · obtain ⟨closed, last, hsegments, hclosed, hlast⟩ := areLines_segments (before ++ ['\n'])
    rcases hlast with rfl | ⟨line, rfl, hne, hline⟩
    · rw [hsegments, List.append_nil]
      exact hclosed
    · -- the text ends in a newline, and the last line would not
      have hflatten := flatten_segments (before ++ ['\n'])
      rw [hsegments, List.flatten_append, List.flatten_singleton] at hflatten
      obtain ⟨start, c, rfl⟩ := (List.eq_nil_or_concat line).resolve_left hne
      rw [List.concat_eq_append, ← List.append_assoc] at hflatten
      obtain ⟨-, hc⟩ := List.append_inj' hflatten rfl
      exact absurd (by simp [hc]) hline

theorem length_eq_count {closed : List (List Char)} (h : AllEnded closed) :
    closed.length = closed.flatten.count '\n' := by
  induction closed with
  | nil => rfl
  | cons l ls ih =>
    obtain ⟨body, hbody, rfl⟩ := h l List.mem_cons_self
    have hls : AllEnded ls := fun l hl => h l (List.mem_cons_of_mem _ hl)
    rw [List.length_cons, ih hls, List.flatten_cons, List.count_append, List.count_append,
      List.count_eq_zero.2 hbody]
    simp [Nat.add_comm]

/-- The list of the lines around a line that the text is cut around. -/
theorem segments_isLine {front line behind : List Char} (h : IsLine front line behind)
    (hne : line ≠ []) :
    segments (front ++ (line ++ behind)) = segments front ++ line :: segments behind := by
  have hsplit := segments_flatten_append (closed_segments h.begins) (line ++ behind)
  rw [flatten_segments] at hsplit
  rw [hsplit]
  rcases h.ends with ⟨body, hbody, rfl⟩ | ⟨hline, rfl⟩
  · rw [List.append_assoc, List.singleton_append, segments_closed _ hbody]
  · rw [List.append_nil, segments_bare hne hline]
    rfl

theorem length_segments_front {front : List Char}
    (h : front = [] ∨ ∃ before, front = before ++ ['\n']) :
    (segments front).length = front.count '\n' := by
  have hlength := length_eq_count (closed_segments h)
  rwa [flatten_segments] at hlength

/-- Around every line in the list the text is cut. -/
theorem isLine_of_segments {text l : List Char} {before after : List (List Char)}
    (h : segments text = before ++ l :: after) :
    l ≠ [] ∧ IsLine before.flatten l after.flatten := by
  obtain ⟨closed, last, hls, hclosed, hlast⟩ := h ▸ areLines_segments text
  have hbegins {ls : List (List Char)} (hls : AllEnded ls) :
      ls.flatten = [] ∨ ∃ b, ls.flatten = b ++ ['\n'] := by
    rcases List.eq_nil_or_concat ls with rfl | ⟨front, line, rfl⟩
    · exact .inl rfl
    · obtain ⟨body, -, rfl⟩ := hls line (by simp)
      exact .inr ⟨front.flatten ++ body, by simp⟩
  have hinner {front back : List (List Char)} (heq : closed = front ++ l :: back) :
      l ≠ [] ∧ ∀ behind, IsLine front.flatten l behind := by
    obtain ⟨body, hbody, hl⟩ := hclosed l (by simp [heq])
    refine ⟨by simp [hl], fun behind => ⟨hbegins fun l hl => hclosed l (by simp [heq, hl]), ?_⟩⟩
    exact .inl ⟨body, hbody, hl⟩
  rcases hlast with rfl | ⟨line, rfl, hne, hline⟩
  · rw [List.append_nil] at hls
    exact ⟨(hinner hls.symm).1, (hinner hls.symm).2 _⟩
  · rcases List.eq_nil_or_concat after with rfl | ⟨back, x, rfl⟩
    · obtain ⟨rfl, hlast⟩ := List.append_inj' hls rfl
      cases hlast
      exact ⟨hne, hbegins hclosed, .inr ⟨hline, rfl⟩⟩
    · rw [List.concat_eq_append, ← List.cons_append, ← List.append_assoc] at hls
      have heq := (List.append_inj' hls rfl).1.symm
      exact ⟨(hinner heq).1, (hinner heq).2 _⟩

/-! ### The walk over the list -/

theorem lineWithin?_append (number : Nat) (before : List (List Char)) {l : List Char} {offset : Nat}
    (after : List (List Char)) (h : offset < byteLength l) :
    lineWithin? number (byteLength before.flatten + offset) (before ++ l :: after) =
      some ⟨number + before.length, l, offset⟩ := by
  induction before generalizing number with
  | nil => simp [lineWithin?, h]
  | cons b bs ih =>
    have hge : ¬ byteLength (b ++ bs.flatten) + offset < byteLength b := by
      rw [byteLength_append]
      omega
    have hrest : byteLength (b ++ bs.flatten) + offset - byteLength b =
        byteLength bs.flatten + offset := by
      rw [byteLength_append]
      omega
    rw [List.cons_append, lineWithin?, List.flatten_cons, if_neg hge, hrest, ih,
      List.length_cons, Nat.add_right_comm, Nat.add_assoc]

theorem lineWithin?_eq_none {lines : List (List Char)} {number position : Nat}
    (h : byteLength lines.flatten ≤ position) : lineWithin? number position lines = none := by
  induction lines generalizing number position with
  | nil => rfl
  | cons l ls ih =>
    rw [List.flatten_cons, byteLength_append] at h
    rw [lineWithin?, if_neg (by omega)]
    exact ih (by omega)

theorem exists_line_of_lt {lines : List (List Char)} {position : Nat}
    (h : position < byteLength lines.flatten) :
    ∃ before l after offset, lines = before ++ l :: after ∧
      byteLength before.flatten + offset = position ∧ offset < byteLength l := by
  induction lines generalizing position with
  | nil => exact absurd h (Nat.not_lt_zero _)
  | cons l ls ih =>
    by_cases hl : position < byteLength l
    · exact ⟨[], l, ls, position, rfl, Nat.zero_add _, hl⟩
    · rw [List.flatten_cons, byteLength_append] at h
      have hrest : position - byteLength l < byteLength ls.flatten := by omega
      obtain ⟨before, x, after, offset, rfl, hposition, hoffset⟩ := ih hrest
      refine ⟨l :: before, x, after, offset, rfl, ?_, hoffset⟩
      rw [List.flatten_cons, byteLength_append]
      omega

/-! ### Numbers of lines -/

theorem newlinesBefore_append (front rest : List Char) (offset : Nat) :
    newlinesBefore (byteLength front + offset) (front ++ rest) =
      front.count '\n' + newlinesBefore offset rest := by
  induction front with
  | nil => simp
  | cons c cs ih =>
    have hpos := c.utf8Size_pos
    have hrest : c.utf8Size + byteLength cs + offset - c.utf8Size = byteLength cs + offset := by
      omega
    rw [List.cons_append, newlinesBefore, byteLength_cons, if_neg (by omega), hrest, ih,
      List.count_cons]
    simp only [beq_iff_eq]
    omega

theorem newlinesBefore_eq_zero {body : List Char} {position : Nat} (rest : List Char)
    (hbody : '\n' ∉ body) (h : position ≤ byteLength body) :
    newlinesBefore position (body ++ rest) = 0 := by
  induction body generalizing position with
  | nil =>
    cases rest with
    | nil => rfl
    | cons c cs => rw [List.nil_append, newlinesBefore, if_pos (Nat.le_zero.1 h)]
  | cons c cs ih =>
    have hc : c ≠ '\n' := fun hc => hbody (hc ▸ List.mem_cons_self)
    have hcs : '\n' ∉ cs := fun hcs => hbody (List.mem_cons_of_mem _ hcs)
    rw [byteLength_cons] at h
    rw [List.cons_append, newlinesBefore, if_neg hc, ih hcs (by omega)]
    exact ite_self _

theorem newlinesBefore_isLine {front line behind : List Char} {offset : Nat}
    (h : IsLine front line behind) (hoffset : offset < byteLength line) :
    newlinesBefore (byteLength front + offset) (front ++ (line ++ behind)) =
      front.count '\n' := by
  rw [newlinesBefore_append]
  rcases h.ends with ⟨body, hbody, rfl⟩ | ⟨hline, rfl⟩
  · have hle : offset ≤ byteLength body := by
      have hsize : ('\n').utf8Size = 1 := rfl
      rw [byteLength_append, byteLength_cons, byteLength_nil, hsize] at hoffset
      omega
    rw [List.append_assoc, newlinesBefore_eq_zero _ hbody hle]
    rfl
  · rw [newlinesBefore_eq_zero _ hline (Nat.le_of_lt hoffset)]
    rfl

/-! ### Endings -/

theorem withoutEnding_bare {line : List Char} (h : '\n' ∉ line) : withoutEnding line = line := by
  have hreverse : ∀ r, line.reverse ≠ '\n' :: r := by
    intro r hr
    exact h (List.mem_reverse.1 (hr ▸ List.mem_cons_self))
  unfold withoutEnding
  split
  · next r hr => exact absurd hr (hreverse _)
  · next r _ hr => exact absurd hr (hreverse _)
  · rfl

theorem withoutEnding_ended {body line : List Char} (h : Ended body line) :
    withoutEnding line = body := by
  cases h with
  | bare hbody => exact withoutEnding_bare hbody
  | newline hbody hlast =>
    unfold withoutEnding
    split
    · next r hr =>
      rw [List.reverse_append, List.reverse_singleton, List.singleton_append] at hr
      have hr := List.cons.inj hr
      exact absurd (by rw [List.getLast?_eq_head?_reverse, hr.2]; rfl) hlast
    · next r _ hr =>
      rw [List.reverse_append, List.reverse_singleton, List.singleton_append] at hr
      rw [← (List.cons.inj hr).2, List.reverse_reverse]
    · next hnewline =>
      exact absurd (by rw [List.reverse_append]; rfl) (hnewline body.reverse)
  | both hbody => simp [withoutEnding]

theorem exists_ended {front line : List Char} (h : IsLine front line []) :
    ∃ body, Ended body line := by
  rcases h.ends with ⟨body, hbody, rfl⟩ | ⟨hline, -⟩
  · by_cases hlast : body.getLast? = some '\r'
    · obtain ⟨start, rfl⟩ := List.getLast?_eq_some_iff.1 hlast
      refine ⟨start, ?_⟩
      rw [List.append_assoc]
      exact .both fun hmem => hbody (List.mem_append_left _ hmem)
    · exact ⟨body, .newline hbody hlast⟩
  · exact ⟨line, .bare hline⟩

/-! ### The look-up -/

theorem LineAt.le {text : List Char} {position : Nat} {line : Line}
    (h : LineAt text position line) : position ≤ byteLength text := by
  cases h with
  | inside htext _ hposition hoffset =>
    rw [htext, byteLength_append, byteLength_append]
    omega
  | atEnd _ _ _ _ hposition => exact Nat.le_of_eq hposition
  | empty _ hposition => omega

/-- What the rule says is what the look-up finds. -/
theorem LineAt.lineAt?_eq {text : List Char} {position : Nat} {line : Line}
    (h : LineAt text position line) : lineAt? text position = some line := by
  have hle := h.le
  unfold lineAt?
  rw [if_neg (Nat.not_lt.2 hle)]
  cases h with
  | @inside front line behind offset htext hline hposition hoffset =>
    have hne : line ≠ [] := by
      rintro rfl
      exact absurd hoffset (Nat.not_lt_zero _)
    subst htext hposition
    have hwalk := lineWithin?_append 1 (segments front) (segments behind) hoffset
    rw [flatten_segments, length_segments_front hline.begins] at hwalk
    rw [segments_isLine hline hne, hwalk, newlinesBefore_isLine hline hoffset]
    rfl
  | @atEnd front line body htext hne hline hbody hposition =>
    subst htext hposition
    have hsegments := segments_isLine hline hne
    rw [List.append_nil] at hsegments
    have hnone : lineWithin? 1 (byteLength (front ++ line)) (segments (front ++ line)) = none :=
      lineWithin?_eq_none (Nat.le_of_eq (by rw [flatten_segments]))
    rw [hnone, hsegments]
    simp only [Option.getD_none, lastLine, segments, List.getLast?_concat, Option.getD_some,
      withoutEnding_ended hbody, List.length_append, length_segments_front hline.begins,
      List.length_singleton]
    rw [Nat.max_eq_right (Nat.le_add_left 1 _), Nat.add_comm]
  | empty htext hposition =>
    subst htext hposition
    rfl

/-- Up to the end of the text every byte has a line by the rule. -/
theorem exists_lineAt {text : List Char} {position : Nat} (h : position ≤ byteLength text) :
    ∃ line, LineAt text position line := by
  have hflatten := flatten_segments text
  by_cases hlt : position < byteLength text
  · rw [← hflatten] at hlt
    obtain ⟨before, l, after, offset, hsegments, hposition, hoffset⟩ := exists_line_of_lt hlt
    refine ⟨_, .inside ?_ (isLine_of_segments hsegments).2 hposition hoffset⟩
    rw [← hflatten, hsegments, List.flatten_append, List.flatten_cons]
  · have hend : position = byteLength text := by omega
    rcases List.eq_nil_or_concat (segments text) with hnil | ⟨before, l, hsegments⟩
    · rw [hnil] at hflatten
      subst hflatten
      exact ⟨_, .empty rfl hend⟩
    · rw [List.concat_eq_append] at hsegments
      obtain ⟨hne, hline⟩ := isLine_of_segments hsegments
      obtain ⟨body, hbody⟩ := exists_ended hline
      refine ⟨_, .atEnd ?_ hne hline hbody hend⟩
      rw [← hflatten, hsegments, List.flatten_append, List.flatten_singleton]

/-- Looking up a line is exact: only behind the end of the text a byte has no line, and every other
byte has the line that the rule gives it. -/
theorem lineAt?_lineAt (text : List Char) (position : Nat) :
    (lineAt? text position = none ↔ byteLength text < position) ∧
      ∀ line, lineAt? text position = some line ↔ LineAt text position line := by
  constructor
  · constructor
    · intro hnone
      rcases Nat.lt_or_ge (byteLength text) position with hlt | hle
      · exact hlt
      · obtain ⟨line, hline⟩ := exists_lineAt hle
        rw [hline.lineAt?_eq] at hnone
        cases hnone
    · intro hlt
      exact if_pos hlt
  · intro line
    constructor
    · intro hsome
      rcases Nat.lt_or_ge (byteLength text) position with hlt | hle
      · rw [lineAt?, if_pos hlt] at hsome
        cases hsome
      · obtain ⟨other, hother⟩ := exists_lineAt hle
        rw [hother.lineAt?_eq] at hsome
        cases hsome
        exact hother
    · exact LineAt.lineAt?_eq

end MgLang
