import MgLang.Diagnostic.Render
import MgLang.Proofs.Lines
import Mathlib.Data.List.DropRight
/-!
# Where the caret stands

A rendered diagnostic shows the line around the place, and under it a line whose last character is a
caret (`Points`). The printed line is laid out in characters, the dashes in front of the caret count
bytes. So the caret stands under the place only if every character before it takes one byte:
`render_points` says by how much it is off.
-/

namespace MgLang

/-! ### Ends of lines -/

theorem trimEnd_eq_rdropWhile (cs : List Char) : trimEnd cs = cs.rdropWhile isBlank := rfl

theorem trimEnd_isPrefix (cs : List Char) : trimEnd cs <+: cs :=
  List.rdropWhile_prefix isBlank cs

/-- Blanks are cut from the end only, so what stands before a character that is not blank stays. -/
theorem trimEnd_append {start rest : List Char} (h : ∃ c ∈ rest, isBlank c = false) :
    trimEnd (start ++ rest) = start ++ trimEnd rest := by
  obtain ⟨c, hc, hblank⟩ := h
  have hne : rest.reverse.dropWhile isBlank ≠ [] := by
    intro hnil
    have hall := List.dropWhile_eq_nil_iff.1 hnil c (List.mem_reverse.2 hc)
    rw [hblank] at hall
    cases hall
  unfold trimEnd
  rw [List.reverse_append, List.dropWhile_append, if_neg (by simpa using hne),
    List.reverse_append, List.reverse_reverse]

/-- A character that is not blank, or has one behind it, stays. -/
theorem exists_trimEnd_cons {c : Char} {tail : List Char} (h : ∃ x ∈ c :: tail, isBlank x = false) :
    ∃ after, trimEnd (c :: tail) = c :: after := by
  obtain ⟨rest, hrest⟩ := trimEnd_isPrefix (c :: tail)
  cases hshown : trimEnd (c :: tail) with
  | cons x after =>
    rw [hshown, List.cons_append] at hrest
    exact ⟨after, by rw [(List.cons.inj hrest).1]⟩
  | nil =>
    obtain ⟨x, hx, hblank⟩ := h
    rw [trimEnd_eq_rdropWhile, List.rdropWhile_eq_nil_iff] at hshown
    have hall := hshown x hx
    rw [hblank] at hall
    cases hall

/-- The newline that ends a line is not printed with it. -/
theorem newline_not_mem_trimEnd {front line behind start rest : List Char}
    (h : IsLine front line behind) (hline : line = start ++ rest) : '\n' ∉ trimEnd rest := by
  intro hmem
  rcases h.ends with ⟨body, hbody, rfl⟩ | ⟨hnewline, -⟩
  · rcases List.eq_nil_or_concat rest with rfl | ⟨inner, c, rfl⟩
    · exact absurd hmem List.not_mem_nil
    · rw [List.concat_eq_append, ← List.append_assoc] at hline
      obtain ⟨hstart, hc⟩ := List.append_inj' hline rfl
      have hc : '\n' = c := List.head_eq_of_cons_eq hc
      have hblank : isBlank c := hc ▸ by decide
      rw [List.concat_eq_append, trimEnd_eq_rdropWhile,
        List.rdropWhile_concat_pos _ _ _ hblank] at hmem
      exact hbody (hstart ▸ List.mem_append_right _ ((trimEnd_isPrefix inner).subset hmem))
  · exact hnewline (hline ▸ List.mem_append_right _ ((trimEnd_isPrefix rest).subset hmem))

/-! ### Indentation -/

/-- The indentation of a line ends where some character is not indentation. -/
theorem takeWhile_isIndent {head : List Char} {c : Char} (tail : List Char)
    (h : ∃ x ∈ head ++ [c], Diagnostic.isIndent x = false) :
    (head ++ c :: tail).takeWhile Diagnostic.isIndent = head.takeWhile Diagnostic.isIndent := by
  induction head with
  | nil =>
    obtain ⟨x, hx, hindent⟩ := h
    rw [List.nil_append, List.mem_singleton] at hx
    subst hx
    rw [List.nil_append, List.takeWhile_cons_of_neg (by rw [hindent]; decide)]
    rfl
  | cons a as ih =>
    rw [List.cons_append, List.takeWhile_cons, List.takeWhile_cons]
    split
    · next hindent =>
      obtain ⟨x, hx, hxindent⟩ := h
      rw [List.cons_append, List.mem_cons] at hx
      rcases hx with rfl | hx
      · rw [hindent] at hxindent
        cases hxindent
      · rw [ih ⟨x, hx, hxindent⟩]
    · rfl

theorem drop_length_takeWhile (p : Char → Bool) (cs rest : List Char) :
    (cs ++ rest).drop (cs.takeWhile p).length = cs.dropWhile p ++ rest := by
  have hcut : cs ++ rest = cs.takeWhile p ++ (cs.dropWhile p ++ rest) := by
    rw [← List.append_assoc, List.takeWhile_append_dropWhile]
  rw [hcut, List.drop_left]

theorem length_le_byteLength (cs : List Char) : cs.length ≤ byteLength cs := by
  induction cs with
  | nil => exact Nat.le_refl 0
  | cons c cs ih =>
    have hpos := c.utf8Size_pos
    rw [List.length_cons, byteLength_cons]
    omega

/-- A text has one byte for each character if and only if no character takes more. -/
theorem byteLength_eq_length {cs : List Char} :
    byteLength cs = cs.length ↔ ∀ c ∈ cs, c.utf8Size = 1 := by
  induction cs with
  | nil => simp
  | cons c cs ih =>
    have hpos := c.utf8Size_pos
    have hle := length_le_byteLength cs
    rw [byteLength_cons, List.length_cons, List.forall_mem_cons, ← ih]
    omega

/-! ### The picture -/

/-- The output ends with a printed line, in which the character `c` stands behind `before`, and a
line in which the only caret stands behind `under`. The columns of the two are the lengths of
`before` and `under`. -/
structure Points (output before : List Char) (c : Char) (after under : List Char) : Prop where
  output_eq : ∃ opening,
    output = opening ++ '\n' :: (before ++ c :: after) ++ '\n' :: (under ++ ['^', '\n'])
  printed : '\n' ∉ before ++ c :: after
  caret : '\n' ∉ under ∧ '^' ∉ under

/-- What is printed of a line with the number up to a character of it, which stands behind
`head`. -/
def printedBefore (number : Nat) (head : List Char) : List Char :=
  (toString number).toList ++ [' ', '|', ' '] ++ head.dropWhile Diagnostic.isIndent

theorem newline_not_mem_toString (n : Nat) : '\n' ∉ (toString n).toList := by
  intro h
  rw [Nat.toString_eq_ofList_toDigits, String.toList_ofList] at h
  have hdigit := Nat.isDigit_of_mem_toDigits (by decide) (by decide) h
  exact absurd hdigit (by decide)

/-- The excerpt around a character that is neither in the indentation of its line nor in the blanks
at the end. -/
theorem excerpt_points (number : Nat) {front head tail behind : List Char} {c : Char}
    (hline : IsLine front (head ++ c :: tail) behind)
    (hindent : ∃ x ∈ head ++ [c], Diagnostic.isIndent x = false)
    (hblank : ∃ x ∈ c :: tail, isBlank x = false) :
    ∃ margin after under,
      (Diagnostic.excerpt ⟨number, head ++ c :: tail, byteLength head⟩).toList =
        margin ++ '\n' :: (printedBefore number head ++ c :: after) ++
          '\n' :: (under ++ ['^', '\n']) ∧
      trimEnd (c :: tail) = c :: after ∧
      '\n' ∉ printedBefore number head ++ c :: after ∧
      ('\n' ∉ under ∧ '^' ∉ under) ∧
      under.length + head.length = (printedBefore number head).length + byteLength head := by
  obtain ⟨after, hafter⟩ := exists_trimEnd_cons hblank
  have htake := takeWhile_isIndent tail hindent
  have hcut := congrArg List.length (List.takeWhile_append_dropWhile
    (p := Diagnostic.isIndent) (l := head))
  rw [List.length_append] at hcut
  have hdrop := drop_length_takeWhile Diagnostic.isIndent head (c :: tail)
  have hshown : trimEnd ((head ++ c :: tail).drop (head.takeWhile Diagnostic.isIndent).length) =
      head.dropWhile Diagnostic.isIndent ++ c :: after := by
    rw [hdrop, trimEnd_append hblank, hafter]
  refine ⟨Diagnostic.padLeft ((toString number).toList.length + 2) ' ' ['|'], after,
    Diagnostic.padLeft ((toString number).toList.length + 2) ' ' ['|'] ++ [' '] ++
      List.replicate (byteLength head - (head.takeWhile Diagnostic.isIndent).length) '-',
    ?_, hafter, ?_, ⟨?_, ?_⟩, ?_⟩
  · simp only [Diagnostic.excerpt, htake, hshown, String.toList_ofList]
    simp [Diagnostic.padLeft, printedBefore]
  · have hrest : '\n' ∉ head.dropWhile Diagnostic.isIndent ++ c :: after := by
      rw [← hshown]
      exact newline_not_mem_trimEnd hline (List.take_append_drop _ _).symm
    have hnumber := newline_not_mem_toString number
    intro hmem
    simp only [printedBefore, List.append_assoc, List.mem_append] at hmem hrest
    rcases hmem with hmem | hmem | hmem
    · exact hnumber hmem
    · simp at hmem
    · exact hrest hmem
  · simp [Diagnostic.padLeft]
  · simp [Diagnostic.padLeft]
  · have hle := length_le_byteLength head
    simp only [printedBefore, Diagnostic.padLeft, List.length_append, List.length_replicate,
      List.length_cons, List.length_nil]
    omega

/-- The column of the caret, for a place at a character of a line that is neither in its indentation
nor in the blanks at its end. The character is printed in a column that counts characters. The caret
is as many columns further as the characters before the place take more bytes than one, so it stands
under the place if and only if each of them takes one byte. -/
theorem render_points {d : Diagnostic} {source : String} {front head tail behind : List Char}
    {c : Char} (hsource : source.toList = front ++ ((head ++ c :: tail) ++ behind))
    (hline : IsLine front (head ++ c :: tail) behind)
    (hposition : byteLength front + byteLength head = d.span.start)
    (hindent : ∃ x ∈ head ++ [c], Diagnostic.isIndent x = false)
    (hblank : ∃ x ∈ c :: tail, isBlank x = false) :
    ∃ after under,
      Points (d.render source).toList (printedBefore (1 + front.count '\n') head) c after under ∧
      trimEnd (c :: tail) = c :: after ∧
      under.length =
        (printedBefore (1 + front.count '\n') head).length + (byteLength head - head.length) ∧
      (under.length = (printedBefore (1 + front.count '\n') head).length ↔
        ∀ x ∈ head, x.utf8Size = 1) := by
  have hpos := c.utf8Size_pos
  have hoffset : byteLength head < byteLength (head ++ c :: tail) := by
    rw [byteLength_append, byteLength_cons]
    omega
  have hfound := (LineAt.inside hsource hline hposition hoffset).lineAt?_eq
  have hnumber : newlinesBefore d.span.start source.toList = front.count '\n' := by
    rw [hsource, ← hposition, newlinesBefore_isLine hline hoffset]
  rw [hnumber] at hfound
  obtain ⟨margin, after, under, hexcerpt, hafter, hprinted, hcaret, hcolumn⟩ :=
    excerpt_points (1 + front.count '\n') hline hindent hblank
  have hle := length_le_byteLength head
  refine ⟨after, under, ⟨?_, hprinted, hcaret⟩, hafter, by omega, ?_⟩
  · refine ⟨d.heading.toList ++ "\n-> ".toList ++ d.span.file.toList ++ "\n".toList ++ margin, ?_⟩
    rw [Diagnostic.render, hfound]
    simp [toString, hexcerpt]
  · rw [← byteLength_eq_length]
    omega

/-- A place behind a string with an accent in it. -/
def behindAccent : Diagnostic :=
  ⟨.unrecognisedToken "#", ⟨"main.mg", 4, 5⟩⟩

theorem isLine_behindAccent : IsLine [] (['"', 'é', '"'] ++ '#' :: []) [] :=
  ⟨.inl rfl, .inr ⟨by decide, rfl⟩⟩

theorem render_points_behindAccent :
    ("\"é\"#".toList = [] ++ ((['"', 'é', '"'] ++ '#' :: []) ++ []) ∧
      IsLine [] (['"', 'é', '"'] ++ '#' :: []) [] ∧
      byteLength [] + byteLength ['"', 'é', '"'] = behindAccent.span.start) ∧
    ∃ after under,
      Points (behindAccent.render "\"é\"#").toList
        (printedBefore (1 + List.count '\n' []) ['"', 'é', '"']) '#' after under ∧
      trimEnd ['#'] = '#' :: after ∧
      under.length = (printedBefore (1 + List.count '\n' []) ['"', 'é', '"']).length +
        (byteLength ['"', 'é', '"'] - ['"', 'é', '"'].length) ∧
      (under.length = (printedBefore (1 + List.count '\n' []) ['"', 'é', '"']).length ↔
        ∀ x ∈ ['"', 'é', '"'], x.utf8Size = 1) := by
  have hsource : "\"é\"#".toList = [] ++ ((['"', 'é', '"'] ++ '#' :: []) ++ []) := rfl
  have hposition : byteLength [] + byteLength ['"', 'é', '"'] = behindAccent.span.start := by decide
  exact ⟨⟨hsource, isLine_behindAccent, hposition⟩,
    render_points hsource isLine_behindAccent hposition ⟨'#', by simp, by decide⟩
      ⟨'#', by simp, by decide⟩⟩

/-- Not every caret stands under its place: here it is one column too far to the right. -/
theorem caret_astray :
    ¬ ∀ (d : Diagnostic) (source : String) (front head tail behind : List Char) (c : Char),
      source.toList = front ++ ((head ++ c :: tail) ++ behind) →
      IsLine front (head ++ c :: tail) behind →
      byteLength front + byteLength head = d.span.start →
      (∃ x ∈ head ++ [c], Diagnostic.isIndent x = false) →
      (∃ x ∈ c :: tail, isBlank x = false) →
      ∃ after under,
        Points (d.render source).toList (printedBefore (1 + front.count '\n') head) c after under ∧
        under.length = (printedBefore (1 + front.count '\n') head).length := by
  intro hall
  obtain ⟨after, under, ⟨⟨opening, houtput⟩, -, -⟩, hcolumn⟩ :=
    hall behindAccent "\"é\"#" [] ['"', 'é', '"'] [] [] '#' rfl isLine_behindAccent (by decide)
      ⟨'#', by simp, by decide⟩ ⟨'#', by simp, by decide⟩
  have hlength : under.length = 7 := hcolumn.trans (by decide)
  -- seen from the end, the line of the caret would begin too early
  have hspace : (behindAccent.render "\"é\"#").toList.reverse[9]? = some ' ' := by decide +kernel
  have hnewline : (behindAccent.render "\"é\"#").toList.reverse[9]? = some '\n' := by
    rw [houtput]
    simp [hlength]
  rw [hspace] at hnewline
  exact absurd (Option.some.inj hnewline) (by decide)

end MgLang
