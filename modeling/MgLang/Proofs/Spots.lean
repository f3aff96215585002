import MgLang.Proofs.Lossless
/-!
# Where the names in a text stand

`identifiersIn` lists the identifiers among the tokens of a text, those in the holes of interpolated
strings included. Each stands where its span says and no two of them touch (`placed_of_tokenize`):
a word goes on as long as it can, so between two words there is a character that belongs to none
(`Cut.start_lt_of_identifier`), and a hole is cut off from what is around it by the braces and the
quotes (`Piece.holes_split`).
-/

namespace MgLang

/-- A name and where it stands. -/
structure Spot where
  name : String
  span : Span
deriving DecidableEq, Repr

/-! ### Names that are written -/

mutual

/-- The identifiers among tokens of the file, in their order. -/
def identifiersIn (file : String) : List Token → List Spot
  | [] => []
  | t :: ts => t.identifiers file ++ identifiersIn file ts
termination_by ts => 4 * Token.totalWeight ts + 2
decreasing_by
  · simp only [Token.totalWeight_cons]
    omega
  · have := t.weight_pos
    simp only [Token.totalWeight_cons]
    omega

/-- The identifier that a token is, or those in its holes. The body of an interpolated string starts
after the dollar sign and the quote. -/
def Token.identifiers (file : String) (t : Token) : List Spot :=
  if t.kind = .identifier then [⟨t.value, t.span⟩]
  else if t.kind = .interpolated then
    identifiersInPieces file (t.span.start + 2) (Piece.split 0 t.value.toList)
  else []
termination_by 4 * t.weight + 1
decreasing_by
  next h =>
  have := Piece.totalWeight_split_le 0 t.value.toList
  simp only [String.length_toList] at this
  simp only [Token.weight, h, if_true]
  omega

/-- The identifiers in the holes among pieces of a body that starts at byte `start` of the file. -/
def identifiersInPieces (file : String) (start : Nat) : List Piece → List Spot
  | [] => []
  | p :: ps => p.identifiers file start ++ identifiersInPieces file start ps
termination_by ps => 4 * Piece.totalWeight ps + 3
decreasing_by
  · simp only [Piece.totalWeight_cons]
    omega
  · cases p <;> simp only [Piece.totalWeight_cons, Piece.weight] <;> omega

/-- The identifiers in a piece, if it is a hole. -/
def Piece.identifiers (file : String) (start : Nat) (p : Piece) : List Spot :=
  match p with
  | .hole offset source =>
    match _lexed : tokenize file source with
    | .ok s => identifiersIn file (s.shift (start + offset)).tokens
    | .error _ => []
  | .text _ | .unclosed => []
termination_by 4 * p.weight + 2
decreasing_by
  have := weight_le_length _lexed
  have h : Token.totalWeight (s.shift (start + offset)).tokens = s.weight :=
    Token.totalWeight_map_shift _ _
  simp only [h, Piece.weight]
  omega

end

theorem Token.identifiers_of_identifier {t : Token} (file : String) (h : t.kind = .identifier) :
    t.identifiers file = [⟨t.value, t.span⟩] := by
  rw [identifiers, if_pos h]

theorem Token.identifiers_of_interpolated {t : Token} (file : String) (h : t.kind = .interpolated) :
    t.identifiers file =
      identifiersInPieces file (t.span.start + 2) (Piece.split 0 t.value.toList) := by
  rw [identifiers, if_neg (by rw [h]; decide), if_pos h]

theorem Piece.identifiers_of_hole {file : String} {source : List Char} {s : TokenStream}
    (start offset : Nat) (h : tokenize file source = .ok s) :
    (Piece.hole offset source).identifiers file start =
      identifiersIn file (s.shift (start + offset)).tokens := by
  unfold identifiers
  split
  · next s' hs =>
    rw [h] at hs
    cases hs
    rfl
  · next hs =>
    rw [h] at hs
    cases hs

theorem identifiersIn_eq_flatMap (file : String) (ts : List Token) :
    identifiersIn file ts = ts.flatMap (·.identifiers file) := by
  induction ts with
  | nil => rw [identifiersIn, List.flatMap_nil]
  | cons t ts ih => rw [identifiersIn, ih, List.flatMap_cons]

theorem identifiersIn_append (file : String) (ts us : List Token) :
    identifiersIn file (ts ++ us) = identifiersIn file ts ++ identifiersIn file us := by
  simp only [identifiersIn_eq_flatMap, List.flatMap_append]

theorem identifiersInPieces_eq_flatMap (file : String) (start : Nat) (ps : List Piece) :
    identifiersInPieces file start ps = ps.flatMap (·.identifiers file start) := by
  induction ps with
  | nil => rw [identifiersInPieces, List.flatMap_nil]
  | cons p ps ih => rw [identifiersInPieces, ih, List.flatMap_cons]

/-! ### Words that do not touch -/

namespace Pattern

theorem isWordChar_of_isWordStart {c : Char} (h : isWordStart c = true) : isWordChar c = true := by
  unfold isWordStart at h
  unfold isWordChar Char.isAlphanum
  rcases Bool.or_eq_true_iff.1 h with h | h <;> simp [h]

/-- A word goes on as long as it can. -/
theorem head?_drop_of_word {cs : List Char} {n : Nat} (h : first? cs = some (.word, n)) :
    ∀ c ∈ (cs.drop n).head?, isWordChar c = false := by
  obtain ⟨q, -, hn⟩ := List.exists_of_findSome?_eq_some h
  obtain ⟨m, hm, he⟩ := Option.map_eq_some_iff.1 hn
  cases he
  cases cs with
  | nil => cases hm
  | cons c r =>
    simp only [munch?, wordLength?] at hm
    split at hm
    · obtain ⟨as, behind, rfl, hrun, -, hend⟩ := exists_run isWordChar r
      rw [hrun, Option.some.injEq] at hm
      rw [← hm, Nat.add_comm, List.drop_succ_cons, List.drop_left]
      exact hend
    · cases hm

/-- Only a word is an identifier. -/
theorem eq_word_of_token? {p : Pattern} {piece : List Char} {value : String} (hp : p ∈ all)
    (h : p.token? piece = some (.identifier, value)) : p = .word := by
  cases p with
  | word => rfl
  | mark kind text =>
    simp only [token?, Option.some.injEq, Prod.mk.injEq] at h
    rw [h.1] at hp
    exact absurd hp (by simp [all])
  | _ => simp [token?] at h

end Pattern

/-- An identifier begins as a word does, and its value is its text. -/
theorem Spelled.identifier {piece : List Char} {value : String}
    (h : Spelled piece .identifier value) :
    value = .ofList piece ∧ ∃ c r, piece = c :: r ∧ Pattern.isWordChar c = true := by
  cases h with
  | word hstart => exact ⟨rfl, _, _, rfl, Pattern.isWordChar_of_isWordStart hstart⟩
  | mark h => exact absurd h (by simp [Pattern.all])

/-- The value of an interpolated string is what stands between its quotes. -/
theorem Spelled.interpolated_body {piece : List Char} {value : String}
    (h : Spelled piece .interpolated value) :
    piece = '$' :: '"' :: (value.toList ++ ['"']) := by
  cases h with
  | word _ _ hkind =>
    exact absurd (TokenKind.ofWord_iff.1 hkind).symm (TokenKind.ofWord_ne_interpolated _)
  | interpolated => rw [String.toList_ofList]
  | mark h => exact absurd h (by simp [Pattern.all])

section

variable {file : String} {behind cs : List Char} {start : Nat} {tokens : List Token}

/-- Where no word can go on, no identifier begins at once. -/
theorem Cut.start_lt_of_identifier (h : Cut file behind start cs tokens)
    (hend : ∀ c ∈ cs.head?, Pattern.isWordChar c = false) :
    ∀ t ∈ tokens, t.kind = .identifier → start < t.span.start := by
  cases h with
  | last => exact List.forall_mem_nil _
  | @token _ gap piece rest t tokens hgap hpiece hspan hrest =>
    have hstart : t.span.start = start + byteLength gap := by rw [hspan]
    have hstop : t.span.stop = start + byteLength (gap ++ piece) := by rw [hspan]
    have hpos := byteLength_pos hpiece.ne_nil
    rw [byteLength_append] at hstop
    refine List.forall_mem_cons.2 ⟨fun hk => ?_, fun x hx _ => ?_⟩
    · rw [hk] at hpiece
      obtain ⟨-, c, r, rfl, hc⟩ := hpiece.identifier
      cases gap with
      | nil => simp [hend c rfl] at hc
      | cons d gap =>
        have := byteLength_pos (List.cons_ne_nil d gap)
        omega
    · have := (hrest.ordered.1 x hx).1
      omega

/-- Two identifiers do not touch. -/
theorem apart_of_tokensFrom (h : tokensFrom file start cs = .ok tokens) :
    tokens.Pairwise fun a b =>
      a.kind = .identifier → b.kind = .identifier → a.span.stop < b.span.start := by
  fun_induction tokensFrom file start cs generalizing tokens with
  | case1 =>
    cases h
    exact .nil
  | case2 => contradiction
  | case3 => contradiction
  | case4 start c r p n hf piece stop rest hrest ht =>
    rename_i ih
    cases h
    exact ih hrest
  | case5 start c r p n hf piece stop rest hrest kind value ht =>
    rename_i ih
    cases h
    refine List.pairwise_cons.2 ⟨fun t hm hk => ?_, ih hrest⟩
    have hk : kind = .identifier := hk
    subst hk
    have hp := Pattern.eq_word_of_token? (Pattern.mem_all_of_first? hf) ht
    subst hp
    exact (cut_of_tokensFrom hrest).start_lt_of_identifier (Pattern.head?_drop_of_word hf) t hm

end

/-! ### Holes -/

namespace Piece

/-- The first closing brace ends a hole. -/
theorem eq_of_closed {r rest : List Char} {b : Char}
    (h : r.drop (r.takeWhile (· != '\x7d')).length = b :: rest) :
    r = r.takeWhile (· != '\x7d') ++ '\x7d' :: rest := by
  have hr : r = r.takeWhile (· != '\x7d') ++ r.dropWhile (· != '\x7d') :=
    List.takeWhile_append_dropWhile.symm
  have hdrop : r.dropWhile (· != '\x7d') = b :: rest :=
    ((congrArg _ hr).trans List.drop_left).symm.trans h
  have hhead := List.head?_dropWhile_not (· != '\x7d') r
  rw [hdrop] at hr hhead
  have hb : b = '\x7d' := by simpa using hhead
  exact hb ▸ hr

/-- A hole is what stands between two braces, and the next one begins behind the second. -/
theorem holes_split (offset : Nat) (body : List Char) :
    (∀ p ∈ split offset body, ∀ o source, p = hole o source →
      ∃ front behind, body = front ++ '\x7b' :: (source ++ '\x7d' :: behind) ∧
        o = offset + byteLength front + 1) ∧
    (split offset body).Pairwise fun p q => ∀ o source o' source', p = hole o source →
      q = hole o' source' → o + byteLength source < o' := by
  fun_induction split offset body with
  | case1 => exact ⟨List.forall_mem_nil _, .nil⟩
  | case2 offset r source h =>
    refine ⟨List.forall_mem_singleton.2 ?_, List.pairwise_singleton _ _⟩
    rintro o source ⟨⟩
  | case3 offset r source b rest hr ih =>
    obtain ⟨hin, hordered⟩ := ih
    have hr' : r = source ++ '\x7d' :: rest := eq_of_closed hr
    refine ⟨List.forall_mem_cons.2 ⟨?_, ?_⟩, List.pairwise_cons.2 ⟨?_, hordered⟩⟩
    · rintro o source ⟨⟩
      exact ⟨[], rest, congrArg _ hr', rfl⟩
    · intro p hp o source' he
      obtain ⟨front, behind, hbody, ho⟩ := hin p hp o source' he
      refine ⟨'\x7b' :: (source ++ '\x7d' :: front), behind, ?_, ?_⟩
      · rw [hr', hbody, List.cons_append, List.append_assoc]
        rfl
      · have hopen : '\x7b'.utf8Size = 1 := rfl
        have hclose : '\x7d'.utf8Size = 1 := rfl
        rw [ho]
        simp only [byteLength_cons, byteLength_append, hopen, hclose]
        omega
    · rintro q hq o source' o' source'' ⟨⟩ he
      obtain ⟨front, -, -, ho⟩ := hin q hq o' source'' he
      omega
  | case4 offset c r hc raw ih =>
    obtain ⟨hin, hordered⟩ := ih
    refine ⟨List.forall_mem_cons.2 ⟨?_, ?_⟩, List.pairwise_cons.2 ⟨?_, hordered⟩⟩
    · rintro o source ⟨⟩
    · intro p hp o source he
      obtain ⟨front, behind, hbody, ho⟩ := hin p hp o source he
      refine ⟨raw ++ front, behind, ?_, ?_⟩
      · rw [List.append_assoc, ← hbody, List.take_append_drop]
      · rw [ho, byteLength_append]
        omega
    · rintro q - o source o' source' ⟨⟩

end Piece

/-! ### Where names stand -/

theorem file_of_tokenize {file : String} {cs : List Char} {s : TokenStream}
    (h : tokenize file cs = .ok s) : s.file = file := by
  unfold tokenize at h
  split at h
  · cases h
  · cases h
    rfl

/-- In the text stands the name where the spot says, between bytes `lo` and `hi`. -/
structure Spot.Stands (file : String) (text : List Char) (lo hi : Nat) (x : Spot) : Prop where
  file : x.span.file = file
  lo_le : lo ≤ x.span.start
  lt : x.span.start < x.span.stop
  le_hi : x.span.stop ≤ hi
  slice : ∃ behind, Slice text x.span.start x.span.stop x.name.toList behind

/-- Names that stand between bytes `lo` and `hi` of a text, one behind the other, with something
between each two of them. -/
structure Placed (file : String) (text : List Char) (lo hi : Nat) (xs : List Spot) : Prop where
  stands : ∀ x ∈ xs, x.Stands file text lo hi
  words : ∀ x ∈ xs, Spelled x.name.toList .identifier x.name
  apart : xs.Pairwise fun x y => x.span.stop < y.span.start

namespace Placed

variable {file : String} {text : List Char} {lo hi : Nat}

theorem nil : Placed file text lo hi [] :=
  ⟨List.forall_mem_nil _, List.forall_mem_nil _, .nil⟩

theorem mono {lo' hi' : Nat} {xs : List Spot} (h : Placed file text lo hi xs) (hlo : lo' ≤ lo)
    (hhi : hi ≤ hi') : Placed file text lo' hi' xs := by
  refine ⟨fun x hx => ?_, h.words, h.apart⟩
  have hs := h.stands x hx
  exact ⟨hs.file, Nat.le_trans hlo hs.lo_le, hs.lt, Nat.le_trans hs.le_hi hhi, hs.slice⟩

/-- Names of several things, each of which has a place of its own. -/
theorem flatMap {α : Type} {as : List α} {f : α → List Spot} (start stop : α → Nat)
    (hf : ∀ a ∈ as, Placed file text (start a) (stop a) (f a))
    (hin : ∀ a ∈ as, f a ≠ [] → lo ≤ start a ∧ stop a ≤ hi)
    (hapart : as.Pairwise fun a b => f a ≠ [] → f b ≠ [] → stop a < start b) :
    Placed file text lo hi (as.flatMap f) := by
  constructor
  · intro x hx
    obtain ⟨a, ha, hx⟩ := List.mem_flatMap.1 hx
    obtain ⟨hlo, hhi⟩ := hin a ha (List.ne_nil_of_mem hx)
    exact ((hf a ha).mono hlo hhi).stands x hx
  · intro x hx
    obtain ⟨a, ha, hx⟩ := List.mem_flatMap.1 hx
    exact (hf a ha).words x hx
  · refine List.pairwise_flatMap.2 ⟨fun a ha => (hf a ha).apart, ?_⟩
    refine hapart.imp_of_mem fun {a b} ha hb h x hx y hy => ?_
    have hbetween := h (List.ne_nil_of_mem hx) (List.ne_nil_of_mem hy)
    have hstop := ((hf a ha).stands x hx).le_hi
    have hstart := ((hf b hb).stands y hy).lo_le
    omega

end Placed

section

variable {file : String} {text behind cs : List Char}

/-- A place in a text is a place in any text that it is part of. -/
theorem Slice.within {before piece after : List Char} {start stop : Nat}
    (h : Slice cs start stop piece after) :
    Slice (before ++ (cs ++ behind)) (start + byteLength before) (stop + byteLength before) piece
      (after ++ behind) := by
  obtain ⟨front, rfl, rfl, rfl⟩ := h
  refine ⟨before ++ front, by simp, ?_, by omega⟩
  rw [byteLength_append, Nat.add_comm]

/-- Where the text of a hole starts and ends, if the pieces are counted from byte `start`. -/
def Piece.bounds (start : Nat) : Piece → Nat × Nat
  | .hole offset source => (start + offset, start + offset + byteLength source)
  | .text _ | .unclosed => (start, start)

/-- Names stand where they say in every part of the text with fewer than `n` characters. -/
def PlacedBelow (file : String) (text : List Char) (n : Nat) : Prop :=
  ∀ before cs behind s, cs.length < n → tokenize file cs = .ok s →
    text = before ++ (cs ++ behind) →
    Placed file text (byteLength before) (byteLength before + byteLength cs)
      (identifiersIn file (s.shift (byteLength before)).tokens)

/-- Only a hole has names in it. -/
theorem Piece.exists_of_identifiers {start : Nat} {p : Piece} (h : p.identifiers file start ≠ []) :
    ∃ offset source, p = .hole offset source := by
  cases p with
  | hole offset source => exact ⟨offset, source, rfl⟩
  | text raw => exact absurd (by rw [Piece.identifiers]) h
  | unclosed => exact absurd (by rw [Piece.identifiers]) h

/-- The names in holes are between the ends of the body. -/
theorem Piece.placed_of_split {n : Nat} {front body : List Char} (ih : PlacedBelow file text n)
    (hbody : body.length ≤ n) (htext : text = front ++ (body ++ behind)) :
    Placed file text (byteLength front + 1) (byteLength front + byteLength body - 1)
      (identifiersInPieces file (byteLength front) (Piece.split 0 body)) := by
  obtain ⟨hholes, hordered⟩ := Piece.holes_split 0 body
  have hopen : '\x7b'.utf8Size = 1 := rfl
  have hclose : '\x7d'.utf8Size = 1 := rfl
  rw [identifiersInPieces_eq_flatMap]
  refine Placed.flatMap (fun p => (p.bounds (byteLength front)).1)
    (fun p => (p.bounds (byteLength front)).2) ?_ ?_ ?_
  · intro p hp
    unfold Piece.identifiers
    cases p with
    | hole offset source =>
      obtain ⟨before, after, rfl, rfl⟩ := hholes _ hp offset source rfl
      dsimp only
      split
      · next s hs =>
        have hlt : source.length < n := by
          simp only [List.length_append, List.length_cons] at hbody
          omega
        have h := ih (front ++ (before ++ ['\x7b'])) source ('\x7d' :: after ++ behind) s hlt hs
          (by simp [htext])
        simpa [hopen, Piece.bounds, Nat.add_assoc] using h
      · exact .nil
    | text raw => exact .nil
    | unclosed => exact .nil
  · intro p hp hne
    obtain ⟨offset, source, rfl⟩ := Piece.exists_of_identifiers hne
    obtain ⟨before, after, rfl, rfl⟩ := hholes _ hp offset source rfl
    simp only [Piece.bounds, byteLength_append, byteLength_cons, hopen, hclose]
    omega
  · refine hordered.imp fun {p q} h hp hq => ?_
    obtain ⟨offset, source, rfl⟩ := Piece.exists_of_identifiers hp
    obtain ⟨offset', source', rfl⟩ := Piece.exists_of_identifiers hq
    have hlt := h offset source offset' source' rfl rfl
    simp only [Piece.bounds]
    omega

/-- Where the names that a token holds can start and end: an identifier fills its token, and holes
are inside. -/
def Token.bounds (t : Token) : Nat × Nat :=
  if t.kind = .identifier then (t.span.start, t.span.stop) else (t.span.start + 1, t.span.stop - 1)

theorem Token.start_le_bounds (t : Token) : t.span.start ≤ t.bounds.1 := by
  unfold bounds
  split
  · exact Nat.le_refl _
  · exact Nat.le_succ _

theorem Token.bounds_le_stop (t : Token) : t.bounds.2 ≤ t.span.stop := by
  unfold bounds
  split
  · exact Nat.le_refl _
  · exact Nat.sub_le _ _

/-- Something is between the names of two tokens, if something is between two identifiers. -/
theorem Token.bounds_lt {a b : Token} (hpos : 0 < a.span.stop) (hle : a.span.stop ≤ b.span.start)
    (hwords : a.kind = .identifier → b.kind = .identifier → a.span.stop < b.span.start) :
    a.bounds.2 < b.bounds.1 := by
  have ha := a.bounds_le_stop
  have hb := b.start_le_bounds
  by_cases hka : a.kind = .identifier
  · by_cases hkb : b.kind = .identifier
    · have := hwords hka hkb
      omega
    · have hb' : b.bounds.1 = b.span.start + 1 := by rw [bounds, if_neg hkb]
      omega
  · have ha' : a.bounds.2 = a.span.stop - 1 := by rw [bounds, if_neg hka]
    omega

/-- The names that a token holds are inside it. -/
theorem Token.placed_identifiers {n : Nat} {t : Token} {piece : List Char}
    (ih : PlacedBelow file text n)
    (hpiece : piece.length ≤ n) (hword : Spelled piece t.kind t.value) (hfile : t.span.file = file)
    (hslice : Slice text t.span.start t.span.stop piece behind) :
    Placed file text t.bounds.1 t.bounds.2 (t.identifiers file) := by
  have hpos := byteLength_pos hword.ne_nil
  obtain ⟨front, htext, hstart, hstop⟩ := hslice
  unfold Token.identifiers Token.bounds
  split
  · next hk =>
    rw [hk] at hword
    have hvalue : t.value.toList = piece := by rw [hword.identifier.1, String.toList_ofList]
    refine ⟨List.forall_mem_singleton.2 ?_, List.forall_mem_singleton.2 ?_,
      List.pairwise_singleton _ _⟩
    · refine ⟨hfile, Nat.le_refl _, ?_, Nat.le_refl _, behind, ?_⟩
      · show t.span.start < t.span.stop
        omega
      · exact ⟨front, hvalue.symm ▸ htext, hstart, hvalue.symm ▸ hstop⟩
    · exact hvalue.symm ▸ hword
  · split
    · next hk =>
      rw [hk] at hword
      have hbody := hword.interpolated_body
      have hmarks : '$'.utf8Size = 1 ∧ '"'.utf8Size = 1 := ⟨rfl, rfl⟩
      have hfront : byteLength (front ++ ['$', '"']) = t.span.start + 2 := by
        simp [hstart, hmarks]
      rw [hbody] at hstop hpiece htext
      simp only [byteLength_cons, byteLength_append, byteLength_nil, hmarks] at hstop
      simp only [List.length_cons, List.length_append, List.length_nil] at hpiece
      have hlength : t.value.toList.length ≤ n := by omega
      have hsplit : text = front ++ ['$', '"'] ++ (t.value.toList ++ '"' :: behind) := by
        simp [htext]
      have h := Piece.placed_of_split ih hlength hsplit
      rw [hfront] at h
      refine h.mono ?_ ?_
      · show t.span.start + 1 ≤ _
        omega
      · show _ ≤ t.span.stop - 1
        omega
    · exact .nil

end

/-- **Names stand where they say, and no two touch**: those in the tokens of a text that stands
somewhere in a file. -/
theorem placed_of_tokenize {file : String} {text before cs behind : List Char} {s : TokenStream}
    (hs : tokenize file cs = .ok s) (htext : text = before ++ (cs ++ behind)) :
    Placed file text (byteLength before) (byteLength before + byteLength cs)
      (identifiersIn file (s.shift (byteLength before)).tokens) := by
  unfold tokenize at hs
  split at hs
  · cases hs
  next tokens htokens =>
  cases hs
  have hcut := cut_of_tokensFrom htokens
  obtain ⟨hwithin, hordered⟩ := hcut.ordered
  have hslices := hcut.slices [] rfl
  rw [List.nil_append, List.append_nil] at hslices
  rw [identifiersIn_eq_flatMap]
  refine Placed.flatMap (fun t => t.bounds.1) (fun t => t.bounds.2) ?_ ?_ ?_
  · refine List.forall_mem_map.2 fun t ht => ?_
    obtain ⟨hfile, -, piece, after, hslice, hword⟩ := hslices t ht
    have hlength : piece.length ≤ cs.length := by
      obtain ⟨front, rfl, -, -⟩ := hslice
      simp only [List.length_append]
      omega
    exact Token.placed_identifiers (fun _ _ _ _ hlt hs' htext' => placed_of_tokenize hs' htext')
      hlength hword hfile (htext ▸ hslice.within)
  · refine List.forall_mem_map.2 fun t ht _ => ?_
    have hin := hwithin t ht
    have hstart : t.span.start + byteLength before ≤ (t.shift (byteLength before)).bounds.1 :=
      (t.shift _).start_le_bounds
    have hstop : (t.shift (byteLength before)).bounds.2 ≤ t.span.stop + byteLength before :=
      (t.shift _).bounds_le_stop
    exact ⟨by omega, by omega⟩
  · refine List.pairwise_map.2 ?_
    refine (hordered.and (apart_of_tokensFrom htokens)).imp_of_mem fun {a b} ha _ h _ _ => ?_
    have hlt := (hslices a ha).2.1
    refine Token.bounds_lt ?_ ?_ fun hka hkb => ?_
    · simp only [Token.shift, Span.stop_shift]
      omega
    · exact Nat.add_le_add_right h.1 _
    · exact Nat.add_lt_add_right (h.2 hka hkb) _
termination_by cs.length

end MgLang
