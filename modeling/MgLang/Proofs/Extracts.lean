import MgLang.Proofs.Parentheses
import MgLang.Proofs.Scanning
import MgLang.Proofs.Spots
/-!
# Parts of a text

Tokens that stand in a row in a text are the tokens of the part of the text that they reach over:
`tokenize_extract` says so of any row of tokens in a text that stands somewhere in a file
(`Extract`). A scan of the whole text is cut in front of the first of them and behind the last
(`Scan.split`), and what is cut off behind does not matter.
-/

namespace MgLang

namespace Pieces

theorem text_append (ps qs : Pieces) : Pieces.text (ps ++ qs) = ps.text ++ qs.text :=
  List.flatMap_append

theorem tokens_append (file : String) (pos : Nat) (ps qs : Pieces) :
    Pieces.tokens file pos (ps ++ qs) =
      ps.tokens file pos ++ qs.tokens file (pos + byteLength ps.text) := by
  induction ps generalizing pos with
  | nil => simp [Pieces.tokens, Pieces.text]
  | cons p ps ih =>
    obtain ⟨p, piece⟩ := p
    simp [Pieces.tokens, Pieces.text, ih, Nat.add_assoc]

theorem tokens_shift (file : String) (pos k : Nat) (ps : Pieces) :
    (ps.tokens file pos).map (·.shift k) = ps.tokens file (pos + k) := by
  induction ps generalizing pos with
  | nil => rfl
  | cons p ps ih =>
    obtain ⟨p, piece⟩ := p
    have htoken : (p.tokenAt? file pos piece).toList.map (·.shift k) =
        (p.tokenAt? file (pos + k) piece).toList := by
      unfold Pattern.tokenAt?
      cases p.token? piece with
      | none => rfl
      | some t => simp [Token.shift, Span.shift, Nat.add_right_comm]
    rw [Pieces.tokens, Pieces.tokens, List.map_append, htoken, ih, Nat.add_right_comm]

/-- The piece that a token among others stands for. -/
theorem exists_of_tokens_eq {file : String} {pos : Nat} {ps : Pieces} {as bs : List Token}
    {t : Token} (h : ps.tokens file pos = as ++ t :: bs) :
    ∃ (front back : Pieces) (p : Pattern) (piece : List Char), ps = front ++ (p, piece) :: back ∧
      front.tokens file pos = as ∧
      p.tokenAt? file (pos + byteLength front.text) piece = some t ∧
      back.tokens file (pos + byteLength front.text + byteLength piece) = bs := by
  induction ps generalizing pos as with
  | nil => cases as <;> cases h
  | cons q ps ih =>
    obtain ⟨q, piece⟩ := q
    have hskip {as' : List Token} (has : (q.tokenAt? file pos piece).toList ++ as' = as)
        (h : Pieces.tokens file (pos + byteLength piece) ps = as' ++ t :: bs) :
        ∃ (front back : Pieces) (p : Pattern) (piece' : List Char),
          (q, piece) :: ps = front ++ (p, piece') :: back ∧ front.tokens file pos = as ∧
          p.tokenAt? file (pos + byteLength front.text) piece' = some t ∧
          back.tokens file (pos + byteLength front.text + byteLength piece') = bs := by
      obtain ⟨front, back, p, piece', rfl, hfront, htoken, hback⟩ := ih h
      have hbytes : pos + byteLength (Pieces.text ((q, piece) :: front)) =
          pos + byteLength piece + byteLength front.text := by
        simp [Pieces.text, Nat.add_assoc]
      refine ⟨(q, piece) :: front, back, p, piece', rfl, ?_, ?_, ?_⟩
      · rw [Pieces.tokens, hfront, has]
      · rw [hbytes, htoken]
      · rw [hbytes, hback]
    rw [Pieces.tokens] at h
    cases htoken : q.tokenAt? file pos piece with
    | none =>
      rw [htoken] at h hskip
      exact hskip rfl h
    | some x =>
      rw [htoken] at h hskip
      cases as with
      | cons a as =>
        obtain ⟨rfl, hrest⟩ := List.cons.inj h
        exact hskip rfl hrest
      | nil =>
        obtain ⟨rfl, hrest⟩ := List.cons.inj h
        refine ⟨[], ps, q, piece, rfl, rfl, htoken, ?_⟩
        simpa [Pieces.text] using hrest

end Pieces

namespace Scan

variable {file : String} {text behind : List Char} {ps qs : Pieces}

/-- A scan can be cut between any two pieces. -/
theorem split (h : Scan behind text (ps ++ qs)) :
    ∃ mid, Scan mid text ps ∧ Scan behind mid qs := by
  induction ps generalizing text with
  | nil => exact ⟨text, .here, h⟩
  | cons p ps ih =>
    cases h with
    | piece hfirst hrest =>
      obtain ⟨mid, hleft, hright⟩ := ih hrest
      exact ⟨mid, .piece hfirst hleft, hright⟩

theorem exists_of_tokenize {s : TokenStream} (h : tokenize file text = .ok s) :
    ∃ ps, Scan [] text ps ∧ s = ⟨file, ps.tokens file 0, byteLength text⟩ := by
  obtain ⟨behind, ps, hscan, hstop⟩ := exists_stop text
  cases behind with
  | nil =>
    rw [hscan.tokenize_eq_ok] at h
    cases h
    exact ⟨ps, hscan, rfl⟩
  | cons c behind =>
    rw [hscan.tokenize_eq_error hstop] at h
    cases h

/-- Pieces in the middle of a scan are scanned alike where they stand alone. -/
theorem middle {before after : Pieces} (h : Scan [] text (before ++ (ps ++ after))) :
    text = before.text ++ (ps.text ++ after.text) ∧ Scan [] ps.text ps := by
  have htext := h.text_eq
  rw [List.append_nil, Pieces.text_append, Pieces.text_append] at htext
  obtain ⟨mid, -, hright⟩ := h.split
  obtain ⟨rest, hps, -⟩ := hright.split
  exact ⟨htext, hps.cut⟩

end Scan

theorem Pattern.span_of_tokenAt? {file : String} {pos : Nat} {p : Pattern} {piece : List Char}
    {t : Token} (h : p.tokenAt? file pos piece = some t) :
    t.span = ⟨file, pos, pos + byteLength piece⟩ := by
  obtain ⟨x, -, rfl⟩ := Option.map_eq_some_iff.1 h
  rfl

/-- The pieces of a row of tokens begin with that of the first and end with that of the last. -/
theorem Pieces.exists_of_spanOf {file : String} {ps : Pieces} {as core bs : List Token} {pos : Nat}
    {span : Span} (h : ps.tokens file pos = as ++ (core ++ bs)) (hspan : SpanOf file core span) :
    ∃ front mid back : Pieces, ps = front ++ (mid ++ back) ∧
      mid.tokens file (pos + byteLength front.text) = core ∧
      span = ⟨file, pos + byteLength front.text,
        pos + byteLength front.text + byteLength mid.text⟩ := by
  obtain ⟨t, u, ht, hu, rfl⟩ := hspan
  obtain ⟨core, rfl⟩ : ∃ core', core = t :: core' := by
    cases core with
    | nil => cases ht
    | cons x xs => exact ⟨xs, by rw [Option.some.inj ht]⟩
  obtain ⟨front, rest, p, piece, rfl, -, htoken, hrest⟩ := exists_of_tokens_eq h
  have htspan := Pattern.span_of_tokenAt? htoken
  rcases List.eq_nil_or_concat core with rfl | ⟨inner, v, rfl⟩
  · cases hu
    refine ⟨front, [(p, piece)], rest, by simp, ?_, ?_⟩
    · simp [Pieces.tokens, htoken]
    · simp [Pieces.text, htspan]
  · have hv : v = u := by simpa [List.getLast?_cons] using hu
    subst hv
    have hinner : rest.tokens file (pos + byteLength front.text + byteLength piece) =
        inner ++ v :: bs := by
      rw [hrest, List.concat_eq_append]
      simp
    obtain ⟨gap, back, q, piece', rfl, hgap, hvtoken, -⟩ := exists_of_tokens_eq hinner
    have hvspan := Pattern.span_of_tokenAt? hvtoken
    refine ⟨front, (p, piece) :: (gap ++ [(q, piece')]), back, by simp, ?_, ?_⟩
    · simp [Pieces.tokens, Pieces.tokens_append, htoken, hgap, hvtoken]
    · rw [htspan, hvspan]
      simp [Pieces.text, Nat.add_assoc]

/-- The tokens stand in a row in a text that stands somewhere in the file. -/
def Extract (file : String) (text : List Char) (ts : List Token) : Prop :=
  ∃ before cs behind s as bs, text = before ++ (cs ++ behind) ∧ tokenize file cs = .ok s ∧
    (s.shift (byteLength before)).tokens = as ++ (ts ++ bs)

/-- **Tokens in a row are the tokens of the part of the text that they reach over.** -/
theorem tokenize_extract {file : String} {text : List Char} {ts : List Token} {span : Span}
    (h : Extract file text ts) (hspan : SpanOf file ts span) :
    ∃ piece behind s, Slice text span.start span.stop piece behind ∧
      tokenize file piece = .ok s ∧ s.file = file ∧ (s.shift span.start).tokens = ts := by
  obtain ⟨before, cs, behind, s, as, bs, rfl, hs, htokens⟩ := h
  obtain ⟨ps, hscan, rfl⟩ := Scan.exists_of_tokenize hs
  have htokens : ps.tokens file (0 + byteLength before) = as ++ (ts ++ bs) := by
    rw [← Pieces.tokens_shift]
    exact htokens
  obtain ⟨front, mid, back, rfl, hmid, rfl⟩ := Pieces.exists_of_spanOf htokens hspan
  obtain ⟨rfl, hcut⟩ := hscan.middle
  refine ⟨mid.text, back.text ++ behind, ⟨file, mid.tokens file 0, byteLength mid.text⟩, ?_,
    hcut.tokenize_eq_ok, rfl, ?_⟩
  · refine ⟨before ++ front.text, by simp, ?_, rfl⟩
    rw [byteLength_append, Nat.zero_add]
  · show (mid.tokens file 0).map _ = ts
    rw [Pieces.tokens_shift, ← hmid, Nat.zero_add, Nat.zero_add]

end MgLang
