import MgLang.Proofs.Balance
import MgLang.Proofs.Leaves
/-!
# Every expression is read again

A tree has a place for every expression, and the text there is meant to be the expression.
`parseSource_reread` says for which expressions it is one: those whose span cuts no pair of
parentheses. Each of these is read again, places included, from the text under its span, and for the
others that text is no expression at all. `product_cut` is one of them.

The walk through the grammar says of each reader that all expressions in what it reads are read
again (`AllReread`). Operands and what follows them are read in a loop, and what is known of the
expression that the loop has so far is `Begun`.
-/

namespace MgLang

open Step (Runs Keeps)
open Cursor (keeps_token keeps_last keeps_open keeps_close keeps_lastClose)

variable {file : String} {text : List Char}

/-- The place reaches over two tokens or more. -/
def Wide (file : String) (text : List Char) (span : Span) : Prop :=
  ∃ ts, Extract file text ts ∧ SpanOf file ts span ∧ 2 ≤ ts.length

/-- What a reader has run over reaches over as many tokens as it is. -/
theorem Cursor.On.wide {c n : Cursor} {ts : List Token} (hon : c.On file text) (hran : c.Ran ts n)
    (h : 2 ≤ ts.length) : Wide file text (n.spanFrom c.start) := by
  obtain ⟨t, us, rfl⟩ : ∃ t us, ts = t :: us := List.exists_cons_of_length_pos (by omega)
  have hstart : c.start = t.span.start := by
    rw [Cursor.start, Cursor.current, hran.rest]
    rfl
  refine ⟨t :: us, hon.extract (hran.rest.trans (List.nil_append _).symm), ?_, h⟩
  rw [hstart, ← hon.here]
  exact hran.spanOf

/-- All of the expressions are read again, and marks with expressions inside them are wide. -/
structure AllReread (file : String) (text : List Char) (es : List Expr) (ms : List Mark) :
    Prop where
  exprs : ∀ e ∈ es, Reread file text e
  marks : ∀ span, .whole span ∈ ms → Wide file text span

namespace AllReread

variable {es es' : List Expr} {ms ms' : List Mark}

theorem nil : AllReread file text [] [] :=
  ⟨List.forall_mem_nil _, fun _ h => nomatch h⟩

theorem append (h : AllReread file text es ms) (h' : AllReread file text es' ms') :
    AllReread file text (es ++ es') (ms ++ ms') :=
  ⟨List.forall_mem_append.2 ⟨h.exprs, h'.exprs⟩,
    fun span hs => (List.mem_append.1 hs).elim (h.marks span) (h'.marks span)⟩

/-- An expression is read again if what is inside it is and it is itself. -/
theorem within {e : Expr} (h : AllReread file text e.inside ms) (he : Reread file text e) :
    AllReread file text e.within ms := by
  refine ⟨?_, h.marks⟩
  rw [within_eq]
  exact List.forall_mem_append.2 ⟨h.exprs, List.forall_mem_singleton.2 he⟩

theorem leaf (h : AllReread file text es ms) (span : Span) :
    AllReread file text es (.leaf span :: ms) :=
  ⟨h.exprs, fun s hs => h.marks s ((List.mem_cons.1 hs).resolve_left fun h => nomatch h)⟩

theorem whole {span : Span} (h : AllReread file text es ms) (hspan : Wide file text span) :
    AllReread file text es (.whole span :: ms) := by
  refine ⟨h.exprs, fun s hs => ?_⟩
  rcases List.mem_cons.1 hs with heq | hs
  · cases heq
    exact hspan
  · exact h.marks s hs

theorem params (h : AllReread file text es ms) (params : List Param) :
    AllReread file text es (paramMarks params ++ ms) := by
  induction params with
  | nil => exact h
  | cons p params ih => exact ih.leaf p.span

theorem perm (h : AllReread file text es ms) (hes : es.Perm es') (hms : ms.Perm ms') :
    AllReread file text es' ms' :=
  ⟨fun e he => h.exprs e (hes.mem_iff.2 he), fun s hs => h.marks s (hms.mem_iff.2 hs)⟩

end AllReread

/-! ### Expressions and statements -/

/-- What is known of an operand that was read from the tokens: it is in parentheses, or its span
tells that it is not. -/
structure Operand (file : String) (text : List Char) (ts : List Token) (e : Expr) : Prop where
  inside : AllReread file text e.inside e.marks
  self : SpanIn file ts e.span ∧ Reread file text e ∨ Fresh file ts e.span

/-- What is known of an expression that was read from the tokens. -/
structure Known (file : String) (text : List Char) (ts : List Token) (e : Expr) : Prop where
  span : SpanIn file ts e.span
  within : AllReread file text e.within e.marks

/-- What goes from the token at the cursor up to where the reader stands. -/
def Fills (file : String) (text : List Char) (start : Nat) (e : Expr) (n : Cursor) : Prop :=
  e.span = n.spanFrom start ∧ AllReread file text e.inside e.marks

/-- An operand that begins with a token of its own. -/
theorem runs_operand {k : Nat} {c : Cursor} {kind : TokenKind} {d : Diagnostic}
    {f : Token → (c' : Cursor) → c'.weight + 1 ≤ c.weight → Step k c' Expr} (hkind : kind.NoParen)
    (hf : ∀ t c' h, (f t c' h).Keeps file text .none (Fills file text t.span.start)) :
    ((c.expectOr kind d).andThen f).Runs file text .none fun ts e _ => Operand file text ts e := by
  have htoken : (c.expectOr kind d).Runs file text _ _ := c.expectOr_runs kind d
  rw [hkind] at htoken
  refine Runs.andThen (r := .none) htoken ?_
  rintro _ t c' h hran hon - ⟨rfl, -⟩
  refine Runs.mono (hf t c' h) ?_
  rintro us e n - hus - ⟨hspan, hinside⟩
  have hfresh := (hran.trans hus).spanOf.fresh
  rw [← hran.file, hon.here, ← hspan] at hfresh
  exact ⟨hinside, .inr hfresh⟩

theorem Operand.spanIn {ts : List Token} {e : Expr} (h : Operand file text ts e) :
    SpanIn file ts e.span := by
  rcases h.self with ⟨hspan, -⟩ | hfresh
  · exact hspan
  · exact hfresh.spanIn

/-- Once an operand has been read, all that is within it is read again. -/
theorem Operand.within {c n : Cursor} {ts : List Token} {e : Expr} (h : Operand file text ts e)
    (hon : c.On file text) (hbegun : Begun c ts e n) :
    AllReread file text e.within e.marks := by
  rcases h.self with ⟨-, hself⟩ | hfresh
  · exact h.inside.within hself
  · exact h.inside.within (hbegun.reread hon hfresh)

theorem Known.inside {ts : List Token} {e : Expr} (h : Known file text ts e) :
    AllReread file text e.inside e.marks :=
  ⟨fun x hx => h.within.exprs x (inside_subset_within e hx), h.within.marks⟩

theorem noParen_of_literal {t : Token} {f : Node → Expr} (h : t.literal = .ok f) :
    t.kind.NoParen := by
  unfold Token.literal at h
  generalize t.kind = kind at h ⊢
  cases kind <;> first | rfl | cases h

theorem inside_of_literal {t : Token} {f : Node → Expr} (h : t.literal = .ok f) (n : Node) :
    (f n).inside = [] ∧ (f n).marks = [] ∧ (f n).span = n.span := by
  unfold Token.literal at h
  split at h
  · split at h
    · cases h
      exact ⟨rfl, rfl, rfl⟩
    · cases h
  all_goals
    cases h
  all_goals
    exact ⟨rfl, rfl, rfl⟩

/-- Expressions of one token. -/
theorem readLiteral_runs (c : Cursor) :
    (readLiteral c).Runs file text .none fun ts e _ => Operand file text ts e := by
  unfold readLiteral
  split
  · exact .fail _ _
  · next f hf =>
    have ne : c.kind ≠ .eof := by
      rintro he
      simp [Token.literal, show c.current.kind = .eof from he] at hf
    have htake : (c.take ne).Runs file text _ _ := c.take_runs ne rfl
    rw [show c.kind.loose = .none from noParen_of_literal hf] at htake
    refine Runs.andThen (r := .none) htake ?_
    rintro _ t c' h - - - ⟨rfl, rfl, hfile⟩
    refine Runs.build ?_
    obtain ⟨hinside, hmarks, hspan⟩ := inside_of_literal hf ⟨c'.nextId, c.current.span⟩
    refine ⟨?_, .inr ?_⟩
    · rw [hinside, hmarks]
      exact .nil
    rw [hspan]
    exact (spanOf_singleton hfile).fresh

/-- The holes among the pieces are parts of the text, which begin that far behind byte `start`. -/
def Holes (text : List Char) (start : Nat) (pieces : List Piece) : Prop :=
  ∀ offset source, .hole offset source ∈ pieces →
    ∃ before behind, text = before ++ (source ++ behind) ∧ byteLength before = start + offset

theorem Holes.tail {start : Nat} {p : Piece} {pieces : List Piece}
    (h : Holes text start (p :: pieces)) : Holes text start pieces :=
  fun offset source hmem => h offset source (List.mem_cons_of_mem p hmem)

/-- The body of an interpolated string begins behind the dollar sign and the quote. -/
theorem holes_of_interpolated {c : Cursor} (hon : c.On file text) (h : c.kind = .interpolated) :
    Holes text (c.current.span.start + 2) (Piece.split 0 c.current.value.toList) := by
  obtain ⟨-, piece, after, ⟨front, rfl, hstart, -⟩, hword⟩ := hon.current (by rw [h]; decide)
  have hword : Spelled piece .interpolated c.current.value := h ▸ hword
  rw [hword.interpolated_body]
  intro offset source hmem
  obtain ⟨before, behind, hbody, hoffset⟩ :=
    (Piece.holes_split 0 c.current.value.toList).1 _ hmem offset source rfl
  rw [hbody, hoffset, ← hstart]
  have hsizes : '$'.utf8Size = 1 ∧ '"'.utf8Size = 1 ∧ '\x7b'.utf8Size = 1 := ⟨rfl, rfl, rfl⟩
  refine ⟨front ++ '$' :: '"' :: (before ++ ['\x7b']), '\x7d' :: (behind ++ '"' :: after), ?_, ?_⟩
  · simp
  · simp only [byteLength_append, byteLength_cons, byteLength_nil, hsizes]
    omega

/-- A part of the file is a text of its own. -/
theorem on_part {source before behind : List Char} {start : Nat} {s : TokenStream}
    (htext : text = before ++ (source ++ behind)) (hbefore : byteLength before = start)
    (hs : tokenize file source = .ok s) (n : Nat) :
    (Cursor.ofStream (s.shift start) n).On file text :=
  ⟨show s.file = file from file_of_tokenize hs, before, source, behind, s, [], htext, hs,
    by rw [hbefore]; rfl⟩

section

variable {c : Cursor} {ts : List Token} {s : Span}

theorem SpanIn.file_eq (h : SpanIn file ts s) : s.file = file := by
  obtain ⟨opens, core, closes, -, hframed⟩ := h
  obtain ⟨t, u, -, -, rfl⟩ := hframed.covers
  rfl

/-- What follows an expression and goes on up to where the reader stands. -/
theorem runs_suffix {k : Nat} {l : Loose} {ne : c.kind ≠ .eof}
    {f : Token → (c' : Cursor) → c'.weight + 1 ≤ c.weight → Step k c' Expr}
    (hspan : SpanIn file ts s) (hmatched : Matched ts) (hl : c.kind.loose.join l = .none)
    (hf : ∀ t c' h, c'.On file text → (f t c' h).Keeps file text l (Fills file text s.start)) :
    ((c.take ne).andThen f).Runs file text .none fun us e _ =>
      AllReread file text e.inside e.marks ∧ Fresh file (ts ++ us) e.span := by
  rw [← hl]
  refine Runs.andThen (c.take_runs ne rfl) ?_
  rintro _ t c' h hran hon ht ⟨rfl, -⟩
  refine Runs.mono (hf t c' h hon) ?_
  rintro us e n - hus hl' ⟨hend, hinside⟩
  refine ⟨hinside, ?_⟩
  have hmatched' : Matched ([t] ++ us) := by
    unfold Matched
    rw [Token.loose_append, ht, hl', hl]
  obtain ⟨u, hu⟩ : ∃ u, ([t] ++ us).getLast? = some u :=
    ⟨_, List.getLast?_eq_some_getLast (by simp)⟩
  have hstop : n.lastStop = u.span.stop := by
    rw [(hran.trans hus).lastStop, hu]
    rfl
  rw [hend, Cursor.spanFrom, hus.file, hon.here, hstop]
  exact hspan.suffix hmatched hmatched' hu

/-- An operator and its right operand. -/
theorem runs_operator {ne : c.kind ≠ .eof} {power : Power} {left : Expr} {make : Expr → Node → Expr}
    (hspan : SpanIn file ts left.span) (hmatched : Matched ts) (hkind : c.kind.NoParen)
    (hleft : AllReread file text left.within left.marks)
    (hmake : ∀ value n, (make value n).inside = left.within ++ value.within ∧
      (make value n).marks = left.marks ++ value.marks ∧ (make value n).span = n.span)
    (hread : ∀ c', c'.weight + 1 ≤ c.weight →
      (readExpr c' power).Runs file text .none fun us e _ => Known file text us e) :
    ((c.take ne).andThen fun _ c _ => ((readExpr c power).andThen fun value c _ =>
      c.build (left.span.cover value.span) (make value)).weaken).Runs file text .none
        fun us e _ => AllReread file text e.inside e.marks ∧ Fresh file (ts ++ us) e.span := by
  have htake : (c.take ne).Runs file text _ _ := c.take_runs ne rfl
  rw [show c.kind.loose = .none from hkind] at htake
  refine Runs.andThen (r := .none) htake ?_
  rintro _ t c' h - - - ⟨rfl, rfl, -⟩
  refine Runs.weaken (Runs.andThen (l := .none) (r := .none) (hread c' h) ?_)
  rintro us value c' _ - - hus hvalue
  obtain ⟨hinside, hmarks, hbuilt⟩ := hmake value ⟨c'.nextId, left.span.cover value.span⟩
  refine Runs.build ⟨?_, ?_⟩
  · rw [hinside, hmarks]
    exact hleft.append hvalue.within
  rw [hbuilt, Span.cover, hspan.file_eq, List.append_nil]
  exact hspan.operator hmatched hkind hvalue.span hus

end

mutual

theorem readExpr_runs (c : Cursor) (power : Power) :
    (readExpr c power).Runs file text .none fun ts e _ => Known file text ts e := by
  rw [readExpr]
  refine Runs.on fun hon => Runs.andThenFrom (r := .none) (readOperand_runs c) ?_
  intro ts left c' _ hyields hran _ hl hoperand
  have hbegun : Begun c ts left c' :=
    .operand hyields hran hl (hon.here ▸ hoperand.spanIn)
  exact readContinuations_runs c' power hbegun hon (hoperand.within hon hbegun)
termination_by 8 * c.weight + 5
decreasing_by all_goals omega

theorem readExpr_keeps (c : Cursor) (power : Power) :
    (readExpr c power).Keeps file text .none fun e _ => AllReread file text e.within e.marks :=
  (readExpr_runs c power).mono fun _ _ _ _ _ _ h => h.within
termination_by 8 * c.weight + 6
decreasing_by all_goals omega

theorem readOperand_runs (c : Cursor) :
    (readOperand c).Runs file text .none fun ts e _ => Operand file text ts e := by
  rw [readOperand]
  split
  iterate 8 exact readLiteral_runs c
  · next h => exact readInterpolated_runs c h
  · refine runs_operand rfl fun token c' _ => keeps_open fun _ c' _ => ?_
    refine (readExpr_keeps c' .default).andThen fun inner c' _ hinner => ?_
    exact keeps_close fun _ c' _ => .build ⟨rfl, hinner⟩
  · exact readUnary_runs c .negate
  · exact readUnary_runs c .not
  · refine Runs.andThen (r := ⟨1, 0⟩) (c.expectOr_runs .openParen _) ?_
    rintro _ left c' _ - - - ⟨rfl, -, hl, -⟩
    refine Runs.andThen (l := .none) (r := ⟨1, 0⟩) (readExpr_runs c' .default) ?_
    rintro ts inner c' _ - - - hinner
    refine Runs.map ((c'.expectOr_runs .closeParen _).mono ?_)
    rintro _ right n - - - ⟨rfl, -, hr, -⟩
    have hself := hinner.within.exprs inner (mem_within_self inner)
    exact ⟨hinner.inside, .inl ⟨hinner.span.parentheses hl hr, hself⟩⟩
  · refine runs_operand rfl fun token c' _ => ?_
    refine Keeps.andThen (readArgs_keeps c' (.inr rfl)) fun items c' _ hitems => ?_
    exact .build ⟨rfl, hitems⟩
  · refine runs_operand rfl fun token c' _ => keeps_token rfl fun name c' _ => ?_
    refine keeps_open fun _ c' _ => ?_
    refine Keeps.shut (readArgs_keeps c' (.inl rfl)) fun args c' _ hargs => ?_
    exact .build ⟨rfl, hargs.leaf name.span⟩
  · refine runs_operand rfl fun token c' _ => ?_
    refine (readParams_keeps c').andThen fun params c' _ _ => ?_
    refine (readReturnTy_keeps c').andThen fun ret c' _ _ => ?_
    refine (readBlock_keeps c').andThen fun body c' _ hbody => ?_
    exact .build ⟨rfl, hbody.params params⟩
  · exact .fail _ _
termination_by 8 * c.weight + 4
decreasing_by all_goals omega

theorem readUnary_runs (c : Cursor) (op : UnaryOp) :
    (readUnary c op.kind op).Runs file text .none fun ts e _ => Operand file text ts e := by
  have hkind : op.kind.NoParen := by cases op <;> rfl
  rw [readUnary]
  have htoken : (c.expectOr op.kind c.unexpected).Runs file text _ _ := c.expectOr_runs _ _
  rw [show op.kind.loose = .none from hkind] at htoken
  refine Runs.andThen (r := .none) htoken ?_
  rintro _ t c' _ - - - ⟨rfl, -, ht, hfile⟩
  refine Runs.andThen (l := .none) (r := .none) (readExpr_runs c' .unary) ?_
  rintro us operand c' _ - - hus hoperand
  refine Runs.build ⟨hoperand.within, .inr ?_⟩
  rw [List.append_nil]
  have hfresh := hoperand.span.sign hus hfile (ht ▸ hkind)
  rw [← hfile] at hfresh ⊢
  exact hfresh
termination_by 8 * c.weight + 1
decreasing_by all_goals omega

theorem readInterpolated_runs (c : Cursor) (h : c.kind = .interpolated) :
    (readInterpolated c h).Runs file text .none fun ts e _ => Operand file text ts e := by
  refine Runs.on fun hon => ?_
  have ne : c.kind ≠ .eof := by rw [h]; decide
  have htake : (c.takeInterpolated h).Runs file text .none
      fun ts t _ => ts = [t] ∧ t = c.current := by
    rintro - _ ⟨⟩
    exact ⟨[c.current], Cursor.ran_advance ne, Cursor.loose_current h, rfl, rfl⟩
  have hw : Piece.totalWeight (Piece.split 0 c.current.value.toList) ≤ c.current.value.length :=
    Piece.totalWeight_split_le 0 c.current.value.toList
  rw [readInterpolated]
  refine Runs.moved (Runs.andThen (r := .none) htake ?_)
  rintro _ t c' hc' - - - ⟨rfl, rfl⟩
  refine Runs.andThen (l := .none) (r := .none)
    (readParts_runs c' c.current _ (holes_of_interpolated hon h)) ?_
  rintro _ parts c' _ - - - ⟨rfl, hparts⟩
  exact Runs.build ⟨hparts, .inr (spanOf_singleton (hon.current ne).1).fresh⟩
termination_by 8 * c.weight + 1
decreasing_by omega

theorem readParts_runs (c : Cursor) (token : Token) (pieces : List Piece)
    (h : Holes text (token.span.start + 2) pieces) :
    (readParts c token pieces).Runs file text .none fun ts parts _ =>
      ts = [] ∧ AllReread file text (partsWithin parts) (partsMarks parts) := by
  match pieces with
  | [] =>
    rw [readParts]
    exact .done ⟨rfl, .nil⟩
  | .text raw :: ps =>
    rw [readParts]
    exact .map (readParts_runs c token ps h.tail)
  | .hole offset source :: ps =>
    rw [readParts]
    split
    · exact .fail _ _
    · next stream lexed =>
      have hw : stream.weight ≤ source.length := weight_le_length lexed
      refine Runs.andThen (l := .none) (r := .none)
        (Runs.inside (R := fun e => AllReread file text e.within e.marks) fun hon e he => ?_) ?_
      · obtain ⟨before, behind, htext, hbefore⟩ := h offset source List.mem_cons_self
        obtain ⟨a, -, hread, hend⟩ := Step.exists_of_andThen_ok he
        obtain ⟨b, -, -, ⟨⟩⟩ := Step.exists_of_andThen_ok hend
        obtain ⟨ts, -, -, ha⟩ := readExpr_runs _ .default
          (on_part htext hbefore (hon.here ▸ lexed) c.nextId) a hread
        exact ha.within
      · rintro _ e c' _ - - - ⟨rfl, he⟩
        refine Runs.map ((readParts_runs c' token ps h.tail).mono ?_)
        rintro _ parts n - - - ⟨rfl, hparts⟩
        exact ⟨rfl, he.append hparts⟩
  | .unclosed :: ps =>
    rw [readParts]
    exact .fail _ _
termination_by 8 * Piece.totalWeight pieces + 6
decreasing_by
  · simp only [Piece.weight, Piece.totalWeight_cons]
    omega
  · simp only [Piece.weight, Piece.totalWeight_cons, Cursor.weight_ofStream,
      TokenStream.weight_shift]
    omega
  · simp only [Piece.weight, Piece.totalWeight_cons]
    omega

/-- The loop. The tokens `pre` before the cursor are the expression read so far. -/
theorem readContinuations_runs (c : Cursor) (power : Power) {c₀ : Cursor} {pre : List Token}
    {left : Expr} (hbegun : Begun c₀ pre left c) (hon : c₀.On file text)
    (hleft : AllReread file text left.within left.marks) :
    (readContinuations c power left).Runs file text .none fun us e _ =>
      Known file text (pre ++ us) e := by
  have hspan : SpanIn file pre left.span := hon.here ▸ hbegun.span
  have hdone : Known file text (pre ++ []) left := by
    rw [List.append_nil]
    exact ⟨hspan, hleft⟩
  rw [readContinuations]
  split
  · exact .done hdone
  · next k hk =>
    split
    · exact .done hdone
    · refine Runs.weaken (Runs.andThenFrom (r := .none)
        (readContinuation_runs c hk _ hspan hbegun.matched hleft) ?_)
      rintro us e c' _ hyields hran - hl ⟨hinside, hfresh⟩
      have hbegun' : Begun c₀ (pre ++ us) e c' :=
        hbegun.step hk hyields hran hl (hon.here ▸ hfresh.spanIn)
      have he : AllReread file text e.within e.marks := hinside.within (hbegun'.reread hon hfresh)
      refine (readContinuations_runs c' power hbegun' hon he).mono ?_
      intro vs e n _ _ _ h
      rwa [List.append_assoc] at h
termination_by 8 * c.weight + 2
decreasing_by all_goals omega

/-- One turn of the loop. -/
theorem readContinuation_runs (c : Cursor) {k : Continuation} {pre : List Token} {left : Expr}
    (hk : c.kind.continuation? = some k) (ne : c.kind ≠ .eof) (hspan : SpanIn file pre left.span)
    (hmatched : Matched pre) (hleft : AllReread file text left.within left.marks) :
    (readContinuation c k left ne).Runs file text .none fun us e _ =>
      AllReread file text e.inside e.marks ∧ Fresh file (pre ++ us) e.span := by
  have hkind : c.kind = k.kind := TokenKind.eq_of_continuation? hk
  rw [readContinuation]
  cases k with
  | assign =>
    exact runs_operator hspan hmatched (by rw [hkind]; rfl) hleft (fun _ _ => ⟨rfl, rfl, rfl⟩)
      fun c' _ => readExpr_runs c' .comma
  | binary op =>
    have hop : op.kind.NoParen := by cases op <;> rfl
    exact runs_operator hspan hmatched (hkind ▸ hop) hleft (fun _ _ => ⟨rfl, rfl, rfl⟩)
      fun c' _ => readExpr_runs c' op.power
  | call =>
    refine runs_suffix hspan hmatched (l := ⟨1, 0⟩) (by rw [hkind]; rfl) fun t c' _ _ => ?_
    refine Keeps.shut (readArgs_keeps c' (.inl rfl)) fun args c' _ hargs => ?_
    exact .build ⟨rfl, hleft.append hargs⟩
  | index =>
    refine runs_suffix hspan hmatched (l := .none) (by rw [hkind]; rfl) fun t c' _ _ => ?_
    refine Keeps.weaken ((readExpr_keeps c' .default).andThen fun index c' _ hindex => ?_)
    exact keeps_token rfl fun _ c' _ => .build ⟨rfl, hleft.append hindex⟩
  | member =>
    refine runs_suffix hspan hmatched (l := .none) (by rw [hkind]; rfl) fun t c' _ hon => ?_
    refine Keeps.weaken (Runs.andThen (l := .none) (r := .none) (Q := fun _ => Fills file text _)
      (c'.expectOr_runs .identifier _) ?_)
    rintro _ name n _ hran - - ⟨rfl, rfl, -, -⟩
    refine Runs.build ⟨?_, hleft.leaf _⟩
    have hfile : left.span.file = n.file := by rw [hspan.file_eq, hran.file, hon.here]
    have hstop : c'.current.span.stop = n.lastStop := hran.lastStop.symm
    exact congr (congrArg (Span.mk · left.span.start) hfile) hstop
termination_by 8 * c.weight + 1
decreasing_by all_goals omega

theorem readArgs_keeps (c : Cursor) {close : TokenKind} (hclose : close.Closes) :
    (readArgs c close).Keeps file text close.loose fun es _ =>
      AllReread file text (exprsWithin es) (exprsMarks es) := by
  rw [readArgs]
  split
  · exact Cursor.keeps_lastKind hclose.ne_eof fun _ => .nil
  · refine Keeps.weaken ((readExpr_keeps c .comma).andThen fun arg c' _ harg => ?_)
    refine (Cursor.accept_keeps).andThen fun comma c' _ _ => ?_
    split
    · exact .map ((readArgs_keeps c' hclose).mono fun _ _ hargs => harg.append hargs)
    · exact Cursor.keeps_lastKind hclose.ne_eof fun _ => harg.append .nil
termination_by 8 * c.weight + 7
decreasing_by all_goals omega

theorem readBlock_keeps (c : Cursor) :
    (readBlock c).Keeps file text .none fun b _ => AllReread file text b.within b.marks := by
  rw [readBlock]
  refine keeps_token rfl fun token c' _ => ?_
  exact (readStmts_keeps c').andThen fun stmts c' _ hstmts => .done hstmts
termination_by 8 * c.weight + 3
decreasing_by all_goals omega

theorem readStmts_keeps (c : Cursor) :
    (readStmts c).Keeps file text .none
      fun stmts _ => AllReread file text (stmtsWithin stmts) (stmtsMarks stmts) := by
  rw [readStmts]
  split
  · exact keeps_last rfl fun _ => .nil
  · exact .fail _ _
  · refine (readStmt_keeps c).andThen fun stmt c' _ hstmt => ?_
    exact .map ((readStmts_keeps c').mono fun _ _ hstmts => hstmt.append hstmts)
termination_by 8 * c.weight + 8
decreasing_by all_goals omega

theorem readStmt_keeps (c : Cursor) :
    (readStmt c).Keeps file text .none
      fun stmt _ => AllReread file text stmt.within stmt.marks := by
  rw [readStmt]
  split
  · refine keeps_token rfl fun token c' _ => ?_
    refine (Cursor.accept_keeps).andThen fun mutable c' _ _ => ?_
    refine keeps_token rfl fun name c' _ => (Cursor.accept_keeps).andThen fun colon c' _ _ => ?_
    refine Keeps.andThen (P := fun _ _ => True) ?_ fun ty c' _ _ => ?_
    · split
      · exact .map (readTy_keeps c' .default).weaken
      · exact .done trivial
    refine keeps_token rfl fun _ c' _ => ?_
    refine (readExpr_keeps c' .default).andThen fun value c' _ hvalue => ?_
    exact keeps_token rfl fun _ c' _ => .done (hvalue.leaf name.span)
  · refine keeps_token rfl fun token c' _ => ?_
    have hvalue : (if c'.kind = .semicolon then .done c' none
        else (readExpr c' .default).weaken.map some : Step 0 c' (Option Expr)).Keeps file text .none
          fun value _ => ∀ span, AllReread file text (Stmt.returnStmt value span).within
            (Stmt.returnStmt value span).marks := by
      split
      · exact .done fun span => AllReread.nil.leaf span
      · exact .map ((readExpr_keeps c' .default).weaken.mono fun _ _ hvalue _ => hvalue)
    exact hvalue.andThen fun value c' _ hvalue => keeps_token rfl fun _ c' _ => .done (hvalue _)
  · exact readIf_keeps c
  · refine keeps_token rfl fun token c' _ => ?_
    refine (readExpr_keeps c' .default).andThen fun condition c' _ hcondition => ?_
    refine (readBlock_keeps c').andThen fun body c' _ hbody => ?_
    exact .done (hcondition.append hbody)
  · refine keeps_token rfl fun token c' _ => Cursor.keeps_acceptOpen fun parenthesised c' _ => ?_
    refine keeps_token rfl fun name c' _ => keeps_token rfl fun _ c' _ => ?_
    refine (readExpr_keeps c' .default).andThen fun iterable c' _ hiterable => ?_
    refine Keeps.shut (P := fun _ _ => True) ?_ fun _ c' _ _ => ?_
    · cases parenthesised with
      | false => exact .done trivial
      | true =>
        exact .map ((c'.expectOr_runs .closeParen _).weaken.mono fun _ _ _ _ _ _ _ => trivial)
    · refine (readBlock_keeps c').andThen fun body c' _ hbody => ?_
      exact .done (hiterable.append hbody)
  · refine keeps_token rfl fun token c' _ => ?_
    refine (readExpr_keeps c' .default).andThen fun scrutinee c' _ hscrutinee => ?_
    refine keeps_token rfl fun _ c' _ => ?_
    refine (readArms_keeps c').andThen fun arms c' _ harms => ?_
    exact .done (hscrutinee.append harms)
  · exact .map ((readBlock_keeps c).mono fun _ _ hbody => hbody)
  · refine (readExpr_keeps c .default).andThen fun value c' _ hvalue => ?_
    exact keeps_last rfl fun _ => hvalue
termination_by 8 * c.weight + 7
decreasing_by all_goals omega

theorem readIf_keeps (c : Cursor) :
    (readIf c).Keeps file text .none fun stmt _ => AllReread file text stmt.within stmt.marks := by
  rw [readIf]
  refine keeps_token rfl fun token c' _ => ?_
  refine (readExpr_keeps c' .default).andThen fun condition c' _ hcondition => ?_
  refine (readBlock_keeps c').andThen fun body c' _ hbody => ?_
  refine (Cursor.accept_keeps).andThen fun otherwise c' _ _ => ?_
  have hotherwise : (if otherwise then
        if c'.kind = .kwIf then (readIf c').weaken.map some
        else (readBlock c').weaken.map fun b => some (.block b)
      else .done c' none : Step 0 c' (Option Stmt)).Keeps file text .none fun o _ =>
        ∀ span, AllReread file text (Stmt.ifStmt condition body o span).within
          (Stmt.ifStmt condition body o span).marks := by
    split
    · split
      · exact .map ((readIf_keeps c').weaken.mono fun _ _ h _ => (hcondition.append hbody).append h)
      · exact .map ((readBlock_keeps c').weaken.mono fun _ _ h _ =>
          (hcondition.append hbody).append h)
    · exact .done fun _ => hcondition.append hbody
  exact hotherwise.andThen fun otherwise c' _ h => .done (h _)
termination_by 8 * c.weight + 6
decreasing_by all_goals omega

theorem readArms_keeps (c : Cursor) :
    (readArms c).Keeps file text .none
      fun arms _ => AllReread file text (armsWithin arms) (armsMarks arms) := by
  rw [readArms]
  split
  · exact keeps_last rfl fun _ => .nil
  · refine (readArm_keeps c).andThen fun arm c' _ harm => ?_
    refine (Cursor.accept_keeps).andThen fun _ c' _ _ => ?_
    refine .map ((readArms_keeps c').mono fun arms _ harms => ?_)
    obtain ⟨pattern, body, span⟩ := arm
    exact harm.append harms
termination_by 8 * c.weight + 8
decreasing_by all_goals omega

theorem readArm_keeps (c : Cursor) :
    (readArm c).Keeps file text .none
      fun arm _ => AllReread file text arm.body.within (.whole arm.span :: arm.body.marks) := by
  rw [readArm]
  refine Runs.on fun hon => ?_
  refine Runs.andThen (l := .none) (r := .none) (Q := fun _ (arm : Arm) _ => AllReread file text
    arm.body.within (.whole arm.span :: arm.body.marks)) (readArmPattern_keeps c) ?_
  intro ts pattern c' hc' hpattern _ _ _
  refine Runs.andThen (r := .none) (c'.expectOr_runs .fatArrow _) ?_
  rintro _ arrow c'' hc'' harrow - - ⟨rfl, -⟩
  have hbody : (if c''.kind = .openCurly then readBlock c''
      else
        (readExpr c'' .default).andThen fun value c _ =>
          (c.accept .semicolon).map fun _ => ⟨[.expr value], value.span⟩ : Step 1 c'' Block).Keeps
        file text .none fun body _ => AllReread file text body.within body.marks := by
    split
    · exact readBlock_keeps c''
    · refine (readExpr_keeps c'' .default).andThen fun value c' _ hvalue => ?_
      exact .map ((Cursor.accept_keeps).mono fun _ _ _ => hvalue.append .nil)
  refine Runs.andThen (l := .none) (r := .none) hbody ?_
  intro us body n _ hus _ _ hbody
  have hne : ts ≠ [] := hpattern.ne_nil hc'
  have hpos := List.length_pos_iff.2 hne
  refine Runs.done (hbody.whole (hon.wide (hpattern.trans (harrow.trans hus)) ?_))
  simp only [List.length_append, List.length_singleton]
  omega
termination_by 8 * c.weight + 7
decreasing_by all_goals omega

end

/-! ### Declarations -/

theorem readVisibility_keeps (c : Cursor) :
    (readVisibility c).Keeps file text .none fun _ _ => True := by
  unfold readVisibility
  split
  · exact Keeps.weaken (keeps_last rfl fun _ => trivial)
  · exact Keeps.weaken (keeps_last rfl fun _ => trivial)
  · exact .done trivial

theorem readSegments_keeps (c : Cursor) (path : String) :
    (readSegments c path).Keeps file text .none fun _ _ => True := by
  rw [readSegments]
  split
  · refine Keeps.weaken (keeps_token rfl fun _ c' _ => keeps_token rfl fun segment c' _ => ?_)
    exact readSegments_keeps c' _
  · exact .done trivial
termination_by c.weight
decreasing_by all_goals omega

theorem readUsing_keeps (c : Cursor) :
    (readUsing c).Keeps file text .none fun _ _ => True := by
  refine keeps_token rfl fun token c' _ => keeps_token rfl fun first c' _ => ?_
  refine (readSegments_keeps c' _).andThen fun path c' _ _ => ?_
  exact keeps_token rfl fun _ c' _ => .done trivial

theorem readFunction_keeps (c : Cursor) (start : Nat) (isPublic isStatic : Bool) :
    (readFunction c start isPublic isStatic).Keeps file text .none
      fun f _ => AllReread file text f.body.within f.marks := by
  refine keeps_token rfl fun _ c' _ => keeps_token rfl fun name c' _ => ?_
  refine (readParams_keeps c').andThen fun params c' _ _ => ?_
  refine (readReturnTy_keeps c').andThen fun ret c' _ _ => ?_
  exact (readBlock_keeps c').andThen fun body c' _ hbody =>
    .done ((hbody.params params).leaf name.span)

/-- The marks of a field begin at `c₀`. -/
theorem readField_keeps {c₀ c : Cursor} {marks : List Token} (hon : c₀.On file text)
    (hran : c₀.Ran marks c) (isPublic isStatic : Bool) :
    (readField c c₀.start isPublic isStatic).Keeps file text .none
      fun f _ => AllReread file text (exprsWithin f.initial.toList) f.marks := by
  refine Runs.andThen (r := .none) (Q := fun _ f _ => AllReread file text _ (FieldDecl.marks f))
    (c.expectOr_runs .identifier _) ?_
  rintro _ name c' - hname - - ⟨rfl, -⟩
  refine Runs.andThen (r := .none) (c'.expectOr_runs .colon _) ?_
  rintro _ colon c'' - hcolon - - ⟨rfl, -⟩
  have hsofar := hran.trans (hname.trans hcolon)
  refine Runs.mono (P := fun _ (f : FieldDecl) n => f.span = n.spanFrom c₀.start ∧
    AllReread file text (exprsWithin f.initial.toList) (exprsMarks f.initial.toList)) ?_ ?_
  · refine Keeps.andThen (readTy_keeps c'' .default) fun ty c' _ _ => ?_
    refine (Cursor.accept_keeps).andThen fun assigned c' _ _ => ?_
    have hinitial : (if assigned then (readExpr c' .default).weaken.map some else .done c' none :
        Step 0 c' (Option Expr)).Keeps file text .none
          fun o _ => AllReread file text (exprsWithin o.toList) (exprsMarks o.toList) := by
      split
      · exact .map ((readExpr_keeps c' .default).weaken.mono fun _ _ hvalue => hvalue.append .nil)
      · exact .done .nil
    refine hinitial.andThen fun initial c' _ hinitial => ?_
    exact keeps_token rfl fun _ c' _ => .done ⟨rfl, hinitial⟩
  · rintro us f n - hus - ⟨hspan, hinitial⟩
    refine hinitial.whole (hspan ▸ hon.wide (hsofar.trans hus) ?_)
    simp only [List.length_append, List.length_singleton]
    omega

theorem readMembers_keeps (c : Cursor) :
    (readMembers c).Keeps file text .none
      fun ms _ => AllReread file text (ms.flatMap Member.within) (ms.flatMap Member.marks) := by
  rw [readMembers]
  split
  · exact keeps_last rfl fun _ => .nil
  · refine Runs.on fun hon => ?_
    refine Runs.optThen (l := .none) (r := .none) (readVisibility_keeps c) ?_
    intro ts visibility c' _ hvisibility _ _ _
    refine Runs.optThen (l := .none) (r := .none) (Cursor.accept_keeps) ?_
    intro us isStatic c'' _ hstatic _ _ _
    refine Keeps.andThen (P := fun x _ => AllReread file text (Member.within x) x.marks) ?_
      fun x c' _ hx => ?_
    · split
      · exact .map (readFunction_keeps _ _ _ _)
      · exact .map (readField_keeps hon (hvisibility.trans hstatic) _ _)
      · exact .fail _ _
    · exact .map ((readMembers_keeps c').mono fun _ _ hms => hx.append hms)
termination_by c.weight
decreasing_by all_goals omega

theorem readClass_keeps (c : Cursor) (start : Nat) (isPublic : Bool) :
    (readClass c start isPublic).Keeps file text .none
      fun d _ => AllReread file text d.within d.marks := by
  refine keeps_token rfl fun _ c' _ => keeps_token rfl fun name c' _ => ?_
  refine keeps_token rfl fun _ c' _ => ?_
  refine (readMembers_keeps c').andThen fun ms c' _ hms => .done ?_
  exact hms.perm (Member.within_perm ms) (Member.marks_perm ms)

theorem readItem_keeps (c : Cursor) :
    (readItem c).Keeps file text .none
      fun item _ => AllReread file text item.within item.marks := by
  unfold readItem
  split
  · exact .map ((readUsing_keeps c).mono fun _ _ _ => .nil)
  · refine (readVisibility_keeps c).optThen fun visibility c' _ _ => ?_
    split
    · exact .map (readFunction_keeps c' _ _ _)
    · exact .map (readClass_keeps c' _ _)
    · exact .fail _ _

theorem readItems_keeps (c : Cursor) {d : Declarations} (hd : AllReread file text d.exprs d.marks) :
    (readItems c d).Keeps file text .none fun d _ => AllReread file text d.exprs d.marks := by
  rw [readItems]
  split
  · exact .done hd
  · refine Keeps.weaken ((readItem_keeps c).andThen fun item c' _ h => ?_)
    exact readItems_keeps c'
      ((hd.append h).perm (d.exprs_add_perm item) (d.marks_add_perm item))
termination_by c.weight
decreasing_by all_goals omega

/-! ### Parts of a text that stand alone -/

/-- The expressions differ in no more than the numbers of their nodes. -/
def Expr.Alike (e e' : Expr) : Prop :=
  e.renumber (fun _ => 0) = e'.renumber fun _ => 0

theorem alike_moved (e : Expr) (d : Nat) : (e.moved d 0).Alike e := by
  unfold Expr.Alike Expr.moved
  rw [shift_zero]
  exact renumber_renumber e fun _ _ => rfl

/-- A text of its own gives the same expression at any number, up to numbers. -/
theorem readWhole_alike {s : TokenStream} {k i : Nat} {e : Expr}
    (h : (readWhole (.ofStream (s.shift k) i)).outcome = .ok e) (m : Nat) :
    ∃ e', (readWhole (.ofStream (s.shift k) m)).outcome = .ok e' ∧ e'.Alike e := by
  have hnumbered (d : Nat) : (readWhole (.ofStream (s.shift k) d)).outcome =
      ((readWhole (.ofStream (s.shift k) 0)).outcome.map (Expr.moved d 0)).mapError
        (·.moved 0) := by
    have hmoved := readWhole_elsewhere d 0 (readExpr_moved d 0 (.ofStream (s.shift k) 0) .default)
    rw [← Cursor.ofStream_shift d 0 s k 0, Nat.zero_add] at hmoved
    exact hmoved.1
  have hi := hnumbered i
  rw [h] at hi
  cases hzero : (readWhole (.ofStream (s.shift k) 0)).outcome with
  | error d =>
    rw [hzero] at hi
    cases hi
  | ok e₀ =>
    rw [hzero] at hi
    cases hi
    refine ⟨e₀.moved m 0, ?_, (alike_moved e₀ m).trans (alike_moved e₀ i).symm⟩
    rw [hnumbered m, hzero]
    rfl

theorem readWhole_restarted (stop : Nat) (c : Cursor) :
    (readWhole (c.restart stop)).outcome = (readWhole c).outcome :=
  ((readExpr_restarted stop c .default).andThen _).outcome

/-- An expression behind which nothing is left is all of a text. -/
theorem readWhole_of_yields {c n : Cursor} {e : Expr} (h : (readExpr c .default).Yields e n)
    (hrest : n.rest = []) : (readWhole c).outcome = .ok e := by
  have hkind : n.kind = .eof := by
    rw [Cursor.kind, Cursor.current, hrest]
    rfl
  obtain ⟨-, hsame, -⟩ := Step.andThen_same
    (f := fun e c _ => (c.expectKind .eof c.unexpected).map fun _ => e) h
  refine hsame.trans ?_
  rw [Cursor.expectKind, if_pos hkind]
  rfl

/-- The tokens of an expression that is read again are a text of their own, which is the expression
if every parenthesis in it has its partner there. -/
theorem Reread.exists_alone {e : Expr} (h : Reread file text e) :
    e.span.file = file ∧ ∃ piece behind s, Slice text e.span.start e.span.stop piece behind ∧
      tokenize file piece = .ok s ∧ (Matched s.tokens → ∀ m, ∃ e',
        (readWhole (.ofStream (s.shift e.span.start) m)).outcome = .ok e' ∧ e'.Alike e) := by
  obtain ⟨c, ts, hfile, hextract, hspan, hread⟩ := h
  obtain ⟨piece, behind, s, hslice, hs, hsfile, rfl⟩ := tokenize_extract hextract hspan
  refine ⟨hspan.fresh.spanIn.file_eq, piece, behind, s, hslice, hs, fun hmatched m => ?_⟩
  rw [Matched, ← Token.loose_map_shift _ e.span.start] at hmatched
  obtain ⟨n, hyields, hrest⟩ := hread hmatched (s.shift e.span.start).stop
  have hcursor : (c.facing (s.shift e.span.start).tokens (s.shift e.span.start).stop).restart 0 =
      .ofStream (s.shift e.span.start) c.nextId := by
    show Cursor.mk c.file _ _ 0 c.nextId = Cursor.mk s.file _ _ 0 c.nextId
    rw [hfile, hsfile]
    rfl
  refine readWhole_alike (i := c.nextId) ?_ m
  rw [← hcursor, readWhole_restarted]
  exact readWhole_of_yields hyields hrest

/-- What is read to its end as an expression has all partners of its parentheses. -/
theorem matched_of_readWhole {c : Cursor} {e : Expr} (hon : c.On file text)
    (hne : ∀ t ∈ c.rest, t.kind ≠ .eof) (h : (readWhole c).outcome = .ok e) : Matched c.rest := by
  obtain ⟨a, -, hread, hend⟩ := Step.exists_of_andThen_ok h
  obtain ⟨b, -, heof, -⟩ := Step.exists_of_andThen_ok hend
  obtain ⟨ts, hran, hmatched, -⟩ := readExpr_runs c .default hon a hread
  have hrest := Cursor.rest_eq_nil_of_eof
    (fun t ht => hne t (hran.rest ▸ List.mem_append_right ts ht))
    (Cursor.kind_eq_of_expectKind_ok heof)
  rw [hran.rest, hrest, List.append_nil]
  exact hmatched

/-- All that is in a source text is read again. -/
theorem parseSource_allReread {file text : String} {n : Nat} {d : Declarations}
    (h : (parseSource file text n).1 = .ok d) :
    AllReread file text.toList d.exprs d.marks := by
  unfold parseSource at h
  split at h
  · cases h
  · next stream hstream =>
    have htext : text.toList = [] ++ (text.toList ++ []) := (List.append_nil _).symm
    have hon : (Cursor.ofStream stream n).On file text.toList := by
      have hwhole := on_part htext rfl hstream n
      rwa [byteLength_nil, TokenStream.shift_zero] at hwhole
    obtain ⟨ts, -, -, hd⟩ := readItems_keeps (.ofStream stream n) (d := {}) .nil hon d h
    exact hd

/-- **The text under the span of an expression is that expression, unless the span cuts a pair of
parentheses.** In a source text that is read, the text under the span of any expression has tokens
of its own. If every parenthesis among them has its partner there, the text alone is the same
expression, places included, and if one has not, the text alone is no expression. In a text of less
than 2^32 bytes the span is the one that is kept (`parseSource_nested`). -/
theorem parseSource_reread {file text : String} {n : Nat} {d : Declarations}
    (h : (parseSource file text n).1 = .ok d) {e : Expr} (he : e ∈ d.exprs) (m : Nat) :
    e.span.file = file ∧ ∃ piece behind s,
      Slice text.toList e.span.start e.span.stop piece behind ∧ tokenize file piece = .ok s ∧
        (Matched s.tokens → ∃ e',
          (parseExpr file (.ofList piece) e.span.start m).1 = .ok e' ∧ e'.Alike e) ∧
        (¬ Matched s.tokens → ∃ fault,
          (parseExpr file (.ofList piece) e.span.start m).1 = .error fault) := by
  obtain ⟨hfile, piece, behind, s, hslice, hs, hmatched⟩ :=
    ((parseSource_allReread h).exprs e he).exists_alone
  refine ⟨hfile, piece, behind, s, hslice, hs, ?_⟩
  have hparse : (parseExpr file (.ofList piece) e.span.start m).1 =
      (readWhole (.ofStream (s.shift e.span.start) m)).outcome := by
    unfold parseExpr
    rw [String.toList_ofList, hs]
    rfl
  rw [hparse]
  refine ⟨fun hpairs => hmatched hpairs m, fun hcut => ?_⟩
  cases hwhole : (readWhole (.ofStream (s.shift e.span.start) m)).outcome with
  | error fault => exact ⟨fault, rfl⟩
  | ok e' =>
    obtain ⟨front, htext, hstart, -⟩ := hslice
    have hpiece := on_part htext hstart hs m
    have hpairs := matched_of_readWhole hpiece (shift_ne_eof (tokenize_ne_eof hs)) hwhole
    exact absurd ((Token.loose_map_shift _ _).symm.trans hpairs) hcut

/-- In `a * (b) + c` the product is cut and the sum is not. -/
theorem parseSource_reread_sum :
    let text := "fn f() \x7b a * (b) + c; \x7d"
    ∃ d e, (parseSource "main.mg" text 0).1 = .ok d ∧ e ∈ d.exprs ∧ e.id = 4 ∧
      e.span.file = "main.mg" ∧ ∃ piece behind s,
        Slice text.toList e.span.start e.span.stop piece behind ∧
          tokenize "main.mg" piece = .ok s ∧
          (Matched s.tokens → ∃ e',
            (parseExpr "main.mg" (.ofList piece) e.span.start 7).1 = .ok e' ∧ e'.Alike e) ∧
          (¬ Matched s.tokens → ∃ fault,
            (parseExpr "main.mg" (.ofList piece) e.span.start 7).1 = .error fault) := by
  intro text
  have hrun : ((parseSource "main.mg" text 0).1.toOption.bind
      fun d => d.exprs.find? (·.id == 4)).isSome = true := by decide +kernel
  obtain ⟨e, he⟩ := Option.isSome_iff_exists.1 hrun
  obtain ⟨d, hd, he⟩ := Option.bind_eq_some_iff.1 he
  have hd := eq_ok_of_toOption hd
  have hmem := List.mem_of_find?_eq_some he
  have hid : e.id = 4 := by simpa using List.find?_some he
  exact ⟨d, e, hd, hmem, hid, parseSource_reread hd hmem 7⟩

/-- The span of the product in `a * (b)` leaves out the parenthesis at its end, so that the text
under it cannot be read. -/
theorem product_cut :
    let text := "fn f() \x7b a * (b); \x7d"
    ∃ d e, (parseSource "main.mg" text 0).1 = .ok d ∧ e ∈ d.exprs ∧
      e.span = ⟨"main.mg", 9, 15⟩ ∧ Slice text.toList 9 15 "a * (b".toList "); \x7d".toList ∧
      ∀ e', (parseExpr "main.mg" "a * (b" 9 0).1 ≠ .ok e' := by
  intro text
  have hrun : ((parseSource "main.mg" text 0).1.toOption.bind
      fun d => d.exprs.find? (·.span == ⟨"main.mg", 9, 15⟩)).isSome = true := by decide +kernel
  have hcut : (parseExpr "main.mg" "a * (b" 9 0).1.toOption.isNone = true := by decide +kernel
  obtain ⟨e, he⟩ := Option.isSome_iff_exists.1 hrun
  obtain ⟨d, hd, he⟩ := Option.bind_eq_some_iff.1 he
  have hspan : e.span = ⟨"main.mg", 9, 15⟩ := by simpa using List.find?_some he
  refine ⟨d, e, eq_ok_of_toOption hd, List.mem_of_find?_eq_some he, hspan, ?_, ?_⟩
  · exact ⟨"fn f() \x7b ".toList, by decide +kernel, by decide +kernel, by decide +kernel⟩
  · intro e' he'
    rw [he'] at hcut
    cases hcut

end MgLang
