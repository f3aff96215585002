import MgLang.Proofs.Extracts
import MgLang.Proofs.Foresight
/-!
# Readings that are begun

What a reader of expressions has read so far (`Begun`) would be read alike if it stood alone, since
readers look no further than one token. So an expression that has just been completed is read again
from the tokens that its span covers, if no parenthesis among them lacks its partner
(`Begun.reread`).
-/

namespace MgLang

/-! ### Cursors in a file -/

namespace Cursor

/-- A reader has run over the tokens. -/
structure Ran (c : Cursor) (ts : List Token) (n : Cursor) : Prop where
  rest : c.rest = ts ++ n.rest
  file : n.file = c.file
  lastStop : n.lastStop = (ts.getLast?.map (·.span.stop)).getD c.lastStop

section

variable {file : String} {text : List Char} {c n m : Cursor} {ts us : List Token} {t : Token}

theorem Ran.refl (c : Cursor) : c.Ran [] c := ⟨rfl, rfl, rfl⟩

theorem Ran.trans (h : c.Ran ts n) (h' : n.Ran us m) : c.Ran (ts ++ us) m := by
  refine ⟨?_, h'.file.trans h.file, ?_⟩
  · rw [h.rest, h'.rest, List.append_assoc]
  · rw [h'.lastStop, h.lastStop, List.getLast?_append]
    cases us.getLast? <;> rfl

theorem ran_advance (h : c.kind ≠ .eof) : c.Ran [c.current] c.advance := by
  refine ⟨rest_eq_current_cons h, file_advance c, ?_⟩
  have hrest := rest_eq_current_cons h
  unfold advance
  split
  · next hnil =>
    rw [hnil] at hrest
    cases hrest
  · next t r hr =>
    rw [hr] at hrest
    rw [← (List.cons.inj hrest).1]
    rfl

/-- Who has less to read has run over something. -/
theorem Ran.ne_nil (h : c.Ran ts n) (hlt : n.weight + 1 ≤ c.weight) : ts ≠ [] := by
  rintro rfl
  have hweight : c.weight = n.weight := congrArg Token.totalWeight h.rest
  omega

/-- From the first of the tokens to where the cursor stands. -/
theorem Ran.spanOf (h : c.Ran (t :: ts) n) : SpanOf c.file (t :: ts) (n.spanFrom t.span.start) := by
  obtain ⟨u, hu⟩ : ∃ u, (t :: ts).getLast? = some u := ⟨_, List.getLast?_eq_some_getLast (by simp)⟩
  refine ⟨t, u, rfl, hu, ?_⟩
  rw [spanFrom, h.lastStop, h.file, hu]
  rfl

/-- The cursor stands in a text that stands somewhere in the file. -/
structure On (file : String) (text : List Char) (c : Cursor) : Prop where
  here : c.file = file
  tokens : ∃ before cs behind s as, text = before ++ (cs ++ behind) ∧ tokenize file cs = .ok s ∧
    (s.shift (byteLength before)).tokens = as ++ c.rest

theorem On.ran (h : c.On file text) (hran : c.Ran ts n) : n.On file text := by
  obtain ⟨before, cs, behind, s, as, htext, hs, htokens⟩ := h.tokens
  refine ⟨hran.file.trans h.here, before, cs, behind, s, as ++ ts, htext, hs, ?_⟩
  rw [htokens, hran.rest, List.append_assoc]

/-- What is ahead stands in the file. -/
theorem On.extract {front back : List Token} (h : c.On file text)
    (hrest : c.rest = front ++ (ts ++ back)) : Extract file text ts := by
  obtain ⟨before, cs, behind, s, as, htext, hs, htokens⟩ := h.tokens
  refine ⟨before, cs, behind, s, as ++ front, back, htext, hs, ?_⟩
  rw [htokens, hrest, List.append_assoc]

/-- A token ahead stands where its span says. -/
theorem On.slice (h : c.On file text) (ht : t ∈ c.rest) :
    t.span.file = file ∧ ∃ piece after, Slice text t.span.start t.span.stop piece after ∧
      Spelled piece t.kind t.value := by
  obtain ⟨before, cs, behind, s, as, rfl, hs, htokens⟩ := h.tokens
  have hmem : t ∈ s.tokens.map (·.shift (byteLength before)) := by
    have htokens : s.tokens.map (·.shift (byteLength before)) = as ++ c.rest := htokens
    rw [htokens]
    exact List.mem_append_right as ht
  obtain ⟨t, ht, rfl⟩ := List.mem_map.1 hmem
  unfold tokenize at hs
  split at hs
  · cases hs
  · next tokens hlexed =>
    cases hs
    have hslices := (cut_of_tokensFrom hlexed).slices [] rfl
    rw [List.nil_append, List.append_nil] at hslices
    obtain ⟨hfile, -, piece, after, hslice, hword⟩ := hslices t ht
    exact ⟨hfile, piece, _, hslice.within, hword⟩

theorem On.current (h : c.On file text) (hne : c.kind ≠ .eof) :
    c.current.span.file = file ∧ ∃ piece after,
      Slice text c.current.span.start c.current.span.stop piece after ∧
        Spelled piece c.current.kind c.current.value :=
  h.slice (rest_eq_current_cons hne ▸ List.mem_cons_self)

end

end Cursor

/-! ### Expressions that are read again -/

/-- What the span covers are tokens of the file, and if every parenthesis among them has its partner
there, then the expression is read from them alone. -/
def Reread (file : String) (text : List Char) (e : Expr) : Prop :=
  ∃ (c : Cursor) (ts : List Token), c.file = file ∧ Extract file text ts ∧ SpanOf file ts e.span ∧
    (Matched ts → ∀ stop, ∃ n, (readExpr (c.facing ts stop) .default).Yields e n ∧ n.rest = [])

/-- From `c` on the expression has been read, up to `n`. Wherever its tokens stand, as long as the
token after them is that at `n` or ends an expression, an expression that begins with them goes on
from there. -/
structure Begun (c : Cursor) (ts : List Token) (e : Expr) (n : Cursor) : Prop where
  ran : c.Ran ts n
  matched : Matched ts
  span : SpanIn c.file ts e.span
  goes : ∀ rest stop, (n.facing rest stop).current = n.current ∨
    (n.facing rest stop).current.kind.AfterExpr →
      Step.Same (readExpr (c.facing (ts ++ rest) stop) .default)
        (readContinuations (n.facing rest stop) .default e)

namespace Begun

variable {file : String} {text : List Char} {c n m : Cursor} {ts us : List Token} {e left : Expr}

/-- An operand is a beginning. -/
theorem operand (h : (readOperand c).Yields e n) (hran : c.Ran ts n) (hmatched : Matched ts)
    (hspan : SpanIn c.file ts e.span) : Begun c ts e n := by
  refine ⟨hran, hmatched, hspan, fun rest stop hnext => ?_⟩
  obtain ⟨ho, rfl⟩ := h
  obtain ⟨ts', hrest, -, -, hpass⟩ := (readOperand_prompt c).ok e ho
  obtain rfl : ts' = ts := List.append_cancel_right (hrest.symm.trans hran.rest)
  rw [readExpr]
  obtain ⟨-, hsame⟩ := Step.andThen_same
    (f := fun left c _ => readContinuations c .default left) (hpass rest stop hnext)
  exact hsame

/-- What follows a beginning makes it longer. -/
theorem step {k : Continuation} (h : Begun c ts left n) (hk : n.kind.continuation? = some k)
    {ne : n.kind ≠ .eof} (hread : (readContinuation n k left ne).Yields e m) (hran : n.Ran us m)
    (hmatched : Matched us) (hspan : SpanIn c.file (ts ++ us) e.span) :
    Begun c (ts ++ us) e m := by
  refine ⟨h.ran.trans hran, h.matched.append hmatched, hspan, fun rest stop hnext => ?_⟩
  have hprogress := (readContinuation n k left ne).progress e hread.1
  obtain ⟨ho, rfl⟩ := hread
  obtain ⟨X, hX, hprompt⟩ := readContinuation_prompt n k left ne
  rw [hX n ne rfl] at ho hran hnext hprogress ⊢
  obtain ⟨us', hrest, -, -, hpass⟩ := hprompt.ok e ho
  obtain rfl : us' = us := List.append_cancel_right (hrest.symm.trans hran.rest)
  have hne : us' ≠ [] := by
    rintro rfl
    have hweight : n.weight = (X n).next.weight := congrArg Token.totalWeight hrest
    omega
  have hcurrent := Cursor.current_facing_kept hrest hne rest stop
  have hkind : (n.facing (us' ++ rest) stop).kind.continuation? = some k := by
    rw [Cursor.kind_eq_of_current hcurrent, hk]
  rw [List.append_assoc]
  obtain ⟨houtcome, hnextEq⟩ := h.goes (us' ++ rest) stop (.inl hcurrent)
  have hstep : Step.Same (readContinuations (n.facing (us' ++ rest) stop) .default left)
      (readContinuations ((X n).next.facing rest stop) .default e) := by
    rw [readContinuations]
    split
    · next hnone => cases hnone.symm.trans hkind
    · next k' hk' =>
      cases hk'.symm.trans hkind
      have hpower : ¬ k.power ≤ .default :=
        Nat.not_le.2 (Nat.lt_of_le_of_lt (by decide) k.comma_lt_power)
      rw [if_neg hpower, hX _ _ hcurrent]
      obtain ⟨-, hsame⟩ := Step.andThen_same
        (f := fun left c _ => readContinuations c .default left) (hpass rest stop hnext)
      exact hsame
  exact ⟨houtcome.trans hstep.1, hnextEq.trans hstep.2⟩

/-- An expression that has just been completed is read again from what its span covers. -/
theorem reread (h : Begun c ts e n) (hon : c.On file text) (hfresh : Fresh file ts e.span) :
    Reread file text e := by
  obtain ⟨opens, core, closes, rfl, hframed, hcore⟩ := hfresh
  have hrest : c.rest = opens ++ (core ++ (closes ++ n.rest)) := by
    rw [h.ran.rest]
    simp
  refine ⟨c, core, hon.here, hon.extract hrest, hframed.covers, fun hmatched stop => ?_⟩
  obtain ⟨rfl, rfl⟩ := hcore hmatched
  have hend : (n.facing [] stop).kind.AfterExpr := (by decide : TokenKind.eof.AfterExpr)
  have hgoes := h.goes [] stop (.inr hend)
  rw [List.nil_append, List.append_nil, List.append_nil] at hgoes
  exact ⟨_, hgoes.yields.2 (readContinuations_yields_of_afterExpr hend _ _), rfl⟩

end Begun

end MgLang
