import MgLang.Proofs.Finding
/-!
# Readers stop and go on

Every reader is a total function, so it stops. What it leaves of the tokens is a part at their end
(`Step.Finds.suffix`), so wherever it stops, it stands before one of the tokens or at the end mark
and not in front of where it began. If it has read something, it has gone over a token at least: the
weight of what is left says so (`Step.halts_of_suffix`).

`readers_halt` is the main statement, for the tokens of any text and any place among them.
-/

namespace MgLang

/-- The cursor before token `n` of a stream, or at the end mark if there are only `n` tokens. -/
def TokenStream.cursorAt (s : TokenStream) (n lastStop nextId : Nat) : Cursor :=
  ⟨s.file, s.tokens.drop n, s.stop, lastStop, nextId⟩

namespace Step

variable {α : Type} {k : Nat} {c : Cursor}

/-- A reader that began before token `n` has stopped before token `m`, which may be the end mark but
is not behind it. -/
def StopsAt (x : Step k c α) (s : TokenStream) (n m : Nat) : Prop :=
  n ≤ m ∧ m ≤ s.tokens.length ∧ x.next.rest = s.tokens.drop m

/-- A reader that began before token `n` has stopped: it has read something and stands further on,
or it has met a fault and stands no further back. -/
def Halts (x : Step k c α) (s : TokenStream) (n : Nat) : Prop :=
  ∃ m, x.StopsAt s n m ∧ ((∃ a, x.outcome = .ok a ∧ n < m) ∨ ∃ d, x.outcome = .error d)

variable {s : TokenStream} {n : Nat}

theorem exists_stopsAt (x : Step k c α) (hc : c.rest = s.tokens.drop n) (hn : n ≤ s.tokens.length)
    (h : x.next.rest <:+ c.rest) : ∃ m, x.StopsAt s n m := by
  obtain ⟨ts, hts⟩ := h
  have hdrop : ts ++ x.next.rest = s.tokens.drop n := hts.trans hc
  refine ⟨n + ts.length, Nat.le_add_right _ _, ?_, ?_⟩
  · have hlength := congrArg List.length hdrop
    rw [List.length_append, List.length_drop] at hlength
    omega
  · rw [← List.drop_drop, ← hdrop, List.drop_left]

/-- A reader that leaves a part at the end of the tokens, and less than there was if it succeeds. -/
theorem halts_of_suffix {x : Step k c α} (hc : c.rest = s.tokens.drop n) (hn : n ≤ s.tokens.length)
    (h : x.next.rest <:+ c.rest) (hlt : ∀ a, x.outcome = .ok a → x.next.weight + 1 ≤ c.weight) :
    x.Halts s n := by
  obtain ⟨m, hle, hm, hrest⟩ := x.exists_stopsAt hc hn h
  refine ⟨m, ⟨hle, hm, hrest⟩, ?_⟩
  cases hx : x.outcome with
  | error d => exact .inr ⟨d, rfl⟩
  | ok a =>
    refine .inl ⟨a, rfl, Nat.lt_of_le_of_ne hle ?_⟩
    rintro rfl
    have hweight : x.next.weight = c.weight := congrArg Token.totalWeight (hrest.trans hc.symm)
    have := hlt a hx
    omega

/-- Where two readers stop is where the second does, if both succeed. -/
theorem next_of_andThen_ok {β : Type} {j : Nat} {P : Cursor → Prop} {x : Step k c α}
    {f : α → (c' : Cursor) → c'.weight + k ≤ c.weight → Step j c' β}
    (hf : ∀ a c' h b, (f a c' h).outcome = .ok b → P (f a c' h).next) :
    ∀ b, (x.andThen f).outcome = .ok b → P (x.andThen f).next := by
  obtain ⟨out, next, progress⟩ := x
  cases out with
  | error d => exact fun _ h => nomatch h
  | ok a => exact hf a next (progress a rfl)

end Step

/-- Reading up to a mark that closes goes over that mark. -/
theorem weight_readArgs_lt {c : Cursor} {close : TokenKind} (hclose : close ≠ .eof) {es : List Expr}
    (h : (readArgs c close).outcome = .ok es) : (readArgs c close).next.weight + 1 ≤ c.weight := by
  rw [readArgs] at h ⊢
  split
  · next hk =>
    rw [Cursor.expectKind, if_pos hk]
    exact c.weight_advance_lt (hk ▸ hclose)
  · next hk =>
    rw [if_neg hk] at h
    exact (Step.andThen (readExpr c .comma) _).progress es h

/-- Declarations are read up to the end mark. -/
theorem kind_of_readItems_ok (c : Cursor) (d : Declarations) :
    ∀ d', (readItems c d).outcome = .ok d' → (readItems c d).next.kind = .eof := by
  rw [readItems]
  split
  · next hk =>
    rintro d' ⟨⟩
    exact hk
  · exact Step.next_of_andThen_ok (P := fun c' => c'.kind = .eof) (x := readItem c)
      (f := fun item c' _ => readItems c' (d.add item))
      fun item c' _ => kind_of_readItems_ok c' (d.add item)
termination_by c.weight
decreasing_by omega

/-- **Every reader stops, and success takes it on.** At any place among the tokens of a text,
whether or not the end mark is where the text ends, a reader either succeeds and stands further on,
or reports one fault and stands no further back, and it never passes the end mark. Reading
declarations succeeds at the end mark and nowhere else. -/
theorem readers_halt {file : String} {text : List Char} {s t : TokenStream}
    (hs : tokenize file text = .ok s) (ht : t = s ∨ t = s.cutEnd) {n : Nat}
    (hn : n ≤ t.tokens.length) (lastStop nextId : Nat) :
    let c := t.cursorAt n lastStop nextId
    (readItem c).Halts t n ∧ (readStmt c).Halts t n ∧ (readBlock c).Halts t n ∧
      (readParams c).Halts t n ∧
      (∀ close ∈ [TokenKind.closeBracket, .closeParen], (readArgs c close).Halts t n) ∧
      (∀ power, (readTy c power).Halts t n) ∧ (∀ power, (readExpr c power).Halts t n) ∧
      ∀ d, ∃ m, (readItems c d).StopsAt t n m ∧
        ((∃ d', (readItems c d).outcome = .ok d' ∧ m = t.tokens.length) ∨
          ∃ e, (readItems c d).outcome = .error e) := by
  intro c
  have hc : c.rest = t.tokens.drop n := rfl
  refine ⟨?_, ?_, ?_, ?_, ?_, ?_, ?_, ?_⟩
  · exact Step.halts_of_suffix hc hn (readItem_finds c []).suffix (Step.progress _)
  · exact Step.halts_of_suffix hc hn (readStmt_finds c []).suffix (Step.progress _)
  · exact Step.halts_of_suffix hc hn (readBlock_finds c []).suffix (Step.progress _)
  · exact Step.halts_of_suffix hc hn (readParams_advances c).rest (Step.progress _)
  · intro close hclose
    have hne : close ≠ .eof := by
      rintro rfl
      exact absurd hclose (by decide)
    exact Step.halts_of_suffix hc hn (readArgs_finds c close []).suffix
      fun _ h => weight_readArgs_lt hne h
  · intro power
    exact Step.halts_of_suffix hc hn (readTy_advances c power).rest (Step.progress _)
  · intro power
    exact Step.halts_of_suffix hc hn (readExpr_finds c power []).suffix (Step.progress _)
  · intro d
    have hd : Used [] (spots d.exprs) d.exprs := List.Subperm.refl _
    obtain ⟨m, hm⟩ := (readItems c d).exists_stopsAt hc hn (readItems_finds c hd).suffix
    refine ⟨m, hm, ?_⟩
    cases hx : (readItems c d).outcome with
    | error e => exact .inr ⟨e, rfl⟩
    | ok d' =>
      refine .inl ⟨d', rfl, ?_⟩
      obtain ⟨-, hle, hrest⟩ := hm
      have htokens : t.tokens = s.tokens := by rcases ht with rfl | rfl <;> rfl
      have hend : t.tokens.drop m = [] := by
        rw [← hrest]
        refine Cursor.rest_eq_nil_of_eof ?_ (kind_of_readItems_ok c d d' hx)
        intro u hu
        rw [hrest, htokens] at hu
        exact tokenize_ne_eof hs u (List.mem_of_mem_drop hu)
      exact Nat.le_antisymm hle (List.drop_eq_nil_iff.1 hend)

/-- In a text that breaks off in the middle of a call, with no end mark of its own. -/
theorem readers_halt_brokenOff : ∃ s, tokenize "main.mg" "fn f() \x7b g(1".toList = .ok s ∧
    2 ≤ s.cutEnd.tokens.length ∧ (readItem (s.cutEnd.cursorAt 0 0 0)).Halts s.cutEnd 0 ∧
      (readParams (s.cutEnd.cursorAt 2 4 0)).Halts s.cutEnd 2 := by
  have hlexed : ((tokenize "main.mg" "fn f() \x7b g(1".toList).toOption.any fun s =>
      decide (2 ≤ s.cutEnd.tokens.length)) = true := by
    decide +kernel
  obtain ⟨s, hs, hlength⟩ := (Option.any_eq_true _ _).1 hlexed
  have hs := eq_ok_of_toOption hs
  have hlength := of_decide_eq_true hlength
  have hitem := readers_halt hs (.inr rfl) (Nat.zero_le _) 0 0
  have hparams := readers_halt hs (.inr rfl) hlength 4 0
  exact ⟨s, hs, hlength, hitem.1, hparams.2.2.2.1⟩

end MgLang
