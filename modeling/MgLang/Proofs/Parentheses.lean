import MgLang.Token.Basic
/-!
# Parentheses around an expression

Parentheses raise what is between them and leave no node behind, and a span is made from the spans
of the nodes in it. So the span of `(a + b) * (c)` begins at `a` and ends at `c`: it leaves out a
parenthesis at either end and keeps the partners of both.

`Token.loose` counts the parentheses among tokens that have no partner there, and `Matched` says
that there are none. `Framed` says which of the tokens that an expression is read from its span covers:
all but the parentheses around them. For an expression of its own (`Fresh`) these are left out only
if what the span covers is not `Matched`. There is one lemma for each way a span is made.
-/

namespace MgLang

/-! ### Parentheses without a partner -/

/-- How many closing parentheses have no partner before them, and how many opening ones have none
behind them. -/
@[ext] structure Loose where
  closing : Nat
  opening : Nat
deriving DecidableEq, Repr

namespace Loose

/-- No parenthesis is without a partner. -/
def none : Loose := ⟨0, 0⟩

/-- One thing behind another. The opening ones of the first are partners of the closing ones of the
second, as many as there are. -/
def join (a b : Loose) : Loose :=
  ⟨a.closing + (b.closing - a.opening), b.opening + (a.opening - b.closing)⟩

@[simp] theorem none_join (a : Loose) : none.join a = a := by
  simp [join, none]

@[simp] theorem join_none (a : Loose) : a.join none = a := by
  simp [join, none]

theorem join_assoc (a b c : Loose) : (a.join b).join c = a.join (b.join c) := by
  ext
  · simp only [join]
    omega
  · simp only [join]
    omega

end Loose

/-- The partners that a token of that kind lacks. -/
def TokenKind.loose : TokenKind → Loose
  | .openParen => ⟨0, 1⟩
  | .closeParen => ⟨1, 0⟩
  | _ => .none

namespace Token

/-- The partners that the parentheses among the tokens lack. -/
def loose (ts : List Token) : Loose :=
  ts.foldr (fun t l => t.kind.loose.join l) .none

@[simp] theorem loose_nil : loose [] = .none := rfl

@[simp] theorem loose_cons (t : Token) (ts : List Token) :
    loose (t :: ts) = t.kind.loose.join (loose ts) := rfl

@[simp] theorem loose_append (ts us : List Token) :
    loose (ts ++ us) = (loose ts).join (loose us) := by
  induction ts with
  | nil => simp
  | cons t ts ih => rw [List.cons_append, loose_cons, ih, loose_cons, Loose.join_assoc]

theorem loose_map_shift (ts : List Token) (k : Nat) : loose (ts.map (·.shift k)) = loose ts := by
  induction ts with
  | nil => rfl
  | cons t ts ih => rw [List.map_cons, loose_cons, ih]; rfl

theorem loose_opens {ts : List Token} (h : ∀ t ∈ ts, t.kind = .openParen) :
    loose ts = ⟨0, ts.length⟩ := by
  induction ts with
  | nil => rfl
  | cons t ts ih =>
    obtain ⟨ht, hts⟩ := List.forall_mem_cons.1 h
    rw [loose_cons, ht, ih hts]
    simp [TokenKind.loose, Loose.join]

theorem loose_closes {ts : List Token} (h : ∀ t ∈ ts, t.kind = .closeParen) :
    loose ts = ⟨ts.length, 0⟩ := by
  induction ts with
  | nil => rfl
  | cons t ts ih =>
    obtain ⟨ht, hts⟩ := List.forall_mem_cons.1 h
    rw [loose_cons, ht, ih hts]
    simp [TokenKind.loose, Loose.join, Nat.add_comm]

end Token

open Token (loose)

/-- Every parenthesis among the tokens has its partner there. -/
def Matched (ts : List Token) : Prop := loose ts = .none

instance (ts : List Token) : Decidable (Matched ts) :=
  inferInstanceAs (Decidable (_ = _))

/-- No parenthesis is of that kind. -/
def TokenKind.NoParen (k : TokenKind) : Prop := k.loose = .none

instance (k : TokenKind) : Decidable k.NoParen :=
  inferInstanceAs (Decidable (_ = _))

section

variable {ts us vs : List Token} {t left right : Token}

theorem matched_nil : Matched [] := rfl

theorem Matched.append (h : Matched ts) (h' : Matched us) : Matched (ts ++ us) := by
  unfold Matched at h h' ⊢
  rw [Token.loose_append, h, h']
  rfl

theorem Matched.cons (ht : t.kind.NoParen) (h : Matched ts) : Matched (t :: ts) := by
  unfold Matched at h ⊢
  rw [Token.loose_cons, ht, h]
  rfl

theorem matched_singleton (ht : t.kind.NoParen) : Matched [t] := matched_nil.cons ht

end

/-! ### What a span covers -/

/-- The span is from the first to the last of the tokens. -/
def SpanOf (file : String) (ts : List Token) (span : Span) : Prop :=
  ∃ t u, ts.head? = some t ∧ ts.getLast? = some u ∧ span = ⟨file, t.span.start, u.span.stop⟩

section

variable {file : String} {ts us vs opens core closes : List Token} {t : Token} {s s' : Span}

theorem spanOf_singleton (hfile : t.span.file = file) : SpanOf file [t] t.span := by
  subst hfile
  exact ⟨t, t, rfl, rfl, rfl⟩

/-- From where one thing starts to where another ends, whatever is between. -/
theorem SpanOf.between (h : SpanOf file ts s) (h' : SpanOf file us s') (vs : List Token) :
    SpanOf file (ts ++ vs ++ us) ⟨file, s.start, s'.stop⟩ := by
  obtain ⟨t, u, ht, -, rfl⟩ := h
  obtain ⟨t', u', -, hu', rfl⟩ := h'
  refine ⟨t, u', ?_, ?_, rfl⟩
  · rw [List.append_assoc, List.head?_append, ht]
    rfl
  · rw [List.getLast?_append, hu']
    rfl

/-- The tokens in the middle are those that the span covers. Around them are parentheses. -/
structure Framed (file : String) (opens core closes : List Token) (span : Span) : Prop where
  opens : ∀ t ∈ opens, t.kind = .openParen
  covers : SpanOf file core span
  closes : ∀ t ∈ closes, t.kind = .closeParen

namespace Framed

/-- The closing parentheses behind what is covered are partners of the opening ones in front, and
nothing else in it lacks a partner. -/
theorem loose_left (h : Framed file opens core closes s)
    (hp : Matched (opens ++ (core ++ closes))) : loose (core ++ closes) = ⟨opens.length, 0⟩ := by
  have hopens := Token.loose_opens h.opens
  unfold Matched at hp
  rw [Token.loose_append, hopens] at hp
  generalize loose (core ++ closes) = l at hp ⊢
  obtain ⟨closing, opening⟩ := l
  simp only [Loose.join, Loose.none, Loose.mk.injEq] at hp ⊢
  omega

theorem loose_right (h : Framed file opens core closes s)
    (hp : Matched (opens ++ (core ++ closes))) : loose (opens ++ core) = ⟨0, closes.length⟩ := by
  have hcloses := Token.loose_closes h.closes
  unfold Matched at hp
  rw [← List.append_assoc, Token.loose_append, hcloses] at hp
  generalize loose (opens ++ core) = l at hp ⊢
  obtain ⟨closing, opening⟩ := l
  simp only [Loose.join, Loose.none, Loose.mk.injEq] at hp ⊢
  omega

end Framed

/-- The span of something that is read from the tokens `ts`. -/
def SpanIn (file : String) (ts : List Token) (span : Span) : Prop :=
  ∃ opens core closes, ts = opens ++ (core ++ closes) ∧ Framed file opens core closes span

/-- The span of something that is read from the tokens `ts` and is not in parentheses itself. If it
leaves out a parenthesis, then there is one without a partner in what it covers. -/
def Fresh (file : String) (ts : List Token) (span : Span) : Prop :=
  ∃ opens core closes, ts = opens ++ (core ++ closes) ∧ Framed file opens core closes span ∧
    (Matched core → opens = [] ∧ closes = [])

theorem Fresh.spanIn (h : Fresh file ts s) : SpanIn file ts s := by
  obtain ⟨opens, core, closes, hts, hframed, -⟩ := h
  exact ⟨opens, core, closes, hts, hframed⟩

/-- Parentheses around something are around what its span covers. -/
theorem SpanIn.parentheses {left right : Token} (h : SpanIn file ts s)
    (hl : left.kind = .openParen) (hr : right.kind = .closeParen) :
    SpanIn file (left :: (ts ++ [right])) s := by
  obtain ⟨opens, core, closes, rfl, hframed⟩ := h
  refine ⟨left :: opens, core, closes ++ [right], by simp, ?_, hframed.covers, ?_⟩
  · exact List.forall_mem_cons.2 ⟨hl, hframed.opens⟩
  · exact List.forall_mem_append.2 ⟨hframed.closes, List.forall_mem_singleton.2 hr⟩

/-- All of the tokens are covered. -/
theorem SpanOf.fresh (h : SpanOf file ts s) : Fresh file ts s :=
  ⟨[], ts, [], by simp, ⟨List.forall_mem_nil _, h, List.forall_mem_nil _⟩, fun _ => ⟨rfl, rfl⟩⟩

/-- An operator between two operands. -/
theorem SpanIn.operator (h : SpanIn file ts s) (hp : Matched ts) (ht : t.kind.NoParen)
    (h' : SpanIn file us s') (hp' : Matched us) :
    Fresh file (ts ++ t :: us) ⟨file, s.start, s'.stop⟩ := by
  obtain ⟨opens, core, closes, rfl, hframed⟩ := h
  obtain ⟨opens', core', closes', rfl, hframed'⟩ := h'
  have hleft := hframed.loose_left hp
  have hright := hframed'.loose_right hp'
  refine ⟨opens, core ++ (closes ++ t :: opens') ++ core', closes', by simp, ?_, fun hmatched => ?_⟩
  · exact ⟨hframed.opens, hframed.covers.between hframed'.covers _, hframed'.closes⟩
  · have hsplit : core ++ (closes ++ t :: opens') ++ core' =
        (core ++ closes) ++ t :: (opens' ++ core') := by simp
    rw [hsplit] at hmatched
    unfold Matched at hmatched
    rw [Token.loose_append, Token.loose_cons, ht, hleft, hright] at hmatched
    simp only [Loose.join, Loose.none, Loose.mk.injEq] at hmatched
    exact ⟨List.length_eq_zero_iff.1 (by omega), List.length_eq_zero_iff.1 (by omega)⟩

/-- An operator before its operand. -/
theorem SpanIn.sign (h : SpanIn file us s) (hp : Matched us) (hfile : t.span.file = file)
    (ht : t.kind.NoParen) : Fresh file (t :: us) ⟨file, t.span.start, s.stop⟩ := by
  obtain ⟨opens, core, closes, rfl, hframed⟩ := h
  have hright := hframed.loose_right hp
  refine ⟨[], [t] ++ opens ++ core, closes, by simp, ?_, fun hmatched => ⟨rfl, ?_⟩⟩
  · exact ⟨List.forall_mem_nil _, (spanOf_singleton hfile).between hframed.covers _, hframed.closes⟩
  · rw [List.append_assoc] at hmatched
    unfold Matched at hmatched
    rw [Token.loose_append, Token.loose_cons, ht, hright] at hmatched
    simp only [Token.loose_nil, Loose.join, Loose.none, Loose.mk.injEq] at hmatched
    exact List.length_eq_zero_iff.1 (by omega)

/-- Something that follows an expression and ends with a token of its own. -/
theorem SpanIn.suffix {u : Token} (h : SpanIn file ts s) (hp : Matched ts) (hp' : Matched us)
    (hu : us.getLast? = some u) : Fresh file (ts ++ us) ⟨file, s.start, u.span.stop⟩ := by
  obtain ⟨opens, core, closes, rfl, hframed⟩ := h
  have hleft := hframed.loose_left hp
  refine ⟨opens, core ++ closes ++ us, [], by simp, ⟨hframed.opens, ?_, List.forall_mem_nil _⟩, ?_⟩
  · obtain ⟨t, v, ht, -, rfl⟩ := hframed.covers
    refine ⟨t, u, ?_, ?_, rfl⟩
    · rw [List.append_assoc, List.head?_append, ht]
      rfl
    · rw [List.getLast?_append, hu]
      rfl
  · intro hmatched
    unfold Matched at hmatched hp'
    rw [Token.loose_append, hleft, hp'] at hmatched
    simp only [Loose.join, Loose.none, Loose.mk.injEq] at hmatched
    exact ⟨List.length_eq_zero_iff.1 (by omega), rfl⟩

end

end MgLang
