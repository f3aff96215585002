import MgLang.Proofs.ReadTy
/-!
# Places of an expression

What the reader of expressions does, one lemma for each thing it can meet: an operand, a
continuation, the end of the expression. `ReadsAt row e min` says that the lexemes `row` are read as
`e` in every place that asks for operators of level `min` or more. It is stated with everything that
comes after the expression, since reading an expression and reading what follows it are one loop:
the left operand of an operator is read by the call that goes on with the operator.

A place of level `min` is left by whatever binds no more strongly than `edge min`, so an expression
that can be read in a demanding place can be read in any other (`ReadsAt.mono`), and in parentheses
it can be read everywhere (`ReadsAt.printAt`).
-/

namespace MgLang

open Lexeme (enclosed)
open Step (Reads)
open Cursor (reads_take reads_fixed reads_name kind_of_shows)

variable {c : Cursor} {ls : List Lexeme}

/-! ### Operands -/

theorem readLiteral_print {l : Lexeme} {f : Node → Expr} {P : Expr → Prop}
    (hf : ∀ t : Token, t.lexeme = l → t.literal = .ok f) (hc : c.shows = l :: ls)
    (h : ∀ n, P (f n)) : (readLiteral c).Reads ls P := by
  have hcur := hf _ (Cursor.lexeme_current hc)
  unfold readLiteral
  split
  · next d hd => rw [hcur] at hd; cases hd
  · next g hg =>
    rw [hcur] at hg
    cases hg
    exact (reads_take hc _).andThen fun t c' _ hc _ => .build hc h

theorem readOperand_literal {l : Lexeme} {f : Node → Expr} {P : Expr → Prop}
    (hf : ∀ t : Token, t.lexeme = l → t.literal = .ok f) (hc : c.shows = l :: ls)
    (h : ∀ n, P (f n)) : (readOperand c).Reads ls P := by
  have hcur := hf _ (Cursor.lexeme_current hc)
  rw [readOperand]
  split
  iterate 8 exact readLiteral_print hf hc h
  all_goals
    exfalso
    unfold Token.literal at hcur
    split at hcur
    all_goals simp_all [Cursor.kind]

theorem readOperand_paren {row : List Lexeme} {P : Expr → Prop}
    (hi : ∀ c', c'.shows = row → (readExpr c' .default).Reads (.fixed .closeParen :: ls) P)
    (hc : c.shows = .fixed .openParen :: row) : (readOperand c).Reads ls P := by
  have hck : c.kind = .openParen := kind_of_shows hc
  rw [readOperand]
  -- The kind of the token decides the branch, and contradicts every other one.
  split <;> first | contradiction | (next h => cases hck.symm.trans h) | skip
  refine reads_fixed hc fun _ c' _ hc => (hi c' hc).andThen fun e c' _ hc he => ?_
  exact reads_fixed hc fun _ _ _ hc => .done hc he

theorem readOperand_some {row : List Lexeme} {P Q : Expr → Prop}
    (hi : ∀ c', c'.shows = row → (readExpr c' .default).Reads (.fixed .closeParen :: ls) P)
    (hc : c.shows = .fixed .kwSome :: .fixed .openParen :: row)
    (h : ∀ n e, P e → Q (.someOf n e)) : (readOperand c).Reads ls Q := by
  have hck : c.kind = .kwSome := kind_of_shows hc
  rw [readOperand]
  split <;> first | contradiction | (next h => cases hck.symm.trans h) | skip
  refine reads_fixed hc fun token c' _ hc => reads_fixed hc fun _ c' _ hc => ?_
  refine (hi c' hc).andThen fun e c' _ hc he => reads_fixed hc fun _ c' _ hc => ?_
  exact .build hc fun n => h n e he

theorem readOperand_unary {row : List Lexeme} {P Q : Expr → Prop} (op : UnaryOp)
    (hi : ∀ c', c'.shows = row → (readExpr c' .unary).Reads ls P)
    (hc : c.shows = .fixed op.kind :: row) (h : ∀ n e, P e → Q (.unary n op e)) :
    (readOperand c).Reads ls Q := by
  have hck : c.kind = op.kind := kind_of_shows hc
  have hu : (readUnary c op.kind op).Reads ls Q := by
    rw [readUnary]
    refine reads_fixed hc (fun token c' _ hc => ?_) (by cases op <;> decide)
    exact (hi c' hc).andThen fun e c' _ hc he => .build hc fun n => h n e he
  rw [readOperand]
  cases op with
  | negate =>
    split <;> first | contradiction | (next h => cases hck.symm.trans h) | skip
    exact hu
  | not =>
    split <;> first | contradiction | (next h => cases hck.symm.trans h) | skip
    exact hu

theorem readOperand_array {row : List Lexeme} {P : List Expr → Prop} {Q : Expr → Prop}
    (hi : ∀ c', c'.shows = row → (readArgs c' .closeBracket).Reads ls P)
    (hc : c.shows = .fixed .openBracket :: row) (h : ∀ n es, P es → Q (.array n es)) :
    (readOperand c).Reads ls Q := by
  have hck : c.kind = .openBracket := kind_of_shows hc
  rw [readOperand]
  split <;> first | contradiction | (next h => cases hck.symm.trans h) | skip
  refine reads_fixed hc fun token c' _ hc => ?_
  exact (hi c' hc).andThen fun es c' _ hc hes => .build hc fun n => h n es hes

theorem readOperand_new {row : List Lexeme} {name : String} {P : List Expr → Prop}
    {Q : Expr → Prop} (hi : ∀ c', c'.shows = row → (readArgs c' .closeParen).Reads ls P)
    (hc : c.shows = .fixed .kwNew :: .name name :: .fixed .openParen :: row)
    (h : ∀ n s es, P es → Q (.new n name s es)) : (readOperand c).Reads ls Q := by
  have hck : c.kind = .kwNew := kind_of_shows hc
  rw [readOperand]
  split <;> first | contradiction | (next h => cases hck.symm.trans h) | skip
  refine reads_fixed hc fun token c' _ hc => reads_name hc fun t c' _ hc ht => ?_
  refine reads_fixed hc fun _ c' _ hc => (hi c' hc).andThen fun es c' _ hc hes => ?_
  exact .build hc fun n => ht ▸ h n t.span es hes

theorem readOperand_lambda {row : List Lexeme} {params : List Param} {ret : Ty}
    {P : Block → Prop} {Q : Expr → Prop} (hparams : ParamsWritable params) (hret : ret.Writable)
    (hrow : EndsTy row) (hb : ∀ c', c'.shows = row → (readBlock c').Reads ls P)
    (hc : c.shows = .fixed .kwFn :: printSignature params ret ++ row)
    (h : ∀ n ps b, ps.map Param.bare = params.map Param.bare → P b → Q (.lambda n ps ret b)) :
    (readOperand c).Reads ls Q := by
  rw [printSignature, List.cons_append, List.append_assoc] at hc
  have hck : c.kind = .kwFn := kind_of_shows hc
  rw [readOperand]
  split <;> first | contradiction | (next h => cases hck.symm.trans h) | skip
  refine reads_fixed hc fun token c' _ hc => ?_
  refine (readParams_print hparams hc).andThen fun ps c' _ hc hps => ?_
  refine (readReturnTy_print hret hc hrow).andThen fun r c' _ hc hr => ?_
  refine (hb c' hc).andThen fun b c' _ hc hb => .build hc fun n => ?_
  exact hr ▸ h n ps b hps hb

/-! ### Continuations -/

/-- How strongly the lexemes bind to an expression before them, 0 if they do not go on with it. -/
def follow (ls : List Lexeme) : Nat :=
  match (headKind ls).continuation? with
  | some k => k.power.level
  | none => 0

/-- Reading goes no further where nothing binds more strongly than `power`. -/
theorem readContinuations_stop {power : Power} {left : Expr} {P : Expr → Prop}
    (hc : c.shows = ls) (hls : follow ls ≤ power.level) (h : P left) :
    (readContinuations c power left).Reads ls P := by
  have hck := kind_of_shows hc
  rw [readContinuations]
  split
  · exact .done hc h
  · next k hk =>
    unfold follow at hls
    rw [← hck, hk] at hls
    rw [if_pos (show k.power ≤ power from hls)]
    exact .done hc h

/-- A continuation that binds more strongly than `power` is read, and then what follows it. -/
theorem readContinuations_step {power : Power} {left : Expr} {l : Lexeme} {k : Continuation}
    {row rest : List Lexeme} {P Q : Expr → Prop} (hc : c.shows = l :: ls)
    (hk : l.kind.continuation? = some k) (hpower : power.level < k.power.level)
    (hx : ∀ ne, (readContinuation c k left ne).Reads row P)
    (hrest : ∀ e c', c'.shows = row → P e → (readContinuations c' power e).Reads rest Q) :
    (readContinuations c power left).Reads rest Q := by
  have hck : c.kind = l.kind := kind_of_shows hc
  rw [readContinuations]
  split
  · next h => rw [hck, hk] at h; cases h
  · next k' h =>
    rw [hck, hk] at h
    cases h
    rw [if_neg (show ¬ k.power ≤ power from Nat.not_le.2 hpower)]
    exact Reads.weaken ((hx _).andThen fun e c' _ hc he => hrest e c' hc he)

section Continuation

variable {row : List Lexeme} {left : Expr} {Q : Expr → Prop}

theorem readContinuation_assign {P : Expr → Prop}
    (hi : ∀ c', c'.shows = row → (readExpr c' .comma).Reads ls P)
    (hc : c.shows = .fixed .assignment :: row) (h : ∀ n e, P e → Q (.assign n left e))
    (ne : c.kind ≠ .eof) : (readContinuation c .assign left ne).Reads ls Q := by
  rw [readContinuation]
  refine (reads_take hc ne).andThen fun _ c' _ hc _ => Reads.weaken ?_
  exact (hi c' hc).andThen fun e c' _ hc he => .build hc fun n => h n e he

theorem readContinuation_binary {P : Expr → Prop} (op : BinaryOp)
    (hi : ∀ c', c'.shows = row → (readExpr c' op.power).Reads ls P)
    (hc : c.shows = .fixed op.kind :: row) (h : ∀ n e, P e → Q (.binary n op left e))
    (ne : c.kind ≠ .eof) : (readContinuation c (.binary op) left ne).Reads ls Q := by
  rw [readContinuation]
  refine (reads_take hc ne).andThen fun _ c' _ hc _ => Reads.weaken ?_
  exact (hi c' hc).andThen fun e c' _ hc he => .build hc fun n => h n e he

theorem readContinuation_call {P : List Expr → Prop}
    (hi : ∀ c', c'.shows = row → (readArgs c' .closeParen).Reads ls P)
    (hc : c.shows = .fixed .openParen :: row) (h : ∀ n es, P es → Q (.call n left es))
    (ne : c.kind ≠ .eof) : (readContinuation c .call left ne).Reads ls Q := by
  rw [readContinuation]
  refine (reads_take hc ne).andThen fun _ c' _ hc _ => ?_
  exact (hi c' hc).andThen fun es c' _ hc hes => .build hc fun n => h n es hes

theorem readContinuation_index {P : Expr → Prop}
    (hi : ∀ c', c'.shows = row → (readExpr c' .default).Reads (.fixed .closeBracket :: ls) P)
    (hc : c.shows = .fixed .openBracket :: row) (h : ∀ n e, P e → Q (.index n left e))
    (ne : c.kind ≠ .eof) : (readContinuation c .index left ne).Reads ls Q := by
  rw [readContinuation]
  refine (reads_take hc ne).andThen fun _ c' _ hc _ => Reads.weaken ?_
  refine (hi c' hc).andThen fun e c' _ hc he => reads_fixed hc fun _ c' _ hc => ?_
  exact .build hc fun n => h n e he

theorem readContinuation_member {name : String}
    (hc : c.shows = .fixed .dot :: .name name :: ls) (h : ∀ n s, Q (.member n left name s))
    (ne : c.kind ≠ .eof) : (readContinuation c .member left ne).Reads ls Q := by
  rw [readContinuation]
  refine (reads_take hc ne).andThen fun _ c' _ hc _ => Reads.weaken ?_
  exact reads_name hc fun t c' _ hc ht => .build hc fun n => ht ▸ h n t.span

end Continuation

/-! ### Places of an expression -/

/-- What follows an expression of that level is no part of it as long as it binds no more strongly
than this. The value of an assignment takes everything, and a call has no operand at its end. -/
def edge (level : Nat) : Nat :=
  if level ≤ Power.assignment.level then Power.comma.level
  else if level ≤ Power.unary.level then level
  else Power.primary.level

/-- A reading that starts with the lexemes `row` reads `e` from them and goes on with what follows,
at any power below `min`. The power of a sign is not below the level of a sign, but a sign is an
operand and no continuation, so it is read there as well. -/
structure ReadsAt (row : List Lexeme) (e : Expr) (min : Nat) : Prop where
  read : ∀ {c : Cursor} {ls rest : List Lexeme} {power : Power} {Q : Expr → Prop},
    c.shows = row ++ ls → power ≤ .unary → power.level < min ∨ Power.unary.level ≤ min →
    follow ls ≤ edge min →
    (∀ left c', c'.shows = ls → left.bare = e.bare →
      (readContinuations c' power left).Reads rest Q) →
    (readExpr c power).Reads rest Q

/-- What is read as one operand is read wherever an operand may stand. -/
theorem ReadsAt.of_operand {row : List Lexeme} {e : Expr} {min : Nat}
    (h : ∀ {c : Cursor} {ls : List Lexeme}, c.shows = row ++ ls → follow ls ≤ edge min →
      (readOperand c).Reads ls (·.bare = e.bare)) : ReadsAt row e min := by
  constructor
  intro c ls rest power Q hc _ _ hls hk
  rw [readExpr]
  exact (h hc hls).andThen fun left c' _ hc hl => hk left c' hc hl

theorem ReadsAt.mono {row : List Lexeme} {e : Expr} {m n : Nat} (h : ReadsAt row e n)
    (hmn : m ≤ n) : ReadsAt row e m := by
  constructor
  intro c ls rest power Q hc hpower hm hls hk
  have hedge : edge m ≤ edge n := by
    simp only [edge, Power.level]
    grind
  exact h.read hc hpower (by omega) (Nat.le_trans hls hedge) hk

/-- Nothing follows that would bind more strongly than `power`, so reading ends there. -/
theorem ReadsAt.whole {row : List Lexeme} {e : Expr} {min : Nat} (h : ReadsAt row e min)
    {power : Power} (hc : c.shows = row ++ ls) (hpower : power ≤ .unary)
    (hmin : power.level < min ∨ Power.unary.level ≤ min) (hls : follow ls ≤ power.level) :
    (readExpr c power).Reads ls (·.bare = e.bare) := by
  have hedge : power.level ≤ edge min := by
    have hu : power.level ≤ Power.unary.level := hpower
    simp only [edge, Power.level] at *
    grind
  exact h.read hc hpower hmin (Nat.le_trans hls hedge) fun left c' hc hl =>
    readContinuations_stop hc hls hl

theorem BinaryOp.level_bounds (op : BinaryOp) :
    Power.assignment.level < op.power.level ∧ op.power.level < Power.unary.level := by
  cases op <;> decide

theorem BinaryOp.edge_level (op : BinaryOp) : edge op.power.level = op.power.level := by
  cases op <;> rfl

theorem Continuation.level_ne_unary (k : Continuation) : k.power.level ≠ Power.unary.level := by
  cases k with
  | binary op => cases op <;> decide
  | _ => decide

theorem Expr.comma_lt_level (e : Expr) : Power.comma.level < e.level := by
  cases e with
  | binary n op l r => exact Nat.lt_trans (by decide) op.level_bounds.1
  | _ => exact Nat.le_add_left _ _

/-- Between brackets, commas and semicolons nothing needs parentheses. -/
theorem ReadsAt.complete {e : Expr} (h : ReadsAt e.print e e.level) {power : Power}
    (hc : c.shows = e.print ++ ls) (hls : follow ls = 0 := by rfl)
    (hpower : power ≤ .comma := by decide) :
    (readExpr c power).Reads ls (·.bare = e.bare) :=
  h.whole hc (Nat.le_trans hpower (by decide))
    (Or.inl (Nat.lt_of_le_of_lt hpower e.comma_lt_level)) (hls ▸ Nat.zero_le _)

/-- With parentheses where they are needed, an expression can be read in any place. -/
theorem ReadsAt.printAt {e : Expr} (h : ReadsAt e.print e e.level) {m : Nat}
    (hm : m ≤ Power.primary.level) : ReadsAt (e.printAt m) e m := by
  unfold Expr.printAt enclosed
  by_cases hlt : e.level < m
  · rw [if_pos hlt]
    refine ReadsAt.mono (n := Power.primary.level) (ReadsAt.of_operand fun hc _ => ?_) hm
    rw [List.append_assoc] at hc
    refine readOperand_paren (fun c' hc => ?_) hc
    exact h.complete hc
  · rw [if_neg hlt]
    exact h.mono (Nat.not_lt.1 hlt)

theorem ReadsAt.literal {l : Lexeme} {f : Node → Expr} {e : Expr} {min : Nat}
    (hf : ∀ span, (Token.mk l.kind l.value span).literal = .ok f)
    (he : ∀ n, (f n).bare = e.bare) : ReadsAt [l] e min := by
  refine ReadsAt.of_operand fun hc _ => readOperand_literal (fun t ht => ?_) hc he
  rw [← hf t.span, ← ht]
  rfl

/-- An expression that goes on from a smaller one, by the continuation `k` that `l` starts. -/
theorem ReadsAt.continued {leftRow row : List Lexeme} {l : Lexeme} {left e : Expr} {m n : Nat}
    {k : Continuation} (hl : ReadsAt leftRow left m) (hk : l.kind.continuation? = some k)
    (hm : n ≤ m ∨ Power.unary.level ≤ m) (hn : n ≤ k.power.level)
    (hedge : k.power.level ≤ edge m)
    (hx : ∀ {c : Cursor} {ls : List Lexeme} {left' : Expr}, left'.bare = left.bare →
      c.shows = l :: row ++ ls → follow ls ≤ edge n → ∀ ne,
        (readContinuation c k left' ne).Reads ls (·.bare = e.bare)) :
    ReadsAt (leftRow ++ l :: row) e n := by
  constructor
  intro c ls rest power Q hc hpower hmin hls hnext
  rw [List.append_assoc] at hc
  have hu : power.level ≤ Power.unary.level := hpower
  have hne := k.level_ne_unary
  have hfollow : follow (l :: row ++ ls) = k.power.level := by
    unfold follow
    rw [show headKind (l :: row ++ ls) = l.kind from rfl, hk]
  -- One loop reads `left` and goes on with `l`, so what comes after `left` is all of the rest.
  refine hl.read hc hpower (by omega) (hfollow ▸ hedge) fun left' c' hc hleft => ?_
  refine readContinuations_step hc hk (by omega) (hx hleft hc hls) fun e' c' hc he => ?_
  exact hnext e' c' hc he

end MgLang
