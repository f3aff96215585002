import MgLang.Proofs.Advancing
import MgLang.Proofs.CheckRun
import MgLang.Proofs.RoundTrip
import MgLang.Proofs.Rules
/-!
# The numbers of expressions

A reader hands out numbers by counting up, and it builds an expression after those inside it. So
what it makes has numbers between its count at the start and its count at the end, each once, and
the types in it are ones that can be written (`Made`). There is one lemma for each reader, up to
`readItems_made` on a whole text and `parseSource_made`, which also counts what is read before an
error.
-/

namespace MgLang

/-! ### What a reader makes -/

/-- The types that the expression itself declares can be written. -/
def Expr.Declared : Expr → Prop
  | .lambda _ params ret _ => ParamsWritable params ∧ ret.Writable
  | _ => True

/-- The type that the statement itself declares can be written. -/
def Stmt.Declared : Stmt → Prop
  | .letStmt _ _ ty _ _ _ => ∀ t ∈ ty, t.Writable
  | _ => True

/-- Expressions and statements made while counting from `lo` to `hi`. -/
structure Made (lo hi : Nat) (es : List Expr) (ss : List (Ty × Stmt)) : Prop where
  le : lo ≤ hi
  nodup : (es.map Expr.id).Nodup
  range : ∀ e ∈ es, lo ≤ e.id ∧ e.id < hi
  inside : ∀ e ∈ es, ∀ x ∈ e.inside, x.id < e.id
  exprs : ∀ e ∈ es, e.Declared
  stmts : ∀ s ∈ ss, s.2.Declared

namespace Made

variable {lo mid hi : Nat} {es es' : List Expr} {ss ss' : List (Ty × Stmt)}

theorem nil (n : Nat) : Made n n [] [] :=
  ⟨Nat.le_refl n, .nil, List.forall_mem_nil _, List.forall_mem_nil _, List.forall_mem_nil _,
    List.forall_mem_nil _⟩

theorem append (h : Made lo mid es ss) (h' : Made mid hi es' ss') :
    Made lo hi (es ++ es') (ss ++ ss') := by
  have hle := h.le
  have hle' := h'.le
  refine ⟨Nat.le_trans hle hle', ?_, ?_, List.forall_mem_append.2 ⟨h.inside, h'.inside⟩,
    List.forall_mem_append.2 ⟨h.exprs, h'.exprs⟩, List.forall_mem_append.2 ⟨h.stmts, h'.stmts⟩⟩
  · rw [List.map_append]
    refine List.nodup_append.2 ⟨h.nodup, h'.nodup, ?_⟩
    intro i hi i' hi'
    obtain ⟨e, he, rfl⟩ := List.mem_map.1 hi
    obtain ⟨e', he', rfl⟩ := List.mem_map.1 hi'
    have hlt := (h.range e he).2
    have hge := (h'.range e' he').1
    omega
  · refine List.forall_mem_append.2 ⟨?_, ?_⟩
    · intro e he
      have hr := h.range e he
      omega
    · intro e he
      have hr := h'.range e he
      omega

/-- An expression is built after those inside it. -/
theorem expr {e : Expr} (h : Made lo hi e.inside ss) (hid : e.id = hi) (hd : e.Declared) :
    Made lo (hi + 1) e.within ss := by
  have hlt : ∀ x ∈ e.inside, x.id < e.id := fun x hx => hid ▸ (h.range x hx).2
  have hs : Made hi (hi + 1) [e] [] := by
    refine ⟨Nat.le_succ hi, List.pairwise_singleton _ _, ?_, List.forall_mem_singleton.2 hlt,
      List.forall_mem_singleton.2 hd, List.forall_mem_nil _⟩
    refine List.forall_mem_singleton.2 ?_
    omega
  have h' := h.append hs
  rwa [List.append_nil, ← within_eq] at h'

/-- A statement takes no number of its own. -/
theorem stmt (h : Made lo hi es ss) {s : Ty × Stmt} (hd : s.2.Declared) :
    Made lo hi es (ss ++ [s]) :=
  ⟨h.le, h.nodup, h.range, h.inside, h.exprs,
    List.forall_mem_append.2 ⟨h.stmts, List.forall_mem_singleton.2 hd⟩⟩

theorem mono {lo' hi' : Nat} (h : Made lo hi es ss) (hl : lo' ≤ lo) (hh : hi ≤ hi') :
    Made lo' hi' es ss := by
  have hle := h.le
  refine ⟨by omega, h.nodup, ?_, h.inside, h.exprs, h.stmts⟩
  intro e he
  have hr := h.range e he
  omega

/-- The order does not matter. -/
theorem perm (h : Made lo hi es ss) (he : es.Perm es') (hs : ss.Perm ss') : Made lo hi es' ss' := by
  refine ⟨h.le, (he.map _).nodup_iff.1 h.nodup, ?_, ?_, ?_, ?_⟩
  · intro e hm
    exact h.range e (he.mem_iff.2 hm)
  · intro e hm
    exact h.inside e (he.mem_iff.2 hm)
  · intro e hm
    exact h.exprs e (he.mem_iff.2 hm)
  · intro s hm
    exact h.stmts s (hs.mem_iff.2 hm)

end Made

/-! ### How a reader counts -/

namespace Step

variable {α β : Type} {j k n : Nat} {c : Cursor} {P : Nat → α → Prop} {Q : Nat → β → Prop}

/-- The reader never counts back, and what it reads satisfies `P` together with the number it has
counted to from `n`. -/
def Counts (x : Step k c α) (n : Nat) (P : Nat → α → Prop) : Prop :=
  c.nextId = n → n ≤ x.next.nextId ∧ ∀ a, x.outcome = .ok a → P x.next.nextId a

theorem Counts.done {a : α} (h : P n a) : (done c a).Counts n P := by
  rintro rfl
  refine ⟨Nat.le_refl _, ?_⟩
  rintro _ ⟨⟩
  exact h

theorem Counts.fail {d : Diagnostic} {c' : Cursor} (h : c'.nextId = c.nextId) :
    (fail d c' : Step k c α).Counts n P := by
  rintro rfl
  exact ⟨Nat.le_of_eq h.symm, fun _ ha => nomatch ha⟩

theorem Counts.andThen {x : Step k c α}
    {f : α → (c' : Cursor) → c'.weight + k ≤ c.weight → Step j c' β} (hx : x.Counts n P)
    (hf : ∀ a c' h m, P m a → (f a c' h).Counts m Q) : (x.andThen f).Counts n Q := by
  intro hn
  obtain ⟨out, next, progress⟩ := x
  obtain ⟨hle, hp⟩ := hx hn
  cases out with
  | error d => exact ⟨hle, fun _ hb => nomatch hb⟩
  | ok a =>
    obtain ⟨hle', hq⟩ := hf a next (progress a rfl) next.nextId (hp a rfl) rfl
    exact ⟨Nat.le_trans hle hle', hq⟩

/-- What is read first takes no number, and satisfies `R`. -/
theorem Counts.after {R : α → Prop} {x : Step k c α}
    {f : α → (c' : Cursor) → c'.weight + k ≤ c.weight → Step j c' β} (hx : x.Advances)
    (hr : x.Gives R) (hf : ∀ a c' h, R a → (f a c' h).Counts n Q) : (x.andThen f).Counts n Q := by
  refine Counts.andThen (P := fun m a => m = n ∧ R a) ?_ ?_
  · rintro rfl
    exact ⟨Nat.le_of_eq hx.nextId.symm, fun a ha => ⟨hx.nextId, hr a ha⟩⟩
  · rintro a c' h _ ⟨rfl, ha⟩
    exact hf a c' h ha

/-- What is read first takes no number. -/
theorem Counts.behind {x : Step k c α}
    {f : α → (c' : Cursor) → c'.weight + k ≤ c.weight → Step j c' β} (hx : x.Advances)
    (hf : ∀ a c' h, (f a c' h).Counts n Q) : (x.andThen f).Counts n Q :=
  .after (R := fun _ => True) hx (fun _ _ => trivial) fun a c' h _ => hf a c' h

/-- What may be read first takes no number. -/
theorem Counts.behindOpt {x : Step 0 c α}
    {f : α → (c' : Cursor) → c'.weight ≤ c.weight → Step k c' β} (hx : x.Advances)
    (hf : ∀ a c' h, (f a c' h).Counts n Q) : (x.optThen f).Counts n Q := by
  rintro rfl
  obtain ⟨out, next, progress⟩ := x
  have hid : next.nextId = c.nextId := Cursor.LeadsTo.nextId hx
  cases out with
  | error d => exact ⟨Nat.le_of_eq hid.symm, fun _ hb => nomatch hb⟩
  | ok a => exact hf a next (progress a rfl) hid

theorem Counts.mono {P' : Nat → α → Prop} {x : Step k c α} (hx : x.Counts n P)
    (h : ∀ m a, P m a → P' m a) : x.Counts n P' := by
  intro hn
  obtain ⟨hle, hp⟩ := hx hn
  exact ⟨hle, fun a ha => h _ a (hp a ha)⟩

theorem Counts.weaken {x : Step k c α} (h : x.Counts n P) : x.weaken.Counts n P := h

theorem Counts.moved {x : Step (k + 1) c α} (h : x.Counts n P) : x.moved.Counts n P := h

theorem Counts.map {f : α → β} {x : Step k c α} (h : x.Counts n fun m a => Q m (f a)) :
    (x.map f).Counts n Q :=
  h.andThen fun _ _ _ _ ha => .done ha

theorem Counts.build {span : Span} {f : Node → α} (h : P (n + 1) (f ⟨n, span⟩)) :
    (c.build span f).Counts n P := by
  rintro rfl
  refine ⟨Nat.le_succ _, ?_⟩
  rintro _ ⟨⟩
  exact h

/-- Numbers go on counting inside another text. -/
theorem Counts.inside {inner : Cursor} {x : Step k inner α} (h : inner.nextId = c.nextId)
    (hx : x.Counts n P) : (Step.inside c x).Counts n P :=
  fun hn => hx (h.trans hn)

/-- Something that is there. -/
theorem Counts.present {P : Nat → Option α → Prop} {x : Step k c α}
    (h : x.Counts n fun m a => P m (some a)) : (x.weaken.map some).Counts n P :=
  .map h.weaken

end Step

open Step (Counts Gives)

open Cursor (expect_advances expectOr_advances expectName_advances expectKind_advances
  accept_advances)

/-! ### Expressions and statements -/

theorem Token.literal_made {t : Token} {f : Node → Expr} (h : t.literal = .ok f) (n : Nat)
    (span : Span) : Made n (n + 1) (f ⟨n, span⟩).within (f ⟨n, span⟩).statements := by
  unfold Token.literal at h
  split at h
  · split at h
    · cases h
      exact (Made.nil n).expr rfl trivial
    · cases h
  all_goals
    cases h
  all_goals
    exact (Made.nil n).expr rfl trivial

theorem readLiteral_made (c : Cursor) (n : Nat) :
    (readLiteral c).Counts n fun m e => Made n m e.within e.statements := by
  unfold readLiteral
  split
  · exact .fail c.nextId_advance
  · next f hf =>
    refine .behind (Cursor.take_advances _) ?_
    intro token c' _
    exact .build (Token.literal_made hf n _)

mutual

theorem readExpr_made (c : Cursor) (power : Power) (n : Nat) :
    (readExpr c power).Counts n fun m e => Made n m e.within e.statements := by
  rw [readExpr]
  refine (readOperand_made c n).andThen ?_
  intro left c' _ m hl
  exact readContinuations_made c' power hl
termination_by 8 * c.weight + 5
decreasing_by all_goals omega

theorem readOperand_made (c : Cursor) (n : Nat) :
    (readOperand c).Counts n fun m e => Made n m e.within e.statements := by
  rw [readOperand]
  split
  iterate 8 exact readLiteral_made c n
  · next h => exact readInterpolated_made c h n
  · refine .behind (expect_advances _) fun token c' _ => ?_
    refine .behind (expect_advances _) fun _ c' _ => ?_
    refine (readExpr_made c' .default n).andThen fun inner c' _ m hi => ?_
    exact .behind (expect_advances _) fun _ c' _ => .build (hi.expr rfl trivial)
  · exact readUnary_made c .dash .negate n
  · exact readUnary_made c .not .not n
  · refine .behind (expect_advances _) fun _ c' _ => ?_
    refine (readExpr_made c' .default n).andThen fun inner c' _ m hi => ?_
    exact .behind (expect_advances _) fun _ _ _ => .done hi
  · refine .behind (expect_advances _) fun token c' _ => ?_
    refine (readArgs_made c' .closeBracket n).andThen fun items c' _ m hs => ?_
    exact .build (hs.expr rfl trivial)
  · refine .behind (expect_advances _) fun token c' _ => ?_
    refine .behind (expectName_advances _) fun name c' _ => ?_
    refine .behind (expect_advances _) fun _ c' _ => ?_
    refine (readArgs_made c' .closeParen n).andThen fun args c' _ m hs => ?_
    exact .build (hs.expr rfl trivial)
  · refine .behind (expect_advances _) fun token c' _ => ?_
    refine .after (readParams_advances c') (readParams_gives c') fun params c' _ hp => ?_
    refine .after (readReturnTy_advances c') (readReturnTy_gives c') fun ret c' _ hr => ?_
    refine (readBlock_made c' n).andThen fun body c' _ m hb => ?_
    exact .build ((hb ret).expr rfl ⟨hp, hr⟩)
  · exact .fail rfl
termination_by 8 * c.weight + 4
decreasing_by all_goals omega

theorem readUnary_made (c : Cursor) (kind : TokenKind) (op : UnaryOp) (n : Nat) :
    (readUnary c kind op).Counts n fun m e => Made n m e.within e.statements := by
  rw [readUnary]
  refine .behind (expect_advances _) fun token c' _ => ?_
  refine (readExpr_made c' .unary n).andThen fun operand c' _ m ho => ?_
  exact .build (ho.expr rfl trivial)
termination_by 8 * c.weight + 1
decreasing_by all_goals omega

theorem readInterpolated_made (c : Cursor) (h : c.kind = .interpolated) (n : Nat) :
    (readInterpolated c h).Counts n fun m e => Made n m e.within e.statements := by
  rw [readInterpolated]
  refine Counts.moved (.behind c.leadsTo_advance fun token c' _ => ?_)
  refine (readParts_made c' token _ n).andThen fun parts c' _ m hp => ?_
  exact .build (hp.expr rfl trivial)
termination_by 8 * c.weight + 1
decreasing_by
  have := Piece.totalWeight_split_le 0 c.current.value.toList
  simp only [String.length_toList] at this
  omega

theorem readParts_made (c : Cursor) (token : Token) (pieces : List Piece) (n : Nat) :
    (readParts c token pieces).Counts n fun m parts =>
      Made n m (partsWithin parts) (partsStatements parts) := by
  match pieces with
  | [] =>
    rw [readParts]
    exact .done (.nil n)
  | .text raw :: ps =>
    rw [readParts]
    exact .map (readParts_made c token ps n)
  | .hole offset source :: ps =>
    rw [readParts]
    split
    · exact .fail rfl
    · next stream lexed =>
      have hw : stream.weight ≤ source.length := weight_le_length lexed
      refine Counts.andThen (P := fun m e => Made n m e.within e.statements) ?_
        fun value c' _ m hv => ?_
      · refine .inside rfl ((readExpr_made _ .default n).andThen fun value c' _ m hv => ?_)
        exact .behind (expectKind_advances _ _) fun _ _ _ => .done hv
      · refine (readParts_made c' token ps m).andThen fun parts c' _ m hps => ?_
        exact .done (hv.append hps)
  | .unclosed :: ps =>
    rw [readParts]
    exact .fail rfl
termination_by 8 * Piece.totalWeight pieces + 6
decreasing_by
  · simp only [Piece.weight, Piece.totalWeight_cons]
    omega
  · simp only [Piece.weight, Piece.totalWeight_cons, Cursor.weight_ofStream,
      TokenStream.weight_shift]
    omega
  · simp only [Piece.weight, Piece.totalWeight_cons]
    omega

theorem readContinuations_made (c : Cursor) (power : Power) {left : Expr} {lo n : Nat}
    (hl : Made lo n left.within left.statements) :
    (readContinuations c power left).Counts n fun m e => Made lo m e.within e.statements := by
  rw [readContinuations]
  split
  · exact .done hl
  · next k hk =>
    split
    · exact .done hl
    · refine Counts.weaken ((readContinuation_made c k hl _).andThen fun left c' _ m hl => ?_)
      exact readContinuations_made c' power hl
termination_by 8 * c.weight + 2
decreasing_by all_goals omega

theorem readContinuation_made (c : Cursor) (k : Continuation) {left : Expr} {lo n : Nat}
    (hl : Made lo n left.within left.statements) (ne : c.kind ≠ .eof) :
    (readContinuation c k left ne).Counts n fun m e => Made lo m e.within e.statements := by
  rw [readContinuation]
  refine .behind (Cursor.take_advances ne) fun _ c' _ => ?_
  cases k with
  | assign =>
    refine Counts.weaken ((readExpr_made c' .comma n).andThen fun value c' _ m hv => ?_)
    exact .build ((hl.append hv).expr rfl trivial)
  | binary op =>
    refine Counts.weaken ((readExpr_made c' op.power n).andThen fun right c' _ m hr => ?_)
    exact .build ((hl.append hr).expr rfl trivial)
  | call =>
    refine (readArgs_made c' .closeParen n).andThen fun args c' _ m hs => ?_
    exact .build ((hl.append hs).expr rfl trivial)
  | index =>
    refine Counts.weaken ((readExpr_made c' .default n).andThen fun index c' _ m hi => ?_)
    exact .behind (expect_advances _) fun _ c' _ => .build ((hl.append hi).expr rfl trivial)
  | member =>
    refine Counts.weaken (.behind (expectName_advances _) fun name c' _ => ?_)
    exact .build (hl.expr rfl trivial)
termination_by 8 * c.weight + 1
decreasing_by all_goals omega

theorem readArgs_made (c : Cursor) (close : TokenKind) (n : Nat) :
    (readArgs c close).Counts n fun m es => Made n m (exprsWithin es) (exprsStatements es) := by
  rw [readArgs]
  split
  · exact .behind (expectKind_advances _ _) fun _ _ _ => .done (.nil n)
  · refine Counts.weaken ((readExpr_made c .comma n).andThen fun arg c' _ m ha => ?_)
    refine .behind (accept_advances _) fun comma c' _ => ?_
    split
    · refine (readArgs_made c' close m).andThen fun args _ _ m hs => ?_
      exact .done (ha.append hs)
    · exact .behind (expectKind_advances _ _) fun _ _ _ => .done (ha.append (.nil m))
termination_by 8 * c.weight + 6
decreasing_by all_goals omega

theorem readBlock_made (c : Cursor) (n : Nat) :
    (readBlock c).Counts n fun m b => ∀ ret, Made n m b.within (b.statements ret) := by
  rw [readBlock]
  refine .behind (expect_advances _) fun token c' _ => ?_
  exact (readStmts_made c' n).andThen fun stmts c' _ m hs => .done hs
termination_by 8 * c.weight + 3
decreasing_by all_goals omega

theorem readStmts_made (c : Cursor) (n : Nat) :
    (readStmts c).Counts n fun m ss =>
      ∀ ret, Made n m (stmtsWithin ss) (stmtsStatements ret ss) := by
  rw [readStmts]
  split
  · exact .behind (expect_advances _) fun _ _ _ => .done fun _ => .nil n
  · exact .fail rfl
  · refine (readStmt_made c n).andThen fun stmt c' _ m hs => ?_
    refine (readStmts_made c' m).andThen fun stmts _ _ m hss => ?_
    exact .done fun ret => (hs ret).append (hss ret)
termination_by 8 * c.weight + 7
decreasing_by all_goals omega

theorem readStmt_made (c : Cursor) (n : Nat) :
    (readStmt c).Counts n fun m s => ∀ ret, Made n m s.within (s.statements ret) := by
  rw [readStmt]
  split
  · refine .behind (expect_advances _) fun token c' _ => ?_
    refine .behind (accept_advances _) fun mutable c' _ => ?_
    refine .behind (expectName_advances _) fun name c' _ => ?_
    refine .behind (accept_advances _) fun colon c' _ => ?_
    have ht : (if colon then (readTy c' .default).weaken.map some else .done c' none :
        Step 0 c' (Option Ty)).Advances ∧ (if colon then (readTy c' .default).weaken.map some
          else .done c' none : Step 0 c' (Option Ty)).Gives fun ty => ∀ t ∈ ty, t.Writable := by
      split
      · exact ⟨.map (readTy_advances c' .default).weaken, (readTy_gives c' .default).present⟩
      · exact ⟨.done _, .absent⟩
    refine .after ht.1 ht.2 fun ty c' _ ht => .behind (expectOr_advances _ _) fun _ c' _ => ?_
    refine (readExpr_made c' .default n).andThen fun value c' _ m hv => ?_
    exact .behind (expect_advances _) fun _ c' _ => .done fun ret => hv.stmt ht
  · refine .behind (expect_advances _) fun token c' _ => ?_
    have hv : (if c'.kind = .semicolon then .done c' none
        else (readExpr c' .default).weaken.map some : Step 0 c' (Option Expr)).Counts n
          fun m value => ∀ span ret, Made n m (Stmt.returnStmt value span).within
            ((Stmt.returnStmt value span).statements ret) := by
      split
      · exact .done fun _ _ => (Made.nil n).stmt trivial
      · refine .present ((readExpr_made c' .default n).mono ?_)
        intro m value hv _ _
        exact hv.stmt trivial
    exact hv.andThen fun value c' _ m hv => .behind (expect_advances _) fun _ c' _ =>
      .done fun ret => hv _ ret
  · exact readIf_made c n
  · refine .behind (expect_advances _) fun token c' _ => ?_
    refine (readExpr_made c' .default n).andThen fun condition c' _ m hc => ?_
    refine (readBlock_made c' m).andThen fun body c' _ m hb => ?_
    exact .done fun ret => (hc.append (hb ret)).stmt trivial
  · refine .behind (expect_advances _) fun token c' _ => ?_
    refine .behind (accept_advances _) fun parenthesised c' _ => ?_
    refine .behind (expectName_advances _) fun name c' _ => ?_
    refine .behind (expect_advances _) fun _ c' _ => ?_
    refine (readExpr_made c' .default n).andThen fun iterable c' _ m hi => ?_
    refine .behind ?_ fun _ c' _ => ?_
    · split
      · exact .map (expect_advances _).weaken
      · exact .done _
    refine (readBlock_made c' m).andThen fun body c' _ m hb => ?_
    exact .done fun ret => (hi.append (hb ret)).stmt trivial
  · refine .behind (expect_advances _) fun token c' _ => ?_
    refine (readExpr_made c' .default n).andThen fun scrutinee c' _ m hs => ?_
    refine .behind (expect_advances _) fun _ c' _ => ?_
    refine (readArms_made c' m).andThen fun arms c' _ m ha => ?_
    exact .done fun ret => (hs.append (ha ret)).stmt trivial
  · refine .map ((readBlock_made c n).mono ?_)
    intro m b hb ret
    exact (hb ret).stmt trivial
  · refine (readExpr_made c .default n).andThen fun value c' _ m hv => ?_
    exact .behind (expect_advances _) fun _ _ _ => .done fun ret => hv.stmt trivial
termination_by 8 * c.weight + 6
decreasing_by all_goals omega

theorem readIf_made (c : Cursor) (n : Nat) :
    (readIf c).Counts n fun m s => ∀ ret, Made n m s.within (s.statements ret) := by
  rw [readIf]
  refine .behind (expect_advances _) fun token c' _ => ?_
  refine (readExpr_made c' .default n).andThen fun condition c' _ m hc => ?_
  refine (readBlock_made c' m).andThen fun body c' _ m hb => ?_
  refine .behind (accept_advances _) fun otherwise c' _ => ?_
  have ho : (if otherwise then
        if c'.kind = .kwIf then (readIf c').weaken.map some
        else (readBlock c').weaken.map fun b => some (.block b)
      else .done c' none : Step 0 c' (Option Stmt)).Counts m
        fun m o => ∀ span ret, Made n m (Stmt.ifStmt condition body o span).within
          ((Stmt.ifStmt condition body o span).statements ret) := by
    split
    · split
      · refine .present ((readIf_made c' m).mono ?_)
        intro m s hs span ret
        exact ((hc.append (hb ret)).append (hs ret)).stmt trivial
      · refine .map (Counts.weaken ((readBlock_made c' m).mono ?_))
        intro m b hs span ret
        exact ((hc.append (hb ret)).append ((hs ret).stmt (s := (ret, .block b)) trivial)).stmt trivial
    · exact .done fun span ret => (hc.append (hb ret)).stmt trivial
  exact ho.andThen fun otherwise c' _ m ho => .done fun ret => ho _ ret
termination_by 8 * c.weight + 5
decreasing_by all_goals omega

theorem readArms_made (c : Cursor) (n : Nat) :
    (readArms c).Counts n fun m as => ∀ ret, Made n m (armsWithin as) (armsStatements ret as) := by
  rw [readArms]
  split
  · exact .behind (expect_advances _) fun _ _ _ => .done fun _ => .nil n
  · refine (readArm_made c n).andThen fun arm c' _ m ha => ?_
    refine .behind (accept_advances _) fun _ c' _ => ?_
    refine (readArms_made c' m).andThen fun arms _ _ m has => ?_
    obtain ⟨pattern, body, span⟩ := arm
    exact .done fun ret => (ha ret).append (has ret)
termination_by 8 * c.weight + 7
decreasing_by all_goals omega

theorem readArm_made (c : Cursor) (n : Nat) :
    (readArm c).Counts n fun m a => ∀ ret, Made n m a.body.within (a.body.statements ret) := by
  rw [readArm]
  refine .behind (readArmPattern_advances c) fun pattern c' _ => ?_
  refine .behind (expect_advances _) fun _ c' _ => ?_
  have hb : (if c'.kind = .openCurly then readBlock c'
      else
        (readExpr c' .default).andThen fun value c _ =>
          (c.accept .semicolon).map fun _ => ⟨[.expr value], value.span⟩ : Step 1 c' Block).Counts n
        fun m b => ∀ ret, Made n m b.within (b.statements ret) := by
    split
    · exact readBlock_made c' n
    · refine (readExpr_made c' .default n).andThen fun value c' _ m hv => ?_
      refine .behind (accept_advances _) fun _ _ _ => .done fun ret => ?_
      exact (hv.stmt (s := (ret, .expr value)) trivial).append (.nil m)
  exact hb.andThen fun body c' _ m hb => .done hb
termination_by 8 * c.weight + 6
decreasing_by all_goals omega

end

/-! ### Declarations -/

/-- The types that the function itself declares can be written. -/
def FunctionDecl.Declared (f : FunctionDecl) : Prop :=
  ParamsWritable f.params ∧ f.ret.Writable

/-- The types that the fields and methods declare can be written. -/
structure ClassDecl.Declared (c : ClassDecl) : Prop where
  fields : ∀ f ∈ c.fields, f.ty.Writable
  methods : ∀ f ∈ c.methods, f.Declared

theorem readFunction_made (c : Cursor) (start : Nat) (isPublic isStatic : Bool) (n : Nat) :
    (readFunction c start isPublic isStatic).Counts n
      fun m f => f.Declared ∧ Made n m f.body.within f.statements := by
  refine .behind (expect_advances _) fun _ c' _ => ?_
  refine .behind (expectName_advances _) fun name c' _ => ?_
  refine .after (readParams_advances c') (readParams_gives c') fun params c' _ hp => ?_
  refine .after (readReturnTy_advances c') (readReturnTy_gives c') fun ret c' _ hr => ?_
  refine (readBlock_made c' n).andThen fun body c' _ m hb => ?_
  exact .done ⟨⟨hp, hr⟩, hb ret⟩

theorem readField_made (c : Cursor) (start : Nat) (isPublic isStatic : Bool) (n : Nat) :
    (readField c start isPublic isStatic).Counts n fun m f =>
      f.ty.Writable ∧ Made n m (exprsWithin f.initial.toList) (exprsStatements f.initial.toList) := by
  refine .behind (expect_advances _) fun name c' _ => .behind (expect_advances _) fun _ c' _ => ?_
  refine .after (readTy_advances c' .default) (readTy_gives c' .default) fun ty c' _ ht => ?_
  refine .behind (accept_advances _) fun assigned c' _ => ?_
  have hi : (if assigned then (readExpr c' .default).weaken.map some else .done c' none :
      Step 0 c' (Option Expr)).Counts n
        fun m o => Made n m (exprsWithin o.toList) (exprsStatements o.toList) := by
    split
    · refine .present ((readExpr_made c' .default n).mono ?_)
      intro m value hv
      exact hv.append (.nil m)
    · exact .done (.nil n)
  refine hi.andThen fun initial c' _ m hi => ?_
  exact .behind (expect_advances _) fun _ _ _ => .done ⟨ht, hi⟩

namespace Member

/-- The expressions within a member. -/
def within : Member → List Expr
  | field f => exprsWithin f.initial.toList
  | method f => f.body.within

/-- The statements within a member. -/
def statements : Member → List (Ty × Stmt)
  | field f => exprsStatements f.initial.toList
  | method f => f.statements

/-- The types that the member itself declares can be written. -/
def Declared : Member → Prop
  | field f => f.ty.Writable
  | method f => f.Declared

/-- What is gathered member by member is what is gathered from the fields and from the methods. -/
theorem flatMap_perm {γ : Type} {g : Member → List γ} (ms : List Member) :
    (ms.flatMap g).Perm ((ms.filterMap field?).flatMap (fun f => g (.field f)) ++
      (ms.filterMap method?).flatMap fun f => g (.method f)) := by
  induction ms with
  | nil => exact .nil
  | cons m ms ih =>
    cases m with
    | field f =>
      have h := ih.append_left (g (.field f))
      rwa [← List.append_assoc] at h
    | method f =>
      have h := ih.append_left (g (.method f))
      refine h.trans ?_
      rw [← List.append_assoc]
      refine (List.perm_append_comm.append_right _).trans ?_
      rw [List.append_assoc]
      exact .refl _

end Member

theorem readMembers_made (c : Cursor) (n : Nat) :
    (readMembers c).Counts n fun m ms =>
      (∀ x ∈ ms, x.Declared) ∧ Made n m (ms.flatMap Member.within) (ms.flatMap Member.statements) := by
  rw [readMembers]
  split
  · exact .behind (expect_advances _) fun _ _ _ => .done ⟨List.forall_mem_nil _, .nil n⟩
  · refine .behindOpt (readVisibility_advances c) fun visibility c' _ => ?_
    refine .behindOpt (accept_advances _) fun isStatic c' _ => ?_
    refine Counts.andThen (P := fun m x => Member.Declared x ∧ Made n m x.within x.statements) ?_
      fun x c' _ m hx => ?_
    · split
      · exact .map (readFunction_made _ _ _ _ n)
      · exact .map (readField_made _ _ _ _ n)
      · exact .fail rfl
    · refine (readMembers_made c' m).andThen fun ms _ _ m hms => ?_
      exact .done ⟨List.forall_mem_cons.2 ⟨hx.1, hms.1⟩, hx.2.append hms.2⟩
termination_by c.weight
decreasing_by all_goals omega

theorem readClass_made (c : Cursor) (start : Nat) (isPublic : Bool) (n : Nat) :
    (readClass c start isPublic).Counts n
      fun m d => d.Declared ∧ Made n m d.within d.statements := by
  refine .behind (expect_advances _) fun _ c' _ => ?_
  refine .behind (expectName_advances _) fun name c' _ => ?_
  refine .behind (expect_advances _) fun _ c' _ => ?_
  refine (readMembers_made c' n).andThen fun ms c' _ m hms => .done ⟨⟨?_, ?_⟩, ?_⟩
  · intro f hf
    obtain ⟨x, hx, hxf⟩ := List.mem_filterMap.1 hf
    cases x with
    | field f' =>
      cases hxf
      exact hms.1 _ hx
    | method f' => cases hxf
  · intro f hf
    obtain ⟨x, hx, hxf⟩ := List.mem_filterMap.1 hf
    cases x with
    | field f' => cases hxf
    | method f' =>
      cases hxf
      exact hms.1 _ hx
  · have he := Member.flatMap_perm (g := Member.within) ms
    have hs := Member.flatMap_perm (g := Member.statements) ms
    have hfe := flatMap_initials (g := exprsWithin) rfl (by simp [exprsWithin])
      (ms.filterMap Member.field?)
    have hfs := flatMap_initials (g := exprsStatements) rfl (by simp [exprsStatements])
      (ms.filterMap Member.field?)
    have hm := hms.2.perm he hs
    simp only [Member.within, Member.statements, hfe, hfs] at hm
    exact hm

/-- The statements of declarations. -/
def Declarations.statements (d : Declarations) : List (Ty × Stmt) :=
  d.classes.flatMap ClassDecl.statements ++ d.functions.flatMap FunctionDecl.statements

theorem append_append_perm {γ : Type} (as bs as' bs' : List γ) :
    ((as ++ bs) ++ (as' ++ bs')).Perm ((as ++ as') ++ (bs ++ bs')) := by
  rw [List.append_assoc, List.append_assoc]
  refine .append_left as ?_
  rw [← List.append_assoc, ← List.append_assoc]
  exact List.perm_append_comm.append_right bs'

section

variable (d d' : Declarations) (usings : List Using)

/-- Declarations behind those of their kind have the expressions of both. -/
theorem Declarations.exprs_append_perm :
    (d.exprs ++ d'.exprs).Perm
      (exprs ⟨usings, d.functions ++ d'.functions, d.classes ++ d'.classes⟩) := by
  unfold exprs
  rw [List.flatMap_append, List.flatMap_append]
  exact append_append_perm _ _ _ _

/-- Declarations behind those of their kind have the statements of both. -/
theorem Declarations.statements_append_perm :
    (d.statements ++ d'.statements).Perm
      (statements ⟨usings, d.functions ++ d'.functions, d.classes ++ d'.classes⟩) := by
  unfold statements
  rw [List.flatMap_append, List.flatMap_append]
  exact append_append_perm _ _ _ _

end

/-- What is declared was made while counting from `lo` to `hi`. -/
structure Declarations.Made (lo hi : Nat) (d : Declarations) : Prop where
  functions : ∀ f ∈ d.functions, f.Declared
  classes : ∀ c ∈ d.classes, c.Declared
  bodies : MgLang.Made lo hi d.exprs d.statements

namespace Declarations.Made

variable {lo mid hi : Nat} {d d' : Declarations}

theorem empty (n : Nat) : Made n n {} :=
  ⟨List.forall_mem_nil _, List.forall_mem_nil _, .nil n⟩

theorem mono {lo' hi' : Nat} (h : d.Made lo hi) (hl : lo' ≤ lo) (hh : hi ≤ hi') :
    d.Made lo' hi' :=
  ⟨h.functions, h.classes, h.bodies.mono hl hh⟩

/-- Declarations after those of their kind. The imports do not matter. -/
theorem append (h : d.Made lo mid) (h' : d'.Made mid hi) (usings : List Using) :
    Made lo hi ⟨usings, d.functions ++ d'.functions, d.classes ++ d'.classes⟩ := by
  refine ⟨List.forall_mem_append.2 ⟨h.functions, h'.functions⟩,
    List.forall_mem_append.2 ⟨h.classes, h'.classes⟩, ?_⟩
  exact (h.bodies.append h'.bodies).perm (exprs_append_perm d d' usings)
    (statements_append_perm d d' usings)

end Declarations.Made

theorem readItem_made (c : Cursor) {d : Declarations} {lo n : Nat} (hd : d.Made lo n) :
    (readItem c).Counts n fun m item => (d.add item).Made lo m := by
  unfold readItem
  split
  · exact .behind (readUsing_advances c) fun _ _ _ => .done ⟨hd.functions, hd.classes, hd.bodies⟩
  · refine .behindOpt (readVisibility_advances c) fun visibility c' _ => ?_
    split
    · refine (readFunction_made c' _ _ _ n).andThen fun f _ _ m hf => .done ?_
      have hm : Declarations.Made n m ⟨[], [f], []⟩ := by
        refine ⟨List.forall_mem_singleton.2 hf.1, List.forall_mem_nil _, ?_⟩
        simpa [Declarations.exprs, Declarations.statements] using hf.2
      have h := hd.append hm d.usings
      rwa [List.append_nil] at h
    · refine (readClass_made c' _ _ n).andThen fun f _ _ m hf => .done ?_
      have hm : Declarations.Made n m ⟨[], [], [f]⟩ := by
        refine ⟨List.forall_mem_nil _, List.forall_mem_singleton.2 hf.1, ?_⟩
        simpa [Declarations.exprs, Declarations.statements] using hf.2
      have h := hd.append hm d.usings
      rwa [List.append_nil] at h
    · exact .fail rfl

/-- Declarations that are read are made while counting, after those that were there before. -/
theorem readItems_made (c : Cursor) {d : Declarations} {lo n : Nat} (hd : d.Made lo n) :
    (readItems c d).Counts n fun m d => d.Made lo m := by
  rw [readItems]
  split
  · exact .done hd
  · refine Counts.weaken ((readItem_made c hd).andThen fun item c' _ m h => ?_)
    exact readItems_made c' h
termination_by c.weight
decreasing_by all_goals omega

/-- **Numbers are handed out once.** Reading a source text counts on, and what it reads has the
numbers in between, each once. -/
theorem parseSource_made (file text : String) (n : Nat) :
    n ≤ (parseSource file text n).2 ∧
      ∀ d, (parseSource file text n).1 = .ok d → d.Made n (parseSource file text n).2 := by
  unfold parseSource
  split
  · exact ⟨Nat.le_refl n, fun _ h => nomatch h⟩
  · exact readItems_made _ (.empty n) rfl

/-- Reading an expression counts on, and what it reads has the numbers in between, each once. -/
theorem parseExpr_made (file text : String) (offset n : Nat) :
    n ≤ (parseExpr file text offset n).2 ∧ ∀ e, (parseExpr file text offset n).1 = .ok e →
      Made n (parseExpr file text offset n).2 e.within e.statements := by
  unfold parseExpr
  split
  · exact ⟨Nat.le_refl n, fun _ h => nomatch h⟩
  · next stream _ =>
    have hread : ((readExpr (.ofStream (stream.shift offset) n) .default).andThen fun e c' _ =>
        (c'.expectKind .eof c'.unexpected).map fun _ => e).Counts n
          fun m e => Made n m e.within e.statements :=
      (readExpr_made _ .default n).andThen fun e c' _ m he =>
        .behind (expectKind_advances _ _) fun _ _ _ => .done he
    exact hread rfl

end MgLang
