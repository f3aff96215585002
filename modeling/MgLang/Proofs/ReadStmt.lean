import MgLang.Proofs.ReadExpr
/-!
# Reading printed expressions and statements

Expressions, statements, blocks and arms are read back from their printed form, by one induction
over all of them (`Expr.reads_print`, `readStmt_print`).
-/

namespace MgLang

open Lexeme (separated separated_cons_cons enclosed)
open Step (Reads reads_map)
open Cursor (reads_fixed reads_name reads_accept reads_decline kind_of_shows)

variable {c : Cursor} {ls : List Lexeme}

/-! ### The first lexeme of a printed piece -/

/-- An expression can start with a token of that kind. -/
def TokenKind.startsExpr : TokenKind → Bool
  | int | float | string | interpolated | identifier | kwTrue | kwFalse | kwNone | kwThis
  | kwSome | dash | not | openParen | openBracket | kwNew | kwFn => true
  | _ => false

theorem startsExpr_enclosed {p : Prop} [Decidable p] {row : List Lexeme}
    (h : ∀ ls, (headKind (row ++ ls)).startsExpr = true) (ls : List Lexeme) :
    (headKind (enclosed p row ++ ls)).startsExpr = true := by
  unfold enclosed
  by_cases hp : p
  · rw [if_pos hp]
    rfl
  · rw [if_neg hp]
    exact h ls

theorem Expr.startsExpr_print (e : Expr) (ls : List Lexeme) :
    (headKind (e.print ++ ls)).startsExpr = true := by
  match e with
  | .binary _ op left right =>
    rw [Expr.print, List.append_assoc]
    exact startsExpr_enclosed left.startsExpr_print _
  | .assign _ target value =>
    rw [Expr.print, List.append_assoc]
    exact startsExpr_enclosed target.startsExpr_print _
  | .call _ callee args =>
    rw [Expr.print, List.append_assoc, List.append_assoc]
    exact startsExpr_enclosed callee.startsExpr_print _
  | .member _ object _ _ =>
    rw [Expr.print, List.append_assoc]
    exact startsExpr_enclosed object.startsExpr_print _
  | .index _ object _ =>
    rw [Expr.print, List.append_assoc, List.append_assoc]
    exact startsExpr_enclosed object.startsExpr_print _
  | .unary _ op operand => cases op <;> rfl
  | .bool _ true | .bool _ false => rfl
  | .int _ _ | .float _ _ | .string _ _ | .interpolated _ _ | .ident _ _ | .this _ | .noneLit _
  | .someOf _ _ | .new _ _ _ _ | .array _ _ | .lambda _ _ _ _ => rfl

/-- A statement can start with a token of that kind. -/
def TokenKind.startsStmt : TokenKind → Bool
  | kwLet | kwReturn | kwIf | kwWhile | kwFor | kwMatch | openCurly => true
  | k => k.startsExpr

theorem Stmt.startsStmt_print (s : Stmt) (ls : List Lexeme) :
    (headKind (s.print ++ ls)).startsStmt = true := by
  match s with
  | .expr value =>
    rw [Stmt.print, List.append_assoc]
    have h := value.startsExpr_print ([.fixed .semicolon] ++ ls)
    unfold TokenKind.startsStmt
    split
    iterate 7 rfl
    exact h
  | .returnStmt none _ | .returnStmt (some _) _ => rfl
  | .ifStmt _ _ none _ | .ifStmt _ _ (some _) _ => rfl
  | .block ⟨_, _⟩ => rfl
  | .letStmt _ _ _ _ _ _ | .whileStmt _ _ _ | .forStmt _ _ _ _ _ | .matchStmt _ _ _ => rfl

/-! ### Pieces of statements -/

theorem ArmPattern.headKind_print (pattern : ArmPattern) (ls : List Lexeme) :
    headKind (pattern.print ++ ls) ≠ .closeCurly := by
  cases pattern <;> exact nofun

theorem readArmPattern_print (pattern : ArmPattern) (hc : c.shows = pattern.print ++ ls) :
    (readArmPattern c).Reads ls (·.bare = pattern.bare) := by
  cases pattern with
  | some binding span =>
    have hck : c.kind = .kwSome := kind_of_shows hc
    rw [readArmPattern, hck]
    refine reads_fixed hc fun _ c' _ hc => reads_fixed hc fun _ c' _ hc => ?_
    refine reads_name hc fun t c' _ hc ht => reads_fixed hc fun _ c' _ hc => .done hc ?_
    rw [ht]
    rfl
  | none =>
    have hck : c.kind = .kwNone := kind_of_shows hc
    rw [readArmPattern, hck]
    exact reads_fixed hc fun _ c' _ hc => .done hc rfl
  | wildcard =>
    have hck : c.kind = .identifier := kind_of_shows hc
    have hv : c.current.value = "_" := congrArg Lexeme.value (Cursor.lexeme_current hc)
    rw [readArmPattern, hck]
    simp only
    rw [if_pos hv]
    exact reads_name hc fun _ c' _ hc _ => .done hc rfl

theorem headKind_printStmts (stmts : List Stmt) (ls : List Lexeme) :
    headKind (printStmts stmts ++ .fixed .closeCurly :: ls) ≠ .kwElse := by
  cases stmts with
  | nil => exact nofun
  | cons s stmts =>
    have h := s.startsStmt_print (printStmts stmts ++ .fixed .closeCurly :: ls)
    rw [printStmts, List.append_assoc]
    intro he
    rw [he] at h
    cases h

theorem follow_block (b : Block) (ls : List Lexeme) : follow (b.print ++ ls) = 0 := by
  cases b
  rfl

theorem endsTy_block (b : Block) (ls : List Lexeme) : EndsTy (b.print ++ ls) := by
  cases b
  exact ⟨nofun, nofun⟩

theorem headKind_block (b : Block) (ls : List Lexeme) :
    headKind (b.print ++ ls) = .openCurly := by
  cases b
  rfl

theorem readArm_print {pattern : ArmPattern} {body : Block}
    (hc : c.shows = pattern.print ++ .fixed .fatArrow :: (body.print ++ ls))
    (hb : ∀ c', c'.shows = body.print ++ ls → (readBlock c').Reads ls (·.bare = body.bare)) :
    (readArm c).Reads ls fun a => a.pattern.bare = pattern.bare ∧ a.body.bare = body.bare := by
  rw [readArm]
  refine (readArmPattern_print pattern hc).andThen fun p c' _ hc hp => ?_
  refine reads_fixed hc fun _ c' _ hc => ?_
  rw [if_pos ((kind_of_shows hc).trans (headKind_block body _))]
  exact (hb c' hc).andThen fun b c' _ hc hb => .done hc ⟨hp, hb⟩

theorem readStmt_if (h : c.kind = .kwIf) : readStmt c = readIf c := by
  rw [readStmt, h]

theorem readStmt_block (h : c.kind = .openCurly) : readStmt c = (readBlock c).map .block := by
  rw [readStmt, h]

/-- After `else`, a block or a branch is read as it would be on its own. -/
theorem reads_otherwise {s : Stmt} {P : Stmt → Prop} (hs : s.IsBranch)
    (hc : c.shows = s.print ++ ls) (h : (readStmt c).Reads ls P) :
    (if c.kind = .kwIf then (readIf c).weaken.map some
      else (readBlock c).weaken.map fun b => some (.block b) : Step 0 c (Option Stmt)).Reads ls
        fun o => ∃ a, o = some a ∧ P a := by
  cases s with
  | ifStmt condition body otherwise span =>
    have hck : c.kind = .kwIf := (kind_of_shows hc).trans (by cases otherwise <;> rfl)
    rw [readStmt_if hck] at h
    rw [if_pos hck]
    exact h.present
  | block body =>
    have hck : c.kind = .openCurly := (kind_of_shows hc).trans (headKind_block body ls)
    rw [readStmt_block hck] at h
    rw [if_neg (by rw [hck]; decide)]
    exact reads_map.2 ((reads_map.1 h).weaken.mono fun b hb => ⟨.block b, rfl, hb⟩)
  | _ => exact hs.elim

/-! ### Expressions and statements -/

theorem intValue?_toString {n : Nat} (h : n < intLimit) : intValue? (toString n) = some n := by
  unfold intValue?
  rw [Nat.toString_eq_ofList_toDigits, String.toList_ofList, Nat.ofDigitChars_ten_toDigits]
  exact if_pos h

mutual

/-- A printed expression can be read in every place that asks for no more than its level. -/
theorem Expr.reads_print (e : Expr) (h : e.Writable) : ReadsAt e.print e e.level := by
  match e with
  | .int _ value =>
    refine ReadsAt.literal (f := (.int · value)) (fun _ => ?_) fun _ => rfl
    have hv : value < intLimit := h
    simp only [Token.literal, intValue?_toString hv]
  | .float _ numeral => exact .literal (f := (.float · numeral)) (fun _ => rfl) fun _ => rfl
  | .string _ value => exact .literal (f := (.string · value)) (fun _ => rfl) fun _ => rfl
  | .bool _ true => exact .literal (fun _ => rfl) fun _ => rfl
  | .bool _ false => exact .literal (fun _ => rfl) fun _ => rfl
  | .ident _ name => exact .literal (f := (.ident · name)) (fun _ => rfl) fun _ => rfl
  | .this _ => exact .literal (fun _ => rfl) fun _ => rfl
  | .noneLit _ => exact .literal (fun _ => rfl) fun _ => rfl
  | .interpolated _ _ => exact h.elim
  | .someOf _ inner =>
    refine ReadsAt.of_operand fun hc _ => ?_
    rw [Expr.print, List.append_assoc] at hc
    refine readOperand_some (fun c' hc => (inner.reads_print h).complete hc) hc fun n e he => ?_
    rw [Expr.bare, Expr.bare, he]
  | .binary _ op left right =>
    obtain ⟨hlo, hhi⟩ := op.level_bounds
    have hprimary : op.power.level + 1 ≤ Power.primary.level := Nat.le_trans hhi (by decide)
    -- The right operand is read at the power of `op`, so it has to bind more strongly than `op`.
    have hl := (left.reads_print h.1).printAt (Nat.le_of_succ_le hprimary)
    have hr := (right.reads_print h.2).printAt hprimary
    refine hl.continued op.continuation?_kind (Or.inl (Nat.le_refl _)) (Nat.le_refl _)
      (Nat.le_of_eq op.edge_level.symm) fun hleft hc hls => ?_
    have hls : follow _ ≤ op.power.level := Nat.le_trans hls (Nat.le_of_eq op.edge_level)
    refine readContinuation_binary op (fun c' hc => hr.whole hc (Nat.le_of_lt hhi)
      (Or.inl (Nat.lt_succ_self _)) hls) hc fun n e he => ?_
    rw [Expr.bare, Expr.bare, hleft, he]
  | .unary _ op operand =>
    have ho := (operand.reads_print h).printAt (m := Power.unary.level) (by decide)
    refine ReadsAt.of_operand fun hc hls => ?_
    refine readOperand_unary op (fun c' hc => ho.whole hc (Nat.le_refl _)
      (Or.inr (Nat.le_refl _)) hls) hc fun n e he => ?_
    rw [Expr.bare, Expr.bare, he]
  | .assign _ target value =>
    have ht := (target.reads_print h.1).printAt (m := Power.assignment.level + 1) (by decide)
    have hv := (value.reads_print h.2).printAt (m := Power.assignment.level) (by decide)
    refine ht.continued (k := .assign) (n := Power.assignment.level) rfl (by decide) (by decide)
      (by decide) fun hleft hc hls => ?_
    refine readContinuation_assign (fun c' hc => hv.whole hc (by decide) (by decide) hls) hc
      fun n e he => ?_
    rw [Expr.bare, Expr.bare, hleft, he]
  | .call _ callee args =>
    have hcallee := (callee.reads_print h.1).printAt (m := Power.call.level) (by decide)
    rw [Expr.print, List.append_assoc, List.cons_append]
    refine hcallee.continued (k := .call) (n := Power.call.level) rfl (by decide) (by decide)
      (by decide) fun hleft hc hls => ?_
    rw [List.cons_append, List.append_assoc] at hc
    refine readContinuation_call (fun c' hc => readArgs_print args h.2 (Or.inl rfl) hc) hc
      fun n es hes => ?_
    rw [Expr.bare, Expr.bare, hleft, hes]
  | .member _ object name _ =>
    have ho := (object.reads_print h).printAt (m := Power.call.level) (by decide)
    refine ho.continued (k := .member) (n := Power.member.level) rfl (by decide) (by decide)
      (by decide) fun hleft hc hls => ?_
    refine readContinuation_member hc fun n s => ?_
    rw [Expr.bare, Expr.bare, hleft]
  | .index _ object idx =>
    have ho := (object.reads_print h.1).printAt (m := Power.call.level) (by decide)
    rw [Expr.print, List.append_assoc, List.cons_append]
    refine ho.continued (k := .index) (n := Power.call.level) rfl (by decide) (by decide)
      (by decide) fun hleft hc hls => ?_
    rw [List.cons_append, List.append_assoc] at hc
    refine readContinuation_index (fun c' hc => (idx.reads_print h.2).complete hc) hc
      fun n e he => ?_
    rw [Expr.bare, Expr.bare, hleft, he]
  | .new _ name _ args =>
    refine ReadsAt.of_operand fun hc _ => ?_
    rw [Expr.print, List.append_assoc] at hc
    refine readOperand_new (fun c' hc => readArgs_print args h (Or.inl rfl) hc) hc
      fun n s es hes => ?_
    rw [Expr.bare, Expr.bare, hes]
  | .array _ items =>
    refine ReadsAt.of_operand fun hc _ => ?_
    rw [Expr.print, List.append_assoc] at hc
    refine readOperand_array (fun c' hc => readArgs_print items h (Or.inr rfl) hc) hc
      fun n es hes => ?_
    rw [Expr.bare, Expr.bare, hes]
  | .lambda _ params ret body =>
    refine ReadsAt.of_operand fun hc _ => ?_
    rw [Expr.print, List.append_assoc] at hc
    refine readOperand_lambda h.1 h.2.1 (endsTy_block body _)
      (fun c' hc => readBlock_print body h.2.2 hc) hc fun n ps b hps hb => ?_
    rw [Expr.bare, Expr.bare, hps, hb]

theorem readArgs_print (es : List Expr) (h : ExprsWritable es) {c : Cursor} {ls : List Lexeme}
    {close : TokenKind} (hclose : close = .closeParen ∨ close = .closeBracket)
    (hc : c.shows = separated (printExprs es) ++ .fixed close :: ls) :
    (readArgs c close).Reads ls (bareExprs · = bareExprs es) := by
  have hnext : follow (.fixed close :: ls) = 0 := by rcases hclose with rfl | rfl <;> rfl
  have hcomma : close ≠ .comma := by rcases hclose with rfl | rfl <;> decide
  have hstart : ∀ {k : TokenKind}, k.startsExpr = true → k ≠ close := by
    rintro k hk rfl
    rcases hclose with rfl | rfl <;> cases hk
  match es with
  | [] =>
    have hck : c.kind = close := kind_of_shows hc
    rw [readArgs, if_pos hck]
    exact (Cursor.reads_expectKind hc).andThen fun _ _ _ hc _ => .done hc rfl
  | [e] =>
    have hck := kind_of_shows hc ▸ hstart (e.startsExpr_print _)
    rw [readArgs, if_neg hck]
    refine Reads.weaken (((e.reads_print h.1).complete hc hnext).andThen fun e' c' _ hc he => ?_)
    refine reads_decline hc hcomma fun c' _ hc => ?_
    refine (Cursor.reads_expectKind hc).andThen fun _ _ _ hc _ => .done hc ?_
    simp only [bareExprs, he]
  | e :: e' :: es =>
    rw [printExprs, printExprs, separated_cons_cons, List.append_assoc] at hc
    have hck := kind_of_shows hc ▸ hstart (e.startsExpr_print _)
    rw [readArgs, if_neg hck]
    refine Reads.weaken (((e.reads_print h.1).complete hc).andThen fun _ c' _ hc he => ?_)
    refine reads_accept hc fun c' _ hc => ?_
    rw [if_pos rfl]
    refine (readArgs_print (e' :: es) h.2 hclose hc).andThen fun _ _ _ hc hes => .done hc ?_
    rw [bareExprs, he, hes]
    rfl

/-- A printed block is read back, whatever follows. -/
theorem readBlock_print (b : Block) (h : b.Writable) {c : Cursor} {ls : List Lexeme}
    (hc : c.shows = b.print ++ ls) : (readBlock c).Reads ls (·.bare = b.bare) := by
  obtain ⟨stmts, span⟩ := b
  rw [Block.print, List.append_assoc] at hc
  rw [readBlock]
  refine reads_fixed hc fun token c' _ hc => ?_
  refine (readStmts_print stmts h hc).andThen fun ss c' _ hc hss => .done hc ?_
  rw [Block.bare, Block.bare, hss]

theorem readStmts_print (stmts : List Stmt) (h : StmtsWritable stmts) {c : Cursor}
    {ls : List Lexeme} (hc : c.shows = printStmts stmts ++ .fixed .closeCurly :: ls) :
    (readStmts c).Reads ls (bareStmts · = bareStmts stmts) := by
  match stmts with
  | [] =>
    have hck : c.kind = .closeCurly := kind_of_shows hc
    rw [readStmts, hck]
    exact reads_fixed hc fun _ _ _ hc => .done hc rfl
  | s :: stmts =>
    rw [printStmts, List.append_assoc] at hc
    have hck := kind_of_shows hc ▸ s.startsStmt_print _
    rw [readStmts]
    split
    · next hk => rw [hk] at hck; cases hck
    · next hk => rw [hk] at hck; cases hck
    · refine (readStmt_print s h.1 (headKind_printStmts _ _) hc).andThen fun s' c' _ hc hs => ?_
      refine (readStmts_print stmts h.2 hc).andThen fun ss _ _ hc hss => .done hc ?_
      rw [bareStmts, bareStmts, hs, hss]

/-- A printed statement is read back, unless an `else` follows. -/
theorem readStmt_print (s : Stmt) (h : s.Writable) {c : Cursor} {ls : List Lexeme}
    (hls : headKind ls ≠ .kwElse) (hc : c.shows = s.print ++ ls) :
    (readStmt c).Reads ls (·.bare = s.bare) := by
  match s with
  | .letStmt name mutable ty value _ _ =>
    simp only [Stmt.print, List.cons_append, List.append_assoc] at hc
    have hck : c.kind = .kwLet := kind_of_shows hc
    rw [readStmt, hck]
    refine reads_fixed hc fun token c' _ hc => ?_
    refine (Cursor.accept_reads mutable hc fun _ => headKind_name_ne _ _).andThen
      fun m c' _ hc hm => ?_
    refine reads_name hc fun t c' _ hc ht => ?_
    refine reads_annotation h.1 hc (headKind_fixed_ne _) (endsTy_fixed _)
      fun _ c' _ hc => ?_
    refine reads_fixed hc fun _ c' _ hc => ?_
    refine ((value.reads_print h.2).complete hc).andThen fun e c' _ hc he => ?_
    refine reads_fixed hc fun _ c' _ hc => .done hc ?_
    rw [Stmt.bare, Stmt.bare, ht, hm, he]
  | .returnStmt none _ =>
    have hck : c.kind = .kwReturn := kind_of_shows hc
    rw [readStmt, hck]
    refine reads_fixed hc fun token c' _ hc => ?_
    have hck : c'.kind = .semicolon := kind_of_shows hc
    rw [if_pos hck]
    refine (Reads.done hc rfl).andThen fun v c' _ hc hv => reads_fixed hc fun _ _ _ hc => ?_
    exact .done hc (hv ▸ rfl)
  | .returnStmt (some value) _ =>
    rw [Stmt.print, List.append_assoc] at hc
    have hck : c.kind = .kwReturn := kind_of_shows hc
    rw [readStmt, hck]
    refine reads_fixed hc fun token c' _ hc => ?_
    have hstart := kind_of_shows hc ▸ value.startsExpr_print _
    rw [if_neg fun hk => by rw [hk] at hstart; cases hstart]
    refine ((value.reads_print h).complete hc).present.andThen ?_
    rintro _ c' _ hc ⟨e, rfl, he⟩
    exact reads_fixed hc fun _ _ _ hc => .done hc (by rw [Stmt.bare, Stmt.bare, he])
  | .ifStmt condition body none _ =>
    rw [Stmt.print, List.append_assoc] at hc
    have hck : c.kind = .kwIf := kind_of_shows hc
    rw [readStmt_if hck, readIf]
    refine reads_fixed hc fun token c' _ hc => ?_
    refine ((condition.reads_print h.1).complete hc (follow_block _ _)).andThen
      fun e c' _ hc he => ?_
    refine (readBlock_print body h.2 hc).andThen fun b c' _ hc hb => ?_
    -- An `else` behind the statement would be taken for its own.
    refine reads_decline hc hls fun c' _ hc => ?_
    refine Reads.andThen (P := (· = none)) (.done hc rfl) fun o c' _ hc ho => .done hc ?_
    rw [ho, Stmt.bare, Stmt.bare, he, hb]
  | .ifStmt condition body (some otherwise) _ =>
    simp only [Stmt.print, List.cons_append, List.append_assoc] at hc
    have hck : c.kind = .kwIf := kind_of_shows hc
    rw [readStmt_if hck, readIf]
    refine reads_fixed hc fun token c' _ hc => ?_
    refine ((condition.reads_print h.1).complete hc (follow_block _ _)).andThen
      fun e c' _ hc he => ?_
    refine (readBlock_print body h.2.1 hc).andThen fun b c' _ hc hb => ?_
    refine reads_accept hc fun c' _ hc => ?_
    rw [if_pos rfl]
    have ho := readStmt_print otherwise h.2.2.2 hls hc
    refine (reads_otherwise h.2.2.1 hc ho).andThen ?_
    rintro _ c' _ hc ⟨o, rfl, ho⟩
    exact .done hc (by rw [Stmt.bare, Stmt.bare, he, hb, ho])
  | .whileStmt condition body _ =>
    rw [Stmt.print, List.append_assoc] at hc
    have hck : c.kind = .kwWhile := kind_of_shows hc
    rw [readStmt, hck]
    refine reads_fixed hc fun token c' _ hc => ?_
    refine ((condition.reads_print h.1).complete hc (follow_block _ _)).andThen
      fun e c' _ hc he => ?_
    refine (readBlock_print body h.2 hc).andThen fun b c' _ hc hb => .done hc ?_
    rw [Stmt.bare, Stmt.bare, he, hb]
  | .forStmt name _ iterable body _ =>
    simp only [Stmt.print, List.cons_append, List.append_assoc] at hc
    have hck : c.kind = .kwFor := kind_of_shows hc
    rw [readStmt, hck]
    refine reads_fixed hc fun token c' _ hc => reads_accept hc fun c' _ hc => ?_
    refine reads_name hc fun t c' _ hc ht => reads_fixed hc fun _ c' _ hc => ?_
    refine ((iterable.reads_print h.1).complete hc).andThen fun e c' _ hc he => ?_
    rw [if_pos rfl]
    have hparen : (c'.expect .closeParen).Reads (body.print ++ ls) fun _ => True :=
      (Cursor.reads_expectOr hc (by decide) _).mono fun _ _ => trivial
    refine Reads.andThen ((reads_map (Q := fun _ => True)).2 hparen.weaken) fun _ c' _ hc _ => ?_
    refine (readBlock_print body h.2 hc).andThen fun b c' _ hc hb => .done hc ?_
    rw [Stmt.bare, Stmt.bare, he, hb, ht]
  | .matchStmt scrutinee arms _ =>
    simp only [Stmt.print, List.cons_append, List.append_assoc] at hc
    have hck : c.kind = .kwMatch := kind_of_shows hc
    rw [readStmt, hck]
    refine reads_fixed hc fun token c' _ hc => ?_
    refine ((scrutinee.reads_print h.1).complete hc).andThen fun e c' _ hc he => ?_
    refine reads_fixed hc fun _ c' _ hc => ?_
    refine (readArms_print arms h.2 hc).andThen fun as c' _ hc has => .done hc ?_
    rw [Stmt.bare, Stmt.bare, he, has]
  | .block body =>
    have hck : c.kind = .openCurly := (kind_of_shows hc).trans (headKind_block body ls)
    rw [readStmt_block hck]
    refine reads_map.2 ((readBlock_print body h hc).mono fun b hb => ?_)
    rw [Stmt.bare, Stmt.bare, hb]
  | .expr value =>
    rw [Stmt.print, List.append_assoc] at hc
    have hstart := kind_of_shows hc ▸ value.startsExpr_print _
    rw [readStmt]
    split
    iterate 7 next hk => rw [hk] at hstart; cases hstart
    refine ((value.reads_print h).complete hc).andThen fun e c' _ hc he => ?_
    exact reads_fixed hc fun _ _ _ hc => .done hc (by rw [Stmt.bare, Stmt.bare, he])

theorem readArms_print (arms : List Arm) (h : ArmsWritable arms) {c : Cursor} {ls : List Lexeme}
    (hc : c.shows = printArms arms ++ .fixed .closeCurly :: ls) :
    (readArms c).Reads ls (bareArms · = bareArms arms) := by
  match arms with
  | [] =>
    have hck : c.kind = .closeCurly := kind_of_shows hc
    rw [readArms, if_pos hck]
    exact reads_fixed hc fun _ _ _ hc => .done hc rfl
  | ⟨pattern, body, _⟩ :: arms =>
    simp only [printArms, List.cons_append, List.append_assoc] at hc
    have hck := kind_of_shows hc ▸ pattern.headKind_print _
    rw [readArms, if_neg hck]
    refine (readArm_print hc fun c' hc => readBlock_print body h.1 hc).andThen
      fun a c' _ hc ha => reads_accept hc fun c' _ hc => ?_
    refine (readArms_print arms h.2 hc).andThen fun as _ _ hc has => .done hc ?_
    obtain ⟨p, b, span⟩ := a
    rw [bareArms, bareArms, ha.1, ha.2, has]

end

end MgLang
