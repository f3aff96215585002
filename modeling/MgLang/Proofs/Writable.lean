import MgLang.Grammar.Unit
import MgLang.Proofs.Within
/-!
# What a source text can say

Not every tree is the tree of a text. Types are known, integers are in range, what follows an `else`
is a block or a branch, and nothing is `static` outside a class. `Declarations.Writable` says so for
trees without interpolated strings, and whatever is read is of that form as long as there are none
(`readItems_writable`). One lemma for each reader of the grammar leads there.
-/

namespace MgLang

/-! ### Trees that can be written -/

mutual

/-- The type can be written. -/
def Ty.Writable : Ty → Prop
  | .int | .float | .string | .bool | .void | .named _ => True
  | .fn params ret => TysWritable params ∧ ret.Writable
  | .option inner | .array inner => inner.Writable
  | .unknown => False

/-- The types of a list can be written. -/
def TysWritable : List Ty → Prop
  | [] => True
  | ty :: tys => ty.Writable ∧ TysWritable tys

end

/-- The types of parameters can be written. -/
def ParamsWritable (params : List Param) : Prop :=
  ∀ p ∈ params, p.ty.Writable

/-- The statement is a block or a branch. -/
def Stmt.IsBranch : Stmt → Prop
  | .ifStmt _ _ _ _ | .block _ => True
  | _ => False

mutual

/-- The expression can be written without interpolated strings. -/
def Expr.Writable : Expr → Prop
  | .int _ value => value < intLimit
  | .float _ _ | .string _ _ | .bool _ _ | .ident _ _ | .this _ | .noneLit _ => True
  | .interpolated _ _ => False
  | .someOf _ inner => inner.Writable
  | .binary _ _ left right => left.Writable ∧ right.Writable
  | .unary _ _ operand => operand.Writable
  | .assign _ target value => target.Writable ∧ value.Writable
  | .call _ callee args => callee.Writable ∧ ExprsWritable args
  | .member _ object _ _ => object.Writable
  | .index _ object index => object.Writable ∧ index.Writable
  | .new _ _ _ args => ExprsWritable args
  | .array _ items => ExprsWritable items
  | .lambda _ params ret body => ParamsWritable params ∧ ret.Writable ∧ body.Writable

/-- The expressions of a list can be written. -/
def ExprsWritable : List Expr → Prop
  | [] => True
  | e :: es => e.Writable ∧ ExprsWritable es

/-- The statement can be written. -/
def Stmt.Writable : Stmt → Prop
  | .letStmt _ _ ty value _ _ => (∀ t ∈ ty, t.Writable) ∧ value.Writable
  | .returnStmt none _ => True
  | .returnStmt (some value) _ => value.Writable
  | .ifStmt condition body none _ => condition.Writable ∧ body.Writable
  | .ifStmt condition body (some otherwise) _ =>
    condition.Writable ∧ body.Writable ∧ otherwise.IsBranch ∧ otherwise.Writable
  | .whileStmt condition body _ => condition.Writable ∧ body.Writable
  | .forStmt _ _ iterable body _ => iterable.Writable ∧ body.Writable
  | .matchStmt scrutinee arms _ => scrutinee.Writable ∧ ArmsWritable arms
  | .block body => body.Writable
  | .expr value => value.Writable

/-- The statements of a list can be written. -/
def StmtsWritable : List Stmt → Prop
  | [] => True
  | stmt :: stmts => stmt.Writable ∧ StmtsWritable stmts

/-- The block can be written. -/
def Block.Writable : Block → Prop
  | ⟨stmts, _⟩ => StmtsWritable stmts

/-- The arms of a list can be written. -/
def ArmsWritable : List Arm → Prop
  | [] => True
  | ⟨_, body, _⟩ :: arms => body.Writable ∧ ArmsWritable arms

end

/-- The function can be written. -/
def FunctionDecl.Writable (f : FunctionDecl) : Prop :=
  ParamsWritable f.params ∧ f.ret.Writable ∧ f.body.Writable

/-- The field can be written. -/
def FieldDecl.Writable (f : FieldDecl) : Prop :=
  f.ty.Writable ∧ ∀ e ∈ f.initial, e.Writable

/-- The class can be written. -/
def ClassDecl.Writable (c : ClassDecl) : Prop :=
  (∀ f ∈ c.fields, f.Writable) ∧ ∀ m ∈ c.methods, m.Writable

/-- The declarations can be written. -/
def Declarations.Writable (d : Declarations) : Prop :=
  (∀ f ∈ d.functions, f.isStatic = false ∧ f.Writable) ∧ ∀ c ∈ d.classes, c.Writable

/-! ### Trees without interpolated strings -/

/-- The expression is an interpolated string. -/
def Expr.isInterpolated : Expr → Bool
  | .interpolated _ _ => true
  | _ => false

/-- No expression of the list is an interpolated string. -/
def Plain (es : List Expr) : Prop :=
  ∀ e ∈ es, e.isInterpolated = false

/-- The expressions of declarations. -/
def Declarations.exprs (d : Declarations) : List Expr :=
  d.classes.flatMap ClassDecl.within ++ d.functions.flatMap (·.body.within)

theorem plain_append {as bs : List Expr} : Plain (as ++ bs) ↔ Plain as ∧ Plain bs :=
  List.forall_mem_append

theorem Plain.of_subset {as bs : List Expr} (h : Plain bs) (hs : as ⊆ bs) : Plain as :=
  fun e he => h e (hs he)

theorem not_plain_interpolated (node : Node) (parts : List Part) :
    ¬ Plain (Expr.interpolated node parts).within :=
  fun h => Bool.noConfusion (h _ (mem_within_self _))

/-! ### What a reader can give -/

namespace Step

variable {α β : Type} {j k : Nat} {c : Cursor} {P : α → Prop} {Q : β → Prop}

/-- Whatever is read satisfies `P`. -/
def Gives (x : Step k c α) (P : α → Prop) : Prop :=
  ∀ a, x.outcome = .ok a → P a

theorem Gives.done {a : α} (h : P a) : (done c a).Gives P := by
  rintro _ ⟨⟩
  exact h

theorem Gives.fail (d : Diagnostic) (c' : Cursor) : (fail d c' : Step k c α).Gives P :=
  fun _ h => nomatch h

theorem Gives.andThen {x : Step k c α}
    {f : α → (c' : Cursor) → c'.weight + k ≤ c.weight → Step j c' β}
    (hx : x.Gives P) (hf : ∀ a c' h, P a → (f a c' h).Gives Q) : (x.andThen f).Gives Q := by
  obtain ⟨out, next, progress⟩ := x
  cases out with
  | error d => exact Gives.fail d next
  | ok a => exact fun b hb => hf a next (progress a rfl) (hx a rfl) b hb

/-- What is read first does not matter. -/
theorem Gives.behind {x : Step k c α}
    {f : α → (c' : Cursor) → c'.weight + k ≤ c.weight → Step j c' β}
    (hf : ∀ a c' h, (f a c' h).Gives Q) : (x.andThen f).Gives Q :=
  Gives.andThen (P := fun _ => True) (fun _ _ => trivial) fun a c' h _ => hf a c' h

/-- What may be read first does not matter. -/
theorem Gives.behindOpt {x : Step 0 c α}
    {f : α → (c' : Cursor) → c'.weight ≤ c.weight → Step k c' β}
    (hf : ∀ a c' h, (f a c' h).Gives Q) : (x.optThen f).Gives Q := by
  obtain ⟨out, next, progress⟩ := x
  cases out with
  | error d => exact Gives.fail d next
  | ok a => exact fun b hb => hf a next (progress a rfl) b hb

theorem Gives.weaken {x : Step k c α} (h : x.Gives P) : x.weaken.Gives P := h

theorem Gives.moved {x : Step (k + 1) c α} (h : x.Gives P) : x.moved.Gives P := h

theorem Gives.map {f : α → β} {x : Step k c α} (h : x.Gives fun a => Q (f a)) :
    (x.map f).Gives Q :=
  h.andThen fun _ _ _ ha => .done ha

/-- Something that is there. -/
theorem Gives.present {x : Step k c α} (h : x.Gives P) :
    (x.weaken.map some).Gives fun o => ∀ a ∈ o, P a :=
  .map fun a ha _ hb => Option.some.inj hb ▸ h a ha

/-- Something that is not there. -/
theorem Gives.absent : (Step.done c none : Step 0 c (Option α)).Gives fun o => ∀ a ∈ o, P a :=
  Gives.done fun _ h => nomatch h

theorem Gives.build {span : Span} {f : Node → α} (h : ∀ n, P (f n)) :
    (c.build span f).Gives P := by
  rintro _ ⟨⟩
  exact h _

end Step

open Step (Gives)

/-! ### Types -/

theorem primitiveTy?_writable {k : TokenKind} {ty : Ty} (h : primitiveTy? k = some ty) :
    ty.Writable := by
  cases k <;> cases h <;> trivial

theorem wrapper?_writable {name : String} {wrap : Ty → Ty} (h : wrapper? name = some wrap)
    {ty : Ty} (ht : ty.Writable) : (wrap ty).Writable := by
  unfold wrapper? at h
  split at h <;> cases h <;> exact ht

theorem readPrimitiveTy_gives (c : Cursor) : (readPrimitiveTy c).Gives Ty.Writable := by
  unfold readPrimitiveTy
  split
  · next ty h => exact .behind fun _ _ _ => .done (primitiveTy?_writable h)
  · exact .fail _ _

mutual

theorem readTy_gives (c : Cursor) (power : Power) : (readTy c power).Gives Ty.Writable := by
  rw [readTy]
  exact (readTyHead_gives c).andThen fun ty c' _ h => readTySuffixes_gives c' power h
termination_by 4 * c.weight + 3
decreasing_by all_goals omega

theorem readTyHead_gives (c : Cursor) : (readTyHead c).Gives Ty.Writable := by
  rw [readTyHead]
  split
  iterate 5 exact readPrimitiveTy_gives c
  · exact readNamedTy_gives c
  · exact readFnTy_gives c
  · exact .fail _ _
termination_by 4 * c.weight + 2
decreasing_by all_goals omega

theorem readNamedTy_gives (c : Cursor) : (readNamedTy c).Gives Ty.Writable := by
  rw [readNamedTy]
  refine .behind fun name c' _ => ?_
  split
  · next wrap hw _ =>
    exact Gives.weaken (.behind fun _ c' _ => (readTy_gives c' .default).andThen fun _ _ _ hi =>
      .behind fun _ _ _ => .done (wrapper?_writable hw hi))
  · exact .done trivial
termination_by 4 * c.weight + 1
decreasing_by all_goals omega

theorem readFnTy_gives (c : Cursor) : (readFnTy c).Gives Ty.Writable := by
  rw [readFnTy]
  refine .behind fun _ c' _ => .behind fun _ c' _ =>
    (readTys_gives c').andThen fun params c' _ hp => .behind fun arrow c' _ => ?_
  split
  · exact (readTy_gives c' .default).weaken.andThen fun _ _ _ hr => .done ⟨hp, hr⟩
  · exact .done ⟨hp, trivial⟩
termination_by 4 * c.weight + 1
decreasing_by all_goals omega

theorem readTys_gives (c : Cursor) : (readTys c).Gives TysWritable := by
  rw [readTys]
  split
  · exact .behind fun _ _ _ => .done trivial
  · refine (readTy_gives c .default).andThen fun ty c' _ ht => .behind fun comma c' _ => ?_
    split
    · exact (readTys_gives c').andThen fun _ _ _ hs => .done ⟨ht, hs⟩
    · exact .behind fun _ _ _ => .done ⟨ht, trivial⟩
termination_by 4 * c.weight + 4
decreasing_by all_goals omega

theorem readTySuffixes_gives (c : Cursor) (power : Power) {ty : Ty} (h : ty.Writable) :
    (readTySuffixes c power ty).Gives Ty.Writable := by
  rw [readTySuffixes]
  split
  · exact Gives.weaken (.behind fun _ c' _ => .behind fun _ c' _ =>
      readTySuffixes_gives c' power h)
  · exact .done h
termination_by 4 * c.weight
decreasing_by all_goals omega

end

theorem readReturnTy_gives (c : Cursor) : (readReturnTy c).Gives Ty.Writable := by
  refine .behind fun arrow c' _ => ?_
  split
  · exact (readTy_gives c' .default).weaken
  · exact .done trivial

theorem readParamList_gives (c : Cursor) : (readParamList c).Gives ParamsWritable := by
  rw [readParamList]
  split
  · exact .behind fun _ _ _ => .done (List.forall_mem_nil _)
  · refine .behind fun name c' _ => .behind fun _ c' _ =>
      (readTy_gives c' .default).andThen fun ty c' _ ht => .behind fun comma c' _ => ?_
    split
    · exact (readParamList_gives c').andThen fun _ _ _ hs =>
        .done (List.forall_mem_cons.2 ⟨ht, hs⟩)
    · exact .behind fun _ _ _ => .done (List.forall_mem_singleton.2 ht)
termination_by c.weight
decreasing_by all_goals omega

theorem readParams_gives (c : Cursor) : (readParams c).Gives ParamsWritable :=
  .behind fun _ c' _ => readParamList_gives c'

/-! ### Expressions and statements -/

theorem readLiteral_gives (c : Cursor) : (readLiteral c).Gives Expr.Writable := by
  unfold readLiteral
  split
  · exact .fail _ _
  · next f hf =>
    refine .behind fun token c' _ => .build fun n => ?_
    unfold Token.literal at hf
    split at hf
    · split at hf
      · next value hv =>
        cases hf
        unfold intValue? at hv
        grind [Expr.Writable]
      · cases hf
    all_goals cases hf <;> trivial

theorem readInterpolated_gives (c : Cursor) (h : c.kind = .interpolated) :
    (readInterpolated c h).Gives fun e => Plain e.within → e.Writable := by
  rw [readInterpolated]
  exact Gives.moved (.behind fun _ _ _ => .behind fun _ _ _ =>
    .build (P := fun e : Expr => Plain e.within → e.Writable) fun _ h =>
      absurd h (not_plain_interpolated _ _))

mutual

theorem readExpr_gives (c : Cursor) (power : Power) :
    (readExpr c power).Gives fun e => Plain e.within → e.Writable := by
  rw [readExpr]
  exact (readOperand_gives c).andThen fun left c' _ hl => readContinuations_gives c' power hl
termination_by 8 * c.weight + 5
decreasing_by all_goals omega

theorem readOperand_gives (c : Cursor) :
    (readOperand c).Gives fun e => Plain e.within → e.Writable := by
  rw [readOperand]
  split
  iterate 8 exact fun e he _ => readLiteral_gives c e he
  · next h => exact readInterpolated_gives c h
  · refine .behind fun token c' _ => .behind fun _ c' _ =>
      (readExpr_gives c' .default).andThen fun inner c' _ hi => .behind fun _ c' _ =>
        .build fun n h => ?_
    rw [Expr.within, plain_append] at h
    exact hi h.1
  · exact readUnary_gives c .dash .negate
  · exact readUnary_gives c .not .not
  · exact .behind fun _ c' _ => (readExpr_gives c' .default).andThen fun inner c' _ hi =>
      .behind fun _ _ _ => .done hi
  · refine .behind fun token c' _ => (readArgs_gives c' .closeBracket).andThen fun items c' _ hs =>
      .build fun n h => ?_
    rw [Expr.within, plain_append] at h
    exact hs h.1
  · refine .behind fun token c' _ => .behind fun name c' _ => .behind fun _ c' _ =>
      (readArgs_gives c' .closeParen).andThen fun args c' _ hs => .build fun n h => ?_
    rw [Expr.within, plain_append] at h
    exact hs h.1
  · refine .behind fun token c' _ => (readParams_gives c').andThen fun params c' _ hp =>
      (readReturnTy_gives c').andThen fun ret c' _ hr => (readBlock_gives c').andThen
        fun body c' _ hb => .build fun n h => ?_
    rw [Expr.within, plain_append] at h
    exact ⟨hp, hr, hb h.1⟩
  · exact .fail _ _
termination_by 8 * c.weight + 4
decreasing_by all_goals omega

theorem readUnary_gives (c : Cursor) (kind : TokenKind) (op : UnaryOp) :
    (readUnary c kind op).Gives fun e => Plain e.within → e.Writable := by
  rw [readUnary]
  refine .behind fun token c' _ => (readExpr_gives c' .unary).andThen fun operand c' _ ho =>
    .build fun n h => ?_
  rw [Expr.within, plain_append] at h
  exact ho h.1
termination_by 8 * c.weight + 1
decreasing_by all_goals omega

theorem readContinuations_gives (c : Cursor) (power : Power) {left : Expr}
    (hl : Plain left.within → left.Writable) :
    (readContinuations c power left).Gives fun e => Plain e.within → e.Writable := by
  rw [readContinuations]
  split
  · exact .done hl
  · next k hk =>
    split
    · exact .done hl
    · exact Gives.weaken ((readContinuation_gives c k hl _).andThen fun left c' _ hl =>
        readContinuations_gives c' power hl)
termination_by 8 * c.weight + 2
decreasing_by all_goals omega

theorem readContinuation_gives (c : Cursor) (k : Continuation) {left : Expr}
    (hl : Plain left.within → left.Writable) (ne : c.kind ≠ .eof) :
    (readContinuation c k left ne).Gives fun e => Plain e.within → e.Writable := by
  rw [readContinuation]
  refine .behind fun _ c' _ => ?_
  cases k with
  | assign =>
    refine Gives.weaken ((readExpr_gives c' .comma).andThen fun value c' _ hv =>
      .build fun n h => ?_)
    rw [Expr.within, plain_append, plain_append] at h
    exact ⟨hl h.1.1, hv h.1.2⟩
  | binary op =>
    refine Gives.weaken ((readExpr_gives c' op.power).andThen fun right c' _ hr =>
      .build fun n h => ?_)
    rw [Expr.within, plain_append, plain_append] at h
    exact ⟨hl h.1.1, hr h.1.2⟩
  | call =>
    refine (readArgs_gives c' .closeParen).andThen fun args c' _ hs => .build fun n h => ?_
    rw [Expr.within, plain_append, plain_append] at h
    exact ⟨hl h.1.1, hs h.1.2⟩
  | index =>
    refine Gives.weaken ((readExpr_gives c' .default).andThen fun index c' _ hi =>
      .behind fun _ c' _ => .build fun n h => ?_)
    rw [Expr.within, plain_append, plain_append] at h
    exact ⟨hl h.1.1, hi h.1.2⟩
  | member =>
    refine Gives.weaken (.behind fun name c' _ => .build fun n h => ?_)
    rw [Expr.within, plain_append] at h
    exact hl h.1
termination_by 8 * c.weight + 1
decreasing_by all_goals omega

theorem readArgs_gives (c : Cursor) (close : TokenKind) :
    (readArgs c close).Gives fun es => Plain (exprsWithin es) → ExprsWritable es := by
  rw [readArgs]
  split
  · exact .behind fun _ _ _ => .done fun _ => trivial
  · refine Gives.weaken ((readExpr_gives c .comma).andThen fun arg c' _ ha =>
      .behind fun comma c' _ => ?_)
    split
    · refine (readArgs_gives c' close).andThen fun args _ _ hs => .done fun h => ?_
      rw [exprsWithin, plain_append] at h
      exact ⟨ha h.1, hs h.2⟩
    · refine .behind fun _ _ _ => .done fun h => ?_
      rw [exprsWithin, plain_append] at h
      exact ⟨ha h.1, trivial⟩
termination_by 8 * c.weight + 6
decreasing_by all_goals omega

theorem readBlock_gives (c : Cursor) :
    (readBlock c).Gives fun b => Plain b.within → b.Writable := by
  rw [readBlock]
  exact .behind fun token c' _ => (readStmts_gives c').andThen fun stmts c' _ hs => .done hs
termination_by 8 * c.weight + 3
decreasing_by all_goals omega

theorem readStmts_gives (c : Cursor) :
    (readStmts c).Gives fun ss => Plain (stmtsWithin ss) → StmtsWritable ss := by
  rw [readStmts]
  split
  · exact .behind fun _ _ _ => .done fun _ => trivial
  · exact .fail _ _
  · refine (readStmt_gives c).andThen fun stmt c' _ hs => (readStmts_gives c').andThen
      fun stmts _ _ hss => .done fun h => ?_
    rw [stmtsWithin, plain_append] at h
    exact ⟨hs h.1, hss h.2⟩
termination_by 8 * c.weight + 7
decreasing_by all_goals omega

theorem readStmt_gives (c : Cursor) :
    (readStmt c).Gives fun s => Plain s.within → s.Writable := by
  rw [readStmt]
  split
  · refine .behind fun token c' _ => .behind fun mutable c' _ => .behind fun name c' _ =>
      .behind fun colon c' _ => ?_
    have ht : (if colon then (readTy c' .default).weaken.map some else .done c' none :
        Step 0 c' (Option Ty)).Gives fun ty => ∀ t ∈ ty, t.Writable := by
      split
      · exact (readTy_gives c' .default).present
      · exact .absent
    exact ht.andThen fun ty c' _ ht => .behind fun _ c' _ =>
      (readExpr_gives c' .default).andThen fun value c' _ hv => .behind fun _ c' _ =>
        .done fun h => ⟨ht, hv h⟩
  · refine .behind fun token c' _ => ?_
    have hv : (if c'.kind = .semicolon then .done c' none
        else (readExpr c' .default).weaken.map some : Step 0 c' (Option Expr)).Gives
          fun value => ∀ e ∈ value, Plain e.within → e.Writable := by
      split
      · exact .absent
      · exact (readExpr_gives c' .default).present
    refine hv.andThen fun value c' _ hv => .behind fun _ c' _ => .done ?_
    cases value with
    | none => exact fun _ => trivial
    | some value => exact hv value rfl
  · exact fun s hs => (readIf_gives c s hs).2
  · refine .behind fun token c' _ => (readExpr_gives c' .default).andThen fun condition c' _ hc =>
      (readBlock_gives c').andThen fun body c' _ hb => .done fun h => ?_
    rw [Stmt.within, plain_append] at h
    exact ⟨hc h.1, hb h.2⟩
  · refine .behind fun token c' _ => .behind fun parenthesised c' _ => .behind fun name c' _ =>
      .behind fun _ c' _ => (readExpr_gives c' .default).andThen fun iterable c' _ hi =>
        .behind fun _ c' _ => (readBlock_gives c').andThen fun body c' _ hb => .done fun h => ?_
    rw [Stmt.within, plain_append] at h
    exact ⟨hi h.1, hb h.2⟩
  · refine .behind fun token c' _ => (readExpr_gives c' .default).andThen fun scrutinee c' _ hs =>
      .behind fun _ c' _ => (readArms_gives c').andThen fun arms c' _ ha => .done fun h => ?_
    rw [Stmt.within, plain_append] at h
    exact ⟨hs h.1, ha h.2⟩
  · exact (readBlock_gives c).andThen fun b _ _ hb => .done hb
  · exact (readExpr_gives c .default).andThen fun value c' _ hv => .behind fun _ _ _ => .done hv
termination_by 8 * c.weight + 6
decreasing_by all_goals omega

theorem readIf_gives (c : Cursor) :
    (readIf c).Gives fun s => s.IsBranch ∧ (Plain s.within → s.Writable) := by
  rw [readIf]
  refine .behind fun token c' _ => (readExpr_gives c' .default).andThen fun condition c' _ hc =>
    (readBlock_gives c').andThen fun body c' _ hb => .behind fun otherwise c' _ => ?_
  have ho : (if otherwise then
        if c'.kind = .kwIf then (readIf c').weaken.map some
        else (readBlock c').weaken.map fun b => some (.block b)
      else .done c' none : Step 0 c' (Option Stmt)).Gives
        fun o => ∀ s ∈ o, s.IsBranch ∧ (Plain s.within → s.Writable) := by
    split
    · split
      · exact (readIf_gives c').present
      · exact .map fun b hb s hs =>
          Option.some.inj hs ▸ ⟨trivial, readBlock_gives c' b hb⟩
    · exact .absent
  refine ho.andThen fun otherwise c' _ ho => .done ⟨trivial, fun h => ?_⟩
  cases otherwise with
  | none =>
    rw [Stmt.within, plain_append] at h
    exact ⟨hc h.1, hb h.2⟩
  | some otherwise =>
    rw [Stmt.within, plain_append, plain_append] at h
    obtain ⟨hbranch, ho⟩ := ho otherwise rfl
    exact ⟨hc h.1.1, hb h.1.2, hbranch, ho h.2⟩
termination_by 8 * c.weight + 5
decreasing_by all_goals omega

theorem readArms_gives (c : Cursor) :
    (readArms c).Gives fun as => Plain (armsWithin as) → ArmsWritable as := by
  rw [readArms]
  split
  · exact .behind fun _ _ _ => .done fun _ => trivial
  · refine (readArm_gives c).andThen fun arm c' _ ha => .behind fun _ c' _ =>
      (readArms_gives c').andThen fun arms _ _ has => .done fun h => ?_
    obtain ⟨pattern, body, span⟩ := arm
    rw [armsWithin, plain_append] at h
    exact ⟨ha h.1, has h.2⟩
termination_by 8 * c.weight + 7
decreasing_by all_goals omega

theorem readArm_gives (c : Cursor) :
    (readArm c).Gives fun a => Plain a.body.within → a.body.Writable := by
  rw [readArm]
  refine .behind fun pattern c' _ => .behind fun _ c' _ => ?_
  have hb : (if c'.kind = .openCurly then readBlock c'
      else
        (readExpr c' .default).andThen fun value c _ =>
          (c.accept .semicolon).map fun _ => ⟨[.expr value], value.span⟩ : Step 1 c' Block).Gives
        fun b => Plain b.within → b.Writable := by
    split
    · exact readBlock_gives c'
    · refine (readExpr_gives c' .default).andThen fun value c' _ hv => .behind fun _ _ _ =>
        .done fun h => ?_
      rw [Block.within, stmtsWithin, Stmt.within, plain_append] at h
      exact ⟨hv h.1, trivial⟩
  exact hb.andThen fun body c' _ hb => .done hb
termination_by 8 * c.weight + 6
decreasing_by all_goals omega

end

/-! ### Declarations -/

theorem readFunction_gives (c : Cursor) (start : Nat) (isPublic isStatic : Bool) :
    (readFunction c start isPublic isStatic).Gives
      fun f => f.isStatic = isStatic ∧ (Plain f.body.within → f.Writable) := by
  refine .behind fun _ c' _ => .behind fun name c' _ =>
    (readParams_gives c').andThen fun params c' _ hp =>
      (readReturnTy_gives c').andThen fun ret c' _ hr =>
        (readBlock_gives c').andThen fun body c' _ hb => .done ⟨rfl, fun h => ?_⟩
  exact ⟨hp, hr, hb h⟩

theorem readField_gives (c : Cursor) (start : Nat) (isPublic isStatic : Bool) :
    (readField c start isPublic isStatic).Gives
      fun f => (∀ e ∈ f.initial, Plain e.within) → f.Writable := by
  refine .behind fun name c' _ => .behind fun _ c' _ => (readTy_gives c' .default).andThen
    fun ty c' _ ht => .behind fun assigned c' _ => ?_
  have hi : (if assigned then (readExpr c' .default).weaken.map some else .done c' none :
      Step 0 c' (Option Expr)).Gives fun o => ∀ e ∈ o, Plain e.within → e.Writable := by
    split
    · exact (readExpr_gives c' .default).present
    · exact .absent
  refine hi.andThen fun initial c' _ hi => .behind fun _ _ _ => .done fun h => ⟨ht, ?_⟩
  intro e he
  exact hi e he (h e he)

/-- What the expressions of a member have to be for the member to be of a text. -/
def Member.Sound : Member → Prop
  | .field f => (∀ e ∈ f.initial, Plain e.within) → f.Writable
  | .method m => Plain m.body.within → m.Writable

theorem readMembers_gives (c : Cursor) :
    (readMembers c).Gives fun ms => ∀ m ∈ ms, m.Sound := by
  rw [readMembers]
  split
  · exact .behind fun _ _ _ => .done (List.forall_mem_nil _)
  · refine .behindOpt fun visibility c' _ => .behindOpt fun isStatic c' _ => ?_
    refine Gives.andThen (P := Member.Sound) ?_ fun m c'' _ hm =>
      (readMembers_gives c'').andThen fun ms _ _ hms => .done (List.forall_mem_cons.2 ⟨hm, hms⟩)
    split
    · exact (readFunction_gives _ _ _ _).andThen fun _ _ _ hf => .done hf.2
    · exact (readField_gives _ _ _ _).andThen fun _ _ _ hf => .done hf
    · exact .fail _ _
termination_by c.weight
decreasing_by all_goals omega

theorem within_subset_exprsWithin {e : Expr} : ∀ {es : List Expr}, e ∈ es →
    e.within ⊆ exprsWithin es
  | e' :: es, h => by
    rw [exprsWithin]
    rcases List.mem_cons.1 h with rfl | h
    · exact List.subset_append_left _ _
    · exact List.subset_append_of_subset_right _ (within_subset_exprsWithin h)

theorem readClass_gives (c : Cursor) (start : Nat) (isPublic : Bool) :
    (readClass c start isPublic).Gives fun d => Plain d.within → d.Writable := by
  refine .behind fun _ c' _ => .behind fun name c' _ => .behind fun _ c' _ =>
    (readMembers_gives c').andThen fun members c' _ hm => .done fun h => ?_
  obtain ⟨hfields, hmethods⟩ := plain_append.1 h
  constructor
  · intro f hf
    obtain ⟨m, hmem, hmf⟩ := List.mem_filterMap.1 hf
    cases m with
    | method m => cases hmf
    | field f' =>
      cases hmf
      refine hm _ hmem fun e he => hfields.of_subset (within_subset_exprsWithin ?_)
      exact List.mem_filterMap.2 ⟨_, hf, he⟩
  · intro f hf
    obtain ⟨m, hmem, hmf⟩ := List.mem_filterMap.1 hf
    cases m with
    | field f' => cases hmf
    | method m =>
      cases hmf
      exact hm _ hmem (hmethods.of_subset fun e he => List.mem_flatMap.2 ⟨_, hf, he⟩)

/-- What the expressions of declarations have to be for the declarations to be of a text. -/
structure Declarations.Sound (d : Declarations) : Prop where
  functions : ∀ f ∈ d.functions, f.isStatic = false ∧ (Plain f.body.within → f.Writable)
  classes : ∀ c ∈ d.classes, Plain c.within → c.Writable

theorem readItem_gives (c : Cursor) {d : Declarations} (hd : d.Sound) :
    (readItem c).Gives fun i => (d.add i).Sound := by
  unfold readItem
  split
  · exact .behind fun _ _ _ => .done ⟨hd.functions, hd.classes⟩
  · refine .behindOpt fun visibility c' _ => ?_
    split
    · refine (readFunction_gives _ _ _ _).andThen fun f _ _ hf => .done ⟨?_, hd.classes⟩
      exact List.forall_mem_append.2 ⟨hd.functions, List.forall_mem_singleton.2 hf⟩
    · refine (readClass_gives _ _ _).andThen fun d _ _ hc => .done ⟨hd.functions, ?_⟩
      exact List.forall_mem_append.2 ⟨hd.classes, List.forall_mem_singleton.2 hc⟩
    · exact .fail _ _

theorem readItems_gives (c : Cursor) {d : Declarations} (hd : d.Sound) :
    (readItems c d).Gives Declarations.Sound := by
  rw [readItems]
  split
  · exact .done hd
  · exact Gives.weaken ((readItem_gives c hd).andThen fun item c' _ h => readItems_gives c' h)
termination_by c.weight
decreasing_by all_goals omega

/-- **What is read can be written**, as long as no interpolated string is in it. -/
theorem readItems_writable {c : Cursor} {d : Declarations}
    (h : (readItems c {}).outcome = .ok d) (hplain : Plain d.exprs) : d.Writable := by
  have hs : d.Sound := readItems_gives c ⟨List.forall_mem_nil _, List.forall_mem_nil _⟩ d h
  obtain ⟨hclasses, hfunctions⟩ := plain_append.1 hplain
  constructor
  · intro f hf
    obtain ⟨hstatic, hw⟩ := hs.functions f hf
    exact ⟨hstatic, hw (hfunctions.of_subset fun e he => List.mem_flatMap.2 ⟨f, hf, he⟩)⟩
  · intro c hc
    exact hs.classes c hc (hclasses.of_subset fun e he => List.mem_flatMap.2 ⟨c, hc, he⟩)

end MgLang
