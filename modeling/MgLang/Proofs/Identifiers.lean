import MgLang.Proofs.Annotations
import MgLang.Proofs.Reachable
import MgLang.Proofs.Spots
import MgLang.Proofs.TyText
/-!
# Names that are read

The lexer makes an identifier only of a word that is not reserved (`proper_of_tokenize`). So what a
source text declares goes by such names, and so do the classes in the types that are written there
(`parseSource_named`); and it stays so, whatever files are added to a compilation
(`Reachable.named`). One lemma for each reader of the grammar leads there.
-/

namespace MgLang

/-! ### Trees with names that can be written -/

/-- The classes in these annotations go by names that can be written. -/
def Annotated (as : List Annotation) : Prop :=
  ∀ a ∈ as, a.ty.Named

theorem annotated_append {as bs : List Annotation} :
    Annotated (as ++ bs) ↔ Annotated as ∧ Annotated bs :=
  List.forall_mem_append

/-- The class has a name that can be written, and so have the classes in its annotations. -/
structure ClassDecl.Named (c : ClassDecl) : Prop where
  name : IsName c.name
  annotations : Annotated c.annotations

/-- The declarations hold only names of classes that can be written. -/
structure Declarations.Named (d : Declarations) : Prop where
  functions : ∀ f ∈ d.functions, Annotated f.annotations
  classes : ∀ c ∈ d.classes, c.Named

/-! ### Tokens with names that can be written -/

/-- If the token is an identifier, it is not reserved. -/
def Token.Proper (t : Token) : Prop :=
  t.kind = .identifier → IsName t.value

/-- All tokens that are still to be read are proper. -/
def Cursor.Proper (c : Cursor) : Prop :=
  ∀ t ∈ c.rest, t.Proper

theorem Cut.proper {file : String} {behind cs : List Char} {start : Nat} {tokens : List Token}
    (h : Cut file behind start cs tokens) : ∀ t ∈ tokens, t.Proper := by
  induction h with
  | last => exact List.forall_mem_nil _
  | token hgap hpiece hspan hrest ih =>
    refine List.forall_mem_cons.2 ⟨fun hk => ?_, ih⟩
    rw [hk] at hpiece
    obtain ⟨hvalue, -⟩ := hpiece.identifier
    unfold IsName
    rwa [hvalue, String.toList_ofList, ← hvalue]

theorem proper_of_tokenize {file : String} {cs : List Char} {s : TokenStream}
    (h : tokenize file cs = .ok s) : ∀ t ∈ s.tokens, t.Proper := by
  unfold tokenize at h
  split at h
  · cases h
  · next tokens htokens =>
    cases h
    exact (cut_of_tokensFrom htokens).proper

theorem Cursor.proper_ofStream {file : String} {cs : List Char} {s : TokenStream}
    (h : tokenize file cs = .ok s) (n : Nat) : (ofStream s n).Proper :=
  proper_of_tokenize h

/-- Tokens of a text that starts somewhere else are proper as well. -/
theorem Cursor.proper_shift {file : String} {cs : List Char} {s : TokenStream}
    (h : tokenize file cs = .ok s) (k n : Nat) : (ofStream (s.shift k) n).Proper :=
  List.forall_mem_map.2 (proper_of_tokenize h)

namespace Cursor.Proper

variable {c : Cursor}

theorem current (h : c.Proper) : c.current.Proper := by
  unfold Cursor.current
  split
  · rintro ⟨⟩
  · next t r hr => exact h t (hr ▸ List.mem_cons_self)

theorem advance (h : c.Proper) : c.advance.Proper := by
  unfold Cursor.advance
  split
  · exact h
  · next t r hr => exact fun u hu => h u (hr ▸ List.mem_cons_of_mem t hu)

end Cursor.Proper

/-! ### What a reader draws from proper tokens -/

namespace Step

variable {α β : Type} {j k : Nat} {c : Cursor} {P : α → Prop} {Q : β → Prop}

/-- From proper tokens is read what satisfies `P`, and proper tokens are left. -/
def Draws (x : Step k c α) (P : α → Prop) : Prop :=
  c.Proper → ∀ a, x.outcome = .ok a → x.next.Proper ∧ P a

namespace Draws

theorem done {a : α} (h : P a) : (Step.done c a).Draws P := by
  rintro hc _ ⟨⟩
  exact ⟨hc, h⟩

theorem fail (d : Diagnostic) (c' : Cursor) : (Step.fail d c' : Step k c α).Draws P :=
  fun _ _ h => nomatch h

theorem andThen {x : Step k c α} {f : α → (c' : Cursor) → c'.weight + k ≤ c.weight → Step j c' β}
    (hx : x.Draws P) (hf : ∀ a c' h, P a → (f a c' h).Draws Q) : (x.andThen f).Draws Q := by
  obtain ⟨out, next, progress⟩ := x
  intro hc
  cases out with
  | error d => exact fun _ h => nomatch h
  | ok a =>
    obtain ⟨hnext, ha⟩ := hx hc a rfl
    exact hf a next (progress a rfl) ha hnext

/-- Nothing of what a reader only steps over matters. -/
theorem of_advances {x : Step k c α} (h : x.Advances) : x.Draws fun _ => True :=
  fun hc _ _ => ⟨fun t ht => hc t ((Cursor.LeadsTo.rest h).subset ht), trivial⟩

theorem behind {x : Step k c α} {f : α → (c' : Cursor) → c'.weight + k ≤ c.weight → Step j c' β}
    (hx : x.Advances) (hf : ∀ a c' h, (f a c' h).Draws Q) : (x.andThen f).Draws Q :=
  (of_advances hx).andThen fun a c' h _ => hf a c' h

/-- What may be read first does not matter. -/
theorem behindOpt {x : Step 0 c α} {f : α → (c' : Cursor) → c'.weight ≤ c.weight → Step k c' β}
    (hx : x.Advances) (hf : ∀ a c' h, (f a c' h).Draws Q) : (x.optThen f).Draws Q := by
  have hx := of_advances hx
  obtain ⟨out, next, progress⟩ := x
  intro hc
  cases out with
  | error d => exact fun _ h => nomatch h
  | ok a => exact hf a next (progress a rfl) (hx hc a rfl).1

theorem weaken {x : Step k c α} (h : x.Draws P) : x.weaken.Draws P := h

theorem moved {x : Step (k + 1) c α} (h : x.Draws P) : x.moved.Draws P := h

theorem map {f : α → β} {x : Step k c α} (h : x.Draws fun a => Q (f a)) : (x.map f).Draws Q :=
  h.andThen fun _ _ _ ha => .done ha

/-- Something that is there. -/
theorem present {x : Step k c α} (h : x.Draws P) :
    (x.weaken.map some).Draws fun o => ∀ a ∈ o, P a :=
  .map fun hc a ha => ⟨(h hc a ha).1, fun _ hb => Option.some.inj hb ▸ (h hc a ha).2⟩

/-- Something that is not there. -/
theorem absent : (Step.done c none : Step 0 c (Option α)).Draws fun o => ∀ a ∈ o, P a :=
  .done fun _ h => nomatch h

theorem build {span : Span} {f : Node → α} (h : ∀ n, P (f n)) : (c.build span f).Draws P := by
  rintro hc _ ⟨⟩
  exact ⟨hc, h _⟩

/-- What is read of another text does not move the cursor. -/
theorem inside {inner : Cursor} {x : Step k inner α} (h : x.Draws P) (hinner : inner.Proper) :
    (Step.inside c x).Draws P :=
  fun hc a ha => ⟨hc, (h hinner a ha).2⟩

end Draws

end Step

open Step (Draws)

namespace Cursor

variable (c : Cursor)

theorem expectOr_draws (d : Diagnostic) :
    (c.expectOr .identifier d).Draws fun t => IsName t.value := by
  unfold expectOr
  split
  · next h =>
    rintro hc _ ⟨⟩
    exact ⟨hc.advance, hc.current h.1⟩
  · exact .fail _ _

theorem expect_draws : (c.expect .identifier).Draws fun t => IsName t.value :=
  c.expectOr_draws _

theorem expectName_draws (message : String) :
    (c.expectName message).Draws fun t => IsName t.value :=
  c.expectOr_draws _

end Cursor

open Cursor (expect_advances expectOr_advances expectName_advances expectKind_advances
  accept_advances)

/-! ### Types -/

theorem primitiveTy?_named {k : TokenKind} {ty : Ty} (h : primitiveTy? k = some ty) : ty.Named := by
  cases k <;> cases h <;> exact List.forall_mem_nil _

theorem wrapper?_named {name : String} {wrap : Ty → Ty} (h : wrapper? name = some wrap) {ty : Ty}
    (ht : ty.Named) : (wrap ty).Named := by
  unfold wrapper? at h
  split at h <;> cases h <;> exact ht

theorem readPrimitiveTy_draws (c : Cursor) : (readPrimitiveTy c).Draws Ty.Named := by
  unfold readPrimitiveTy
  split
  · next ty h => exact .behind (Cursor.take_advances _) fun _ _ _ => .done (primitiveTy?_named h)
  · exact .fail _ _

mutual

theorem readTy_draws (c : Cursor) (power : Power) : (readTy c power).Draws Ty.Named := by
  rw [readTy]
  exact (readTyHead_draws c).andThen fun ty c' _ h => readTySuffixes_draws c' power h
termination_by 4 * c.weight + 3
decreasing_by all_goals omega

theorem readTyHead_draws (c : Cursor) : (readTyHead c).Draws Ty.Named := by
  rw [readTyHead]
  split
  iterate 5 exact readPrimitiveTy_draws c
  · exact readNamedTy_draws c
  · exact readFnTy_draws c
  · exact .fail _ _
termination_by 4 * c.weight + 2
decreasing_by all_goals omega

theorem readNamedTy_draws (c : Cursor) : (readNamedTy c).Draws Ty.Named := by
  rw [readNamedTy]
  refine c.expect_draws.andThen fun name c' _ hname => ?_
  split
  · next wrap hw _ =>
    exact Draws.weaken (.behind (expect_advances _) fun _ c' _ => (readTy_draws c' .default).andThen
      fun _ c' _ hi => .behind (expect_advances _) fun _ _ _ => .done (wrapper?_named hw hi))
  · exact .done (List.forall_mem_singleton.2 hname)
termination_by 4 * c.weight + 1
decreasing_by all_goals omega

theorem readFnTy_draws (c : Cursor) : (readFnTy c).Draws Ty.Named := by
  rw [readFnTy]
  refine .behind (expect_advances _) fun _ c' _ => .behind (expect_advances _) fun _ c' _ =>
    (readTys_draws c').andThen fun params c' _ hp => .behind (accept_advances _)
      fun arrow c' _ => ?_
  split
  · exact (readTy_draws c' .default).weaken.andThen fun _ _ _ hr => .done (Ty.named_fn.2 ⟨hp, hr⟩)
  · exact .done (Ty.named_fn.2 ⟨hp, List.forall_mem_nil _⟩)
termination_by 4 * c.weight + 1
decreasing_by all_goals omega

theorem readTys_draws (c : Cursor) : (readTys c).Draws TysNamed := by
  rw [readTys]
  split
  · exact .behind (expect_advances _) fun _ _ _ => .done (List.forall_mem_nil _)
  · refine (readTy_draws c .default).andThen fun ty c' _ ht =>
      .behind (accept_advances _) fun comma c' _ => ?_
    split
    · exact (readTys_draws c').andThen fun _ _ _ hs => .done (tysNamed_cons.2 ⟨ht, hs⟩)
    · exact .behind (expect_advances _) fun _ _ _ =>
        .done (tysNamed_cons.2 ⟨ht, List.forall_mem_nil _⟩)
termination_by 4 * c.weight + 4
decreasing_by all_goals omega

theorem readTySuffixes_draws (c : Cursor) (power : Power) {ty : Ty} (h : ty.Named) :
    (readTySuffixes c power ty).Draws Ty.Named := by
  rw [readTySuffixes]
  split
  · exact Draws.weaken (.behind (expect_advances _) fun _ c' _ => .behind (expect_advances _)
      fun _ c' _ => readTySuffixes_draws c' power h)
  · exact .done h
termination_by 4 * c.weight
decreasing_by all_goals omega

end

theorem readReturnTy_draws (c : Cursor) : (readReturnTy c).Draws Ty.Named := by
  refine .behind (accept_advances _) fun arrow c' _ => ?_
  split
  · exact (readTy_draws c' .default).weaken
  · exact .done (List.forall_mem_nil _)

theorem readParamList_draws (c : Cursor) :
    (readParamList c).Draws fun ps => Annotated (paramAnnotations ps) := by
  rw [readParamList]
  split
  · exact .behind (expect_advances _) fun _ _ _ => .done (List.forall_mem_nil _)
  · refine .behind (expectName_advances _) fun name _ _ => .behind (expect_advances _) fun _ c' _ =>
      (readTy_draws c' .default).andThen fun ty c' _ ht =>
        .behind (accept_advances _) fun comma c' _ => ?_
    split
    · exact (readParamList_draws c').andThen fun _ _ _ hs =>
        .done (List.forall_mem_cons.2 ⟨ht, hs⟩)
    · exact .behind (expect_advances _) fun _ _ _ => .done (List.forall_mem_singleton.2 ht)
termination_by c.weight
decreasing_by all_goals omega

theorem readParams_draws (c : Cursor) :
    (readParams c).Draws fun ps => Annotated (paramAnnotations ps) :=
  .behind (expect_advances _) fun _ c' _ => readParamList_draws c'

/-! ### Expressions and statements -/

theorem readLiteral_draws (c : Cursor) :
    (readLiteral c).Draws fun e => Annotated e.annotations := by
  unfold readLiteral
  split
  · exact .fail _ _
  · next f hf =>
    refine .behind (Cursor.take_advances _) fun token c' _ => .build fun n => ?_
    unfold Token.literal at hf
    split at hf
    · split at hf <;> cases hf
      exact List.forall_mem_nil _
    all_goals cases hf <;> exact List.forall_mem_nil _

mutual

theorem readExpr_draws (c : Cursor) (power : Power) :
    (readExpr c power).Draws fun e => Annotated e.annotations := by
  rw [readExpr]
  exact (readOperand_draws c).andThen fun left c' _ hl => readContinuations_draws c' power hl
termination_by 8 * c.weight + 5
decreasing_by all_goals omega

theorem readOperand_draws (c : Cursor) :
    (readOperand c).Draws fun e => Annotated e.annotations := by
  rw [readOperand]
  split
  iterate 8 exact readLiteral_draws c
  · next h => exact readInterpolated_draws c h
  · exact .behind (expect_advances _) fun token c' _ => .behind (expect_advances _) fun _ c' _ =>
      (readExpr_draws c' .default).andThen fun inner c' _ hi => .behind (expect_advances _)
        fun _ c' _ => .build fun n => hi
  · exact readUnary_draws c .dash .negate
  · exact readUnary_draws c .not .not
  · exact .behind (expect_advances _) fun _ c' _ => (readExpr_draws c' .default).andThen
      fun inner c' _ hi => .behind (expect_advances _) fun _ _ _ => .done hi
  · exact .behind (expect_advances _) fun token c' _ =>
      (readArgs_draws c' .closeBracket).andThen fun items c' _ hs => .build fun n => hs
  · exact .behind (expect_advances _) fun token c' _ => .behind (expectName_advances _)
      fun name c' _ => .behind (expect_advances _) fun _ c' _ =>
        (readArgs_draws c' .closeParen).andThen fun args c' _ hs => .build fun n => hs
  · exact .behind (expect_advances _) fun token c' _ => (readParams_draws c').andThen
      fun params c' _ hp => (readReturnTy_draws c').andThen fun ret c' _ hr =>
        (readBlock_draws c').andThen fun body c' _ hb =>
          .build fun n => List.forall_mem_cons.2 ⟨hr, annotated_append.2 ⟨hp, hb⟩⟩
  · exact .fail _ _
termination_by 8 * c.weight + 4
decreasing_by all_goals omega

theorem readUnary_draws (c : Cursor) (kind : TokenKind) (op : UnaryOp) :
    (readUnary c kind op).Draws fun e => Annotated e.annotations := by
  rw [readUnary]
  exact .behind (expect_advances _) fun token c' _ => (readExpr_draws c' .unary).andThen
    fun operand c' _ ho => .build fun n => ho
termination_by 8 * c.weight + 1
decreasing_by all_goals omega

theorem readInterpolated_draws (c : Cursor) (h : c.kind = .interpolated) :
    (readInterpolated c h).Draws fun e => Annotated e.annotations := by
  rw [readInterpolated]
  exact Draws.moved (.behind c.leadsTo_advance fun token c' _ =>
    (readParts_draws c' token _).andThen fun parts c' _ hp => .build fun n => hp)
termination_by 8 * c.weight + 1
decreasing_by
  have := Piece.totalWeight_split_le 0 c.current.value.toList
  simp only [String.length_toList] at this
  omega

/-- A hole is a text of its own, and what is read of it draws from its own tokens. -/
theorem readParts_draws (c : Cursor) (token : Token) (pieces : List Piece) :
    (readParts c token pieces).Draws fun ps => Annotated (partsAnnotations ps) := by
  match pieces with
  | [] =>
    rw [readParts]
    exact .done (List.forall_mem_nil _)
  | .text raw :: ps =>
    rw [readParts]
    exact (readParts_draws c token ps).andThen fun parts _ _ hp => .done hp
  | .hole offset source :: ps =>
    rw [readParts]
    split
    · exact .fail _ _
    · next stream lexed =>
      have hw : stream.weight ≤ source.length := weight_le_length lexed
      refine Draws.andThen (P := fun e : Expr => Annotated e.annotations) ?_
        fun value c' _ hv => ?_
      · refine .inside ?_ (Cursor.proper_shift lexed _ _)
        exact (readExpr_draws _ .default).andThen fun value c' _ hv =>
          .behind (expectKind_advances _ _) fun _ _ _ => .done hv
      · exact (readParts_draws c' token ps).andThen fun parts _ _ hp =>
          .done (annotated_append.2 ⟨hv, hp⟩)
  | .unclosed :: ps =>
    rw [readParts]
    exact .fail _ _
termination_by 8 * Piece.totalWeight pieces + 6
decreasing_by
  · simp only [Piece.weight, Piece.totalWeight_cons]
    omega
  · simp only [Piece.weight, Piece.totalWeight_cons, Cursor.weight_ofStream,
      TokenStream.weight_shift]
    omega
  · simp only [Piece.weight, Piece.totalWeight_cons]
    omega

theorem readContinuations_draws (c : Cursor) (power : Power) {left : Expr}
    (hl : Annotated left.annotations) :
    (readContinuations c power left).Draws fun e => Annotated e.annotations := by
  rw [readContinuations]
  split
  · exact .done hl
  · next k hk =>
    split
    · exact .done hl
    · exact Draws.weaken ((readContinuation_draws c k hl _).andThen fun left c' _ hl =>
        readContinuations_draws c' power hl)
termination_by 8 * c.weight + 2
decreasing_by all_goals omega

theorem readContinuation_draws (c : Cursor) (k : Continuation) {left : Expr}
    (hl : Annotated left.annotations) (ne : c.kind ≠ .eof) :
    (readContinuation c k left ne).Draws fun e => Annotated e.annotations := by
  rw [readContinuation]
  refine .behind (Cursor.take_advances ne) fun _ c' _ => ?_
  cases k with
  | assign =>
    exact Draws.weaken ((readExpr_draws c' .comma).andThen fun value c' _ hv =>
      .build fun n => annotated_append.2 ⟨hl, hv⟩)
  | binary op =>
    exact Draws.weaken ((readExpr_draws c' op.power).andThen fun right c' _ hr =>
      .build fun n => annotated_append.2 ⟨hl, hr⟩)
  | call =>
    exact (readArgs_draws c' .closeParen).andThen fun args c' _ hs =>
      .build fun n => annotated_append.2 ⟨hl, hs⟩
  | index =>
    exact Draws.weaken ((readExpr_draws c' .default).andThen fun index c' _ hi =>
      .behind (expect_advances _) fun _ c' _ => .build fun n => annotated_append.2 ⟨hl, hi⟩)
  | member =>
    exact Draws.weaken (.behind (expectName_advances _) fun name c' _ => .build fun n => hl)
termination_by 8 * c.weight + 1
decreasing_by all_goals omega

theorem readArgs_draws (c : Cursor) (close : TokenKind) :
    (readArgs c close).Draws fun es => Annotated (exprsAnnotations es) := by
  rw [readArgs]
  split
  · exact .behind (expectKind_advances _ _) fun _ _ _ => .done (List.forall_mem_nil _)
  · refine Draws.weaken ((readExpr_draws c .comma).andThen fun arg c' _ ha =>
      .behind (accept_advances _) fun comma c' _ => ?_)
    split
    · exact (readArgs_draws c' close).andThen fun args _ _ hs =>
        .done (annotated_append.2 ⟨ha, hs⟩)
    · exact .behind (expectKind_advances _ _) fun _ _ _ =>
        .done (annotated_append.2 ⟨ha, List.forall_mem_nil _⟩)
termination_by 8 * c.weight + 6
decreasing_by all_goals omega

theorem readBlock_draws (c : Cursor) :
    (readBlock c).Draws fun b => Annotated b.annotations := by
  rw [readBlock]
  exact .behind (expect_advances _) fun token c' _ =>
    (readStmts_draws c').andThen fun stmts c' _ hs => .done hs
termination_by 8 * c.weight + 3
decreasing_by all_goals omega

theorem readStmts_draws (c : Cursor) :
    (readStmts c).Draws fun ss => Annotated (stmtsAnnotations ss) := by
  rw [readStmts]
  split
  · exact .behind (expect_advances _) fun _ _ _ => .done (List.forall_mem_nil _)
  · exact .fail _ _
  · exact (readStmt_draws c).andThen fun stmt c' _ hs => (readStmts_draws c').andThen
      fun stmts _ _ hss => .done (annotated_append.2 ⟨hs, hss⟩)
termination_by 8 * c.weight + 7
decreasing_by all_goals omega

theorem readStmt_draws (c : Cursor) :
    (readStmt c).Draws fun s => Annotated s.annotations := by
  rw [readStmt]
  split
  · refine .behind (expect_advances _) fun token c' _ => .behind (accept_advances _)
      fun mutable c' _ => .behind (expectName_advances _) fun name c' _ =>
        .behind (accept_advances _) fun colon c' _ => ?_
    have ht : (if colon then (readTy c' .default).weaken.map some else .done c' none :
        Step 0 c' (Option Ty)).Draws fun ty => ∀ t ∈ ty, t.Named := by
      split
      · exact (readTy_draws c' .default).present
      · exact .absent
    refine ht.andThen fun ty c' _ ht => .behind (expectOr_advances _ _) fun _ c' _ =>
      (readExpr_draws c' .default).andThen fun value c' _ hv => .behind (expect_advances _)
        fun _ c' _ => .done ?_
    cases ty with
    | none => exact hv
    | some ty => exact annotated_append.2 ⟨hv, List.forall_mem_singleton.2 (ht ty rfl)⟩
  · refine .behind (expect_advances _) fun token c' _ => ?_
    have hv : (if c'.kind = .semicolon then .done c' none
        else (readExpr c' .default).weaken.map some : Step 0 c' (Option Expr)).Draws
          fun value => ∀ e ∈ value, Annotated e.annotations := by
      split
      · exact .absent
      · exact (readExpr_draws c' .default).present
    refine hv.andThen fun value c' _ hv => .behind (expect_advances _) fun _ c' _ => .done ?_
    cases value with
    | none => exact List.forall_mem_nil _
    | some value => exact hv value rfl
  · exact readIf_draws c
  · exact .behind (expect_advances _) fun token c' _ => (readExpr_draws c' .default).andThen
      fun condition c' _ hc => (readBlock_draws c').andThen fun body c' _ hb =>
        .done (annotated_append.2 ⟨hc, hb⟩)
  · refine .behind (expect_advances _) fun token c' _ => .behind (accept_advances _)
      fun parenthesised c' _ => .behind (expectName_advances _) fun name c' _ =>
        .behind (expect_advances _) fun _ c' _ => (readExpr_draws c' .default).andThen
          fun iterable c' _ hi => ?_
    refine .behind ?_ fun _ c' _ => (readBlock_draws c').andThen fun body c' _ hb =>
      .done (annotated_append.2 ⟨hi, hb⟩)
    split
    · exact .map (expect_advances _).weaken
    · exact .done _
  · exact .behind (expect_advances _) fun token c' _ => (readExpr_draws c' .default).andThen
      fun scrutinee c' _ hs => .behind (expect_advances _) fun _ c' _ =>
        (readArms_draws c').andThen fun arms c' _ ha => .done (annotated_append.2 ⟨hs, ha⟩)
  · exact (readBlock_draws c).andThen fun b _ _ hb => .done hb
  · exact (readExpr_draws c .default).andThen fun value c' _ hv =>
      .behind (expect_advances _) fun _ _ _ => .done hv
termination_by 8 * c.weight + 6
decreasing_by all_goals omega

theorem readIf_draws (c : Cursor) : (readIf c).Draws fun s => Annotated s.annotations := by
  rw [readIf]
  refine .behind (expect_advances _) fun token c' _ => (readExpr_draws c' .default).andThen
    fun condition c' _ hc => (readBlock_draws c').andThen fun body c' _ hb =>
      .behind (accept_advances _) fun otherwise c' _ => ?_
  have ho : (if otherwise then
        if c'.kind = .kwIf then (readIf c').weaken.map some
        else (readBlock c').weaken.map fun b => some (.block b)
      else .done c' none : Step 0 c' (Option Stmt)).Draws
        fun o => ∀ s ∈ o, Annotated s.annotations := by
    split
    · split
      · exact (readIf_draws c').present
      · exact (readBlock_draws c').weaken.andThen fun b _ _ hb => .done fun s hs =>
          Option.some.inj hs ▸ hb
    · exact .absent
  refine ho.andThen fun otherwise c' _ ho => .done ?_
  have hcb := annotated_append.2 ⟨hc, hb⟩
  cases otherwise with
  | none => exact hcb
  | some otherwise => exact annotated_append.2 ⟨hcb, ho otherwise rfl⟩
termination_by 8 * c.weight + 5
decreasing_by all_goals omega

theorem readArms_draws (c : Cursor) :
    (readArms c).Draws fun as => Annotated (armsAnnotations as) := by
  rw [readArms]
  split
  · exact .behind (expect_advances _) fun _ _ _ => .done (List.forall_mem_nil _)
  · refine (readArm_draws c).andThen fun arm c' _ ha => .behind (accept_advances _) fun _ c' _ =>
      (readArms_draws c').andThen fun arms _ _ has => .done ?_
    obtain ⟨pattern, body, span⟩ := arm
    exact annotated_append.2 ⟨ha, has⟩
termination_by 8 * c.weight + 7
decreasing_by all_goals omega

theorem readArm_draws (c : Cursor) :
    (readArm c).Draws fun a => Annotated a.body.annotations := by
  rw [readArm]
  refine .behind (readArmPattern_advances c) fun pattern c' _ => .behind (expect_advances _)
    fun _ c' _ => ?_
  have hb : (if c'.kind = .openCurly then readBlock c'
      else
        (readExpr c' .default).andThen fun value c _ =>
          (c.accept .semicolon).map fun _ => ⟨[.expr value], value.span⟩ : Step 1 c' Block).Draws
        fun b => Annotated b.annotations := by
    split
    · exact readBlock_draws c'
    · exact (readExpr_draws c' .default).andThen fun value c' _ hv =>
        .behind (accept_advances _) fun _ _ _ =>
          .done (annotated_append.2 ⟨hv, List.forall_mem_nil _⟩)
  exact hb.andThen fun body c' _ hb => .done hb
termination_by 8 * c.weight + 6
decreasing_by all_goals omega

end

/-! ### Declarations -/

theorem readFunction_draws (c : Cursor) (start : Nat) (isPublic isStatic : Bool) :
    (readFunction c start isPublic isStatic).Draws fun f => Annotated f.annotations :=
  .behind (expect_advances _) fun _ _ _ => .behind (expectName_advances _) fun _ c' _ =>
    (readParams_draws c').andThen fun _ c' _ hp => (readReturnTy_draws c').andThen
      fun _ c' _ hr => (readBlock_draws c').andThen fun _ _ _ hb =>
        .done (List.forall_mem_cons.2 ⟨hr, annotated_append.2 ⟨hp, hb⟩⟩)

theorem readField_draws (c : Cursor) (start : Nat) (isPublic isStatic : Bool) :
    (readField c start isPublic isStatic).Draws fun f => Annotated f.annotations := by
  refine .behind (expect_advances _) fun name c' _ => .behind (expect_advances _) fun _ c' _ =>
    (readTy_draws c' .default).andThen fun ty c' _ ht => .behind (accept_advances _)
      fun assigned c' _ => ?_
  have hi : (if assigned then (readExpr c' .default).weaken.map some else .done c' none :
      Step 0 c' (Option Expr)).Draws fun o => ∀ e ∈ o, Annotated e.annotations := by
    split
    · exact (readExpr_draws c' .default).present
    · exact .absent
  refine hi.andThen fun initial c' _ hi => .behind (expect_advances _) fun _ _ _ => .done ?_
  cases initial with
  | none => exact List.forall_mem_singleton.2 ht
  | some value =>
    have hv := annotated_append.2 ⟨hi value rfl, List.forall_mem_nil _⟩
    exact List.forall_mem_cons.2 ⟨ht, hv⟩

/-- The annotations of a member. -/
def Member.annotations : Member → List Annotation
  | .field f => f.annotations
  | .method m => m.annotations

theorem readMembers_draws (c : Cursor) :
    (readMembers c).Draws fun ms => ∀ m ∈ ms, Annotated m.annotations := by
  rw [readMembers]
  split
  · exact .behind (expect_advances _) fun _ _ _ => .done (List.forall_mem_nil _)
  · refine .behindOpt (readVisibility_advances c) fun visibility c' _ =>
      .behindOpt (accept_advances _) fun isStatic c' _ => ?_
    refine Draws.andThen (P := fun m : Member => Annotated m.annotations) ?_ fun m c'' _ hm =>
      (readMembers_draws c'').andThen fun ms _ _ hms => .done (List.forall_mem_cons.2 ⟨hm, hms⟩)
    split
    · exact (readFunction_draws _ _ _ _).andThen fun _ _ _ hf => .done hf
    · exact (readField_draws _ _ _ _).andThen fun _ _ _ hf => .done hf
    · exact .fail _ _
termination_by c.weight
decreasing_by all_goals omega

theorem annotated_flatMap {α : Type} {as : List α} {f : α → List Annotation} :
    Annotated (as.flatMap f) ↔ ∀ a ∈ as, Annotated (f a) :=
  List.forall_mem_flatMap

theorem readClass_draws (c : Cursor) (start : Nat) (isPublic : Bool) :
    (readClass c start isPublic).Draws ClassDecl.Named := by
  refine .behind (expect_advances _) fun _ c' _ => (c'.expectName_draws _).andThen
    fun name c' _ hname => .behind (expect_advances _) fun _ c' _ =>
      (readMembers_draws c').andThen fun members c' _ hm => .done ⟨hname, ?_⟩
  refine annotated_append.2 ⟨annotated_flatMap.2 fun f hf => ?_, annotated_flatMap.2 fun f hf => ?_⟩
  · obtain ⟨m, hmem, hmf⟩ := List.mem_filterMap.1 hf
    cases m with
    | method m => cases hmf
    | field f' =>
      cases hmf
      exact hm _ hmem
  · obtain ⟨m, hmem, hmf⟩ := List.mem_filterMap.1 hf
    cases m with
    | field f' => cases hmf
    | method m =>
      cases hmf
      exact hm _ hmem

theorem readItem_draws (c : Cursor) {d : Declarations} (hd : d.Named) :
    (readItem c).Draws fun i => (d.add i).Named := by
  unfold readItem
  split
  · exact .behind (readUsing_advances c) fun _ _ _ => .done ⟨hd.functions, hd.classes⟩
  · refine .behindOpt (readVisibility_advances c) fun visibility c' _ => ?_
    split
    · refine (readFunction_draws _ _ _ _).andThen fun f _ _ hf => .done ⟨?_, hd.classes⟩
      exact List.forall_mem_append.2 ⟨hd.functions, List.forall_mem_singleton.2 hf⟩
    · refine (readClass_draws _ _ _).andThen fun d _ _ hc => .done ⟨hd.functions, ?_⟩
      exact List.forall_mem_append.2 ⟨hd.classes, List.forall_mem_singleton.2 hc⟩
    · exact .fail _ _

theorem readItems_draws (c : Cursor) {d : Declarations} (hd : d.Named) :
    (readItems c d).Draws Declarations.Named := by
  rw [readItems]
  split
  · exact .done hd
  · exact Draws.weaken ((readItem_draws c hd).andThen fun item c' _ h => readItems_draws c' h)
termination_by c.weight
decreasing_by all_goals omega

theorem Declarations.named_empty : Declarations.Named {} :=
  ⟨List.forall_mem_nil _, List.forall_mem_nil _⟩

/-- **The names that a source text declares or uses for classes are identifiers** that are not
reserved. -/
theorem parseSource_named {file text : String} {n : Nat} {d : Declarations}
    (h : (parseSource file text n).1 = .ok d) : d.Named := by
  unfold parseSource at h
  split at h
  · cases h
  · next s hs =>
    exact (readItems_draws _ Declarations.named_empty (Cursor.proper_ofStream hs n) d h).2

/-! ### Registries -/

/-- All modules hold only names of classes that can be written. -/
def Registry.Named (r : Registry) : Prop :=
  r.Each Declarations.Named

theorem Declarations.Named.merge {m m' : Module} (h : m.decls.Named) (h' : m'.decls.Named) :
    (m'.merge m).decls.Named :=
  ⟨List.forall_mem_append.2 ⟨h'.functions, h.functions⟩,
    List.forall_mem_append.2 ⟨h'.classes, h.classes⟩⟩

/-- Whatever is added and checked, the names of classes can be written. -/
theorem Compilation.Reachable.named {c : Compilation} (h : c.Reachable) : c.registry.Named := by
  induction h with
  | initial => exact Registry.each_initial Declarations.named_empty
  | @addAs c _ path file text package ih =>
    unfold Compilation.addAs
    have hparsed : ∀ d, (parseSource file text c.nextId).1 = .ok d → d.Named :=
      fun _ h => parseSource_named h
    generalize parseSource file text c.nextId = parsed at hparsed
    obtain ⟨outcome, nextId⟩ := parsed
    dsimp only
    split
    · next registry hr =>
      cases outcome with
      | error d => cases hr
      | ok decls =>
        have hdecls := hparsed decls rfl
        exact Registry.Each.register (m := .ofFile path package decls file) ih hdecls
          (fun _ hm => hdecls.merge hm) (fun _ hd => hd) hr
    · exact ih
  | check _ ih => exact Registry.Each.foldl_recordImports _ ih

end MgLang
