import MgLang.Module.Import
import MgLang.Proofs.Blind
import MgLang.Proofs.Lexical
import MgLang.Proofs.Writable
/-!
# Where faults are reported

`Module.places` lists the places of a module at which a fault of types can be reported: those of its
expressions, and those of declarations and arms that a check points to. A check of types reports
nothing elsewhere (`check_places`), and neither does the resolution of names (`names_places`) or of
imports (`importFault?_places`), whatever other modules there are.

The check is followed step by step (`checkModule_confined`): what each step reports is at a place of
an expression or at a mark, which is a place of another kind, and where an identifier is bound to
nothing the check finds no type and reports nothing more.
-/

namespace MgLang

/-! ### The places of a tree -/

mutual

/-- The places of an expression and of what is within it. -/
def Expr.places (e : Expr) : List Span :=
  e.span ::
    match e with
    | .int _ _ | .float _ _ | .string _ _ | .bool _ _ | .ident _ _ | .this _ | .noneLit _ => []
    | .interpolated _ parts => partsPlaces parts
    | .someOf _ inner => inner.places
    | .binary _ _ left right => left.places ++ right.places
    | .unary _ _ operand => operand.places
    | .assign _ target value => target.places ++ value.places
    | .call _ callee args => callee.places ++ exprsPlaces args
    | .member _ object _ nameSpan => nameSpan :: object.places
    | .index _ object place => object.places ++ place.places
    | .new _ _ classSpan args => classSpan :: exprsPlaces args
    | .array _ items => exprsPlaces items
    | .lambda _ params _ body => params.map (·.span) ++ body.places

/-- The places of expressions. -/
def exprsPlaces : List Expr → List Span
  | [] => []
  | e :: es => e.places ++ exprsPlaces es

/-- The places within the holes of an interpolated string. -/
def partsPlaces : List Part → List Span
  | [] => []
  | .text _ :: parts => partsPlaces parts
  | .hole e :: parts => e.places ++ partsPlaces parts

/-- The places of a statement. Only a `return` without a value has one of its own. -/
def Stmt.places : Stmt → List Span
  | .letStmt _ _ _ value nameSpan _ => nameSpan :: value.places
  | .returnStmt none span => [span]
  | .returnStmt (some value) _ => value.places
  | .ifStmt condition body none _ => condition.places ++ body.places
  | .ifStmt condition body (some otherwise) _ =>
    condition.places ++ body.places ++ otherwise.places
  | .whileStmt condition body _ => condition.places ++ body.places
  | .forStmt _ _ iterable body _ => iterable.places ++ body.places
  | .matchStmt scrutinee arms _ => scrutinee.places ++ armsPlaces arms
  | .block body => body.places
  | .expr value => value.places

/-- The places of statements. -/
def stmtsPlaces : List Stmt → List Span
  | [] => []
  | stmt :: stmts => stmt.places ++ stmtsPlaces stmts

/-- The places of a block. -/
def Block.places : Block → List Span
  | ⟨stmts, _⟩ => stmtsPlaces stmts

/-- The places of the arms of a `match`. -/
def armsPlaces : List Arm → List Span
  | [] => []
  | ⟨_, body, span⟩ :: arms => span :: body.places ++ armsPlaces arms

end

/-- The places of a function or method. -/
def FunctionDecl.places (f : FunctionDecl) : List Span :=
  f.nameSpan :: (f.params.map (·.span) ++ f.body.places)

/-- The places of a field. -/
def FieldDecl.places (f : FieldDecl) : List Span :=
  f.span :: exprsPlaces f.initial.toList

/-- The places of a class. -/
def ClassDecl.places (c : ClassDecl) : List Span :=
  c.fields.flatMap (·.places) ++ c.methods.flatMap (·.places)

/-- The places of declarations. -/
def Declarations.places (d : Declarations) : List Span :=
  d.usings.map (·.span) ++ (d.classes.flatMap (·.places) ++ d.functions.flatMap (·.places))

/-- The places of a module. -/
def Module.places (m : Module) : List Span :=
  m.decls.places

/-! ### Places that are no expressions' -/

/-- A place at which a check can report something and that is no place of an expression. -/
inductive Mark where
  /-- A name, a parameter or a `return` without a value. No expression is inside it. -/
  | leaf (span : Span)
  /-- An arm or a field. -/
  | whole (span : Span)

namespace Mark

/-- The place itself. -/
def span : Mark → Span
  | leaf span => span
  | whole span => span

end Mark

/-- The marks of parameters. -/
def paramMarks (params : List Param) : List Mark :=
  params.map fun p => .leaf p.span

mutual

/-- The marks within an expression. -/
def Expr.marks : Expr → List Mark
  | .int _ _ | .float _ _ | .string _ _ | .bool _ _ | .ident _ _ | .this _ | .noneLit _ => []
  | .interpolated _ parts => partsMarks parts
  | .someOf _ inner => inner.marks
  | .binary _ _ left right => left.marks ++ right.marks
  | .unary _ _ operand => operand.marks
  | .assign _ target value => target.marks ++ value.marks
  | .call _ callee args => callee.marks ++ exprsMarks args
  | .member _ object _ nameSpan => .leaf nameSpan :: object.marks
  | .index _ object index => object.marks ++ index.marks
  | .new _ _ classSpan args => .leaf classSpan :: exprsMarks args
  | .array _ items => exprsMarks items
  | .lambda _ params _ body => paramMarks params ++ body.marks

/-- The marks within expressions. -/
def exprsMarks : List Expr → List Mark
  | [] => []
  | e :: es => e.marks ++ exprsMarks es

/-- The marks within the holes of an interpolated string. -/
def partsMarks : List Part → List Mark
  | [] => []
  | .text _ :: parts => partsMarks parts
  | .hole e :: parts => e.marks ++ partsMarks parts

/-- The marks within a statement. -/
def Stmt.marks : Stmt → List Mark
  | .letStmt _ _ _ value nameSpan _ => .leaf nameSpan :: value.marks
  | .returnStmt none span => [.leaf span]
  | .returnStmt (some value) _ => value.marks
  | .ifStmt condition body none _ => condition.marks ++ body.marks
  | .ifStmt condition body (some otherwise) _ =>
    condition.marks ++ body.marks ++ otherwise.marks
  | .whileStmt condition body _ => condition.marks ++ body.marks
  | .forStmt _ _ iterable body _ => iterable.marks ++ body.marks
  | .matchStmt scrutinee arms _ => scrutinee.marks ++ armsMarks arms
  | .block body => body.marks
  | .expr value => value.marks

/-- The marks within statements. -/
def stmtsMarks : List Stmt → List Mark
  | [] => []
  | stmt :: stmts => stmt.marks ++ stmtsMarks stmts

/-- The marks within a block. -/
def Block.marks : Block → List Mark
  | ⟨stmts, _⟩ => stmtsMarks stmts

/-- The marks of the arms of a `match`. -/
def armsMarks : List Arm → List Mark
  | [] => []
  | ⟨_, body, span⟩ :: arms => .whole span :: body.marks ++ armsMarks arms

end

/-- The marks of a function or method. -/
def FunctionDecl.marks (f : FunctionDecl) : List Mark :=
  .leaf f.nameSpan :: (paramMarks f.params ++ f.body.marks)

/-- The marks of a field. -/
def FieldDecl.marks (f : FieldDecl) : List Mark :=
  .whole f.span :: exprsMarks f.initial.toList

/-- The marks of a class. -/
def ClassDecl.marks (c : ClassDecl) : List Mark :=
  c.fields.flatMap (·.marks) ++ c.methods.flatMap (·.marks)

/-- The marks of declarations. -/
def Declarations.marks (d : Declarations) : List Mark :=
  d.classes.flatMap (·.marks) ++ d.functions.flatMap (·.marks)

/-- The marks of a module. -/
def Module.marks (m : Module) : List Mark :=
  m.decls.marks

/-! ### Expressions and marks have places -/

/-- All of these expressions and marks have their places among these. -/
structure Covers (ps : List Span) (es : List Expr) (ms : List Mark) : Prop where
  exprs : es.map Expr.span ⊆ ps
  marks : ms.map Mark.span ⊆ ps

namespace Covers

variable {ps ps' : List Span} {es es' : List Expr} {ms ms' : List Mark}

theorem nil : Covers ps [] [] :=
  ⟨List.nil_subset _, List.nil_subset _⟩

theorem append (h : Covers ps es ms) (h' : Covers ps' es' ms') :
    Covers (ps ++ ps') (es ++ es') (ms ++ ms') := by
  constructor
  · rw [List.map_append]
    exact List.append_subset.2 ⟨List.subset_append_of_subset_left _ h.exprs,
      List.subset_append_of_subset_right _ h'.exprs⟩
  · rw [List.map_append]
    exact List.append_subset.2 ⟨List.subset_append_of_subset_left _ h.marks,
      List.subset_append_of_subset_right _ h'.marks⟩

theorem cons (h : Covers ps es ms) (m : Mark) : Covers (m.span :: ps) es (m :: ms) :=
  ⟨List.subset_cons_of_subset _ h.exprs, List.cons_subset_cons _ h.marks⟩

theorem params (h : Covers ps es ms) (params : List Param) :
    Covers (params.map (·.span) ++ ps) es (paramMarks params ++ ms) := by
  have hparams : Covers (params.map (·.span)) [] (paramMarks params) := by
    refine ⟨List.nil_subset _, ?_⟩
    rw [paramMarks, List.map_map]
    exact List.Subset.refl _
  exact hparams.append h

theorem behind (h : Covers ps es ms) (ps' : List Span) : Covers (ps' ++ ps) es ms :=
  ⟨List.subset_append_of_subset_right ps' h.exprs, List.subset_append_of_subset_right ps' h.marks⟩

theorem flatMap {α : Type} {f : α → List Span} {g : α → List Expr} {k : α → List Mark}
    (h : ∀ a, Covers (f a) (g a) (k a)) :
    ∀ as : List α, Covers (as.flatMap f) (as.flatMap g) (as.flatMap k)
  | [] => nil
  | a :: as => (h a).append (flatMap h as)

/-- What is inside an expression, and the expression itself. -/
theorem within {e : Expr} (h : Covers ps es ms) (hw : e.within = es ++ [e])
    (hp : e.places = e.span :: ps) : Covers e.places e.within ms := by
  refine ⟨?_, hp ▸ List.subset_cons_of_subset _ h.marks⟩
  rw [hw, hp, List.map_append]
  exact List.append_subset.2 ⟨List.subset_cons_of_subset _ h.exprs, by simp⟩

end Covers

mutual

theorem within_covered : ∀ e : Expr, Covers e.places e.within e.marks
  | .int _ _ | .float _ _ | .string _ _ | .bool _ _ | .ident _ _ | .this _ | .noneLit _ =>
    Covers.nil.within rfl rfl
  | .interpolated _ parts => (partsWithin_covered parts).within rfl rfl
  | .someOf _ inner => (within_covered inner).within rfl rfl
  | .binary _ _ left right =>
    ((within_covered left).append (within_covered right)).within rfl rfl
  | .unary _ _ operand => (within_covered operand).within rfl rfl
  | .assign _ target value =>
    ((within_covered target).append (within_covered value)).within rfl rfl
  | .call _ callee args =>
    ((within_covered callee).append (exprsWithin_covered args)).within rfl rfl
  | .member _ object _ nameSpan => ((within_covered object).cons (.leaf nameSpan)).within rfl rfl
  | .index _ object place =>
    ((within_covered object).append (within_covered place)).within rfl rfl
  | .new _ _ classSpan args => ((exprsWithin_covered args).cons (.leaf classSpan)).within rfl rfl
  | .array _ items => (exprsWithin_covered items).within rfl rfl
  | .lambda _ params _ body => ((blockWithin_covered body).params params).within rfl rfl

theorem exprsWithin_covered : ∀ es : List Expr,
    Covers (exprsPlaces es) (exprsWithin es) (exprsMarks es)
  | [] => .nil
  | e :: es => (within_covered e).append (exprsWithin_covered es)

theorem partsWithin_covered : ∀ parts : List Part,
    Covers (partsPlaces parts) (partsWithin parts) (partsMarks parts)
  | [] => .nil
  | .text _ :: parts => partsWithin_covered parts
  | .hole e :: parts => (within_covered e).append (partsWithin_covered parts)

theorem stmtWithin_covered : ∀ stmt : Stmt, Covers stmt.places stmt.within stmt.marks
  | .letStmt _ _ _ value nameSpan _ => (within_covered value).cons (.leaf nameSpan)
  | .returnStmt none span => Covers.nil.cons (.leaf span)
  | .returnStmt (some value) _ => within_covered value
  | .ifStmt condition body none _ | .whileStmt condition body _ =>
    (within_covered condition).append (blockWithin_covered body)
  | .ifStmt condition body (some otherwise) _ =>
    ((within_covered condition).append (blockWithin_covered body)).append
      (stmtWithin_covered otherwise)
  | .forStmt _ _ iterable body _ => (within_covered iterable).append (blockWithin_covered body)
  | .matchStmt scrutinee arms _ => (within_covered scrutinee).append (armsWithin_covered arms)
  | .block body => blockWithin_covered body
  | .expr value => within_covered value

theorem stmtsWithin_covered : ∀ stmts : List Stmt,
    Covers (stmtsPlaces stmts) (stmtsWithin stmts) (stmtsMarks stmts)
  | [] => .nil
  | stmt :: stmts => (stmtWithin_covered stmt).append (stmtsWithin_covered stmts)

theorem blockWithin_covered : ∀ body : Block, Covers body.places body.within body.marks
  | ⟨stmts, _⟩ => stmtsWithin_covered stmts

theorem armsWithin_covered : ∀ arms : List Arm,
    Covers (armsPlaces arms) (armsWithin arms) (armsMarks arms)
  | [] => .nil
  | ⟨_, body, span⟩ :: arms =>
    ((blockWithin_covered body).append (armsWithin_covered arms)).cons (.whole span)

end

theorem initials_covered : ∀ fields : List FieldDecl, Covers (fields.flatMap (·.places))
    (exprsWithin (fields.filterMap (·.initial))) (fields.flatMap (·.marks))
  | [] => .nil
  | f :: fields => by
    have hf : Covers f.places (exprsWithin f.initial.toList) f.marks :=
      (exprsWithin_covered f.initial.toList).cons (.whole f.span)
    have h := hf.append (initials_covered fields)
    cases hi : f.initial with
    | none =>
      rw [hi] at h
      rw [List.filterMap_cons_none hi]
      exact h
    | some value =>
      rw [hi] at h
      rw [List.filterMap_cons_some hi]
      simpa [exprsWithin] using h

theorem functionWithin_covered (f : FunctionDecl) : Covers f.places f.body.within f.marks :=
  ((blockWithin_covered f.body).params f.params).cons (.leaf f.nameSpan)

theorem classWithin_covered (c : ClassDecl) : Covers c.places c.within c.marks :=
  (initials_covered c.fields).append (.flatMap functionWithin_covered c.methods)

theorem declarations_covered (d : Declarations) : Covers d.places d.exprs d.marks :=
  ((Covers.flatMap classWithin_covered d.classes).append
    (.flatMap functionWithin_covered d.functions)).behind _

/-- The expressions and marks of a module have their places among those of the module. -/
theorem module_covered (m : Module) : Covers m.places m.exprs m.marks :=
  declarations_covered m.decls

/-! ### Steps of a check -/

namespace Check

variable {α β : Type} {P : Span → Prop} {Q : TypedNode → Prop}

/-- The step reports faults at places that satisfy `P` only, and records types that satisfy `Q`
only. -/
def Confined (P : Span → Prop) (Q : TypedNode → Prop) (x : Check α) : Prop :=
  ∀ s, (∀ d ∈ (x.after s).errors, d ∈ s.errors ∨ P d.span) ∧
    ∀ t ∈ (x.after s).types, t ∈ s.types ∨ Q t

namespace Confined

variable {x : Check α} {f : α → Check β}

theorem pure (a : α) : Confined P Q (Pure.pure a) :=
  fun _ => ⟨fun _ hd => .inl hd, fun _ ht => .inl ht⟩

/-- What comes behind a step may depend on what the step results in. -/
theorem bindResult (hx : Confined P Q x) (hf : ∀ s, Confined P Q (f (x.result s))) :
    Confined P Q (x >>= f) := by
  intro s
  obtain ⟨hd, ht⟩ := hx s
  obtain ⟨hd', ht'⟩ := hf s (x.after s)
  exact ⟨fun d h => (hd' d h).elim (hd d) .inr, fun t h => (ht' t h).elim (ht t) .inr⟩

theorem bind (hx : Confined P Q x) (hf : ∀ a, Confined P Q (f a)) : Confined P Q (x >>= f) :=
  hx.bindResult fun _ => hf _

/-- A step that depends on the state. -/
theorem get {f : Checker → Check β} (hf : ∀ s, Confined P Q (f s)) :
    Confined P Q (MonadState.get >>= f) :=
  fun s => hf s s

theorem blind {ps : List Span} (h : Blind ps x) (hp : ∀ p ∈ ps, P p) : Confined P Q x := by
  obtain ⟨a, ds, hds, hx⟩ := h
  intro s
  rw [(hx s).2]
  exact ⟨fun d hd => (Array.mem_append.1 hd).imp_right fun hd => hp _ (hds d hd),
    fun _ ht => .inl ht⟩

/-- A step that can report at one place. -/
theorem blindAt {p : Span} (h : Blind [p] x) (hp : P p) : Confined P Q x :=
  blind h (List.forall_mem_singleton.2 hp)

theorem record {node : Node} {ty : Ty} (h : Q ⟨node, ty⟩) :
    Confined P Q (Check.record node ty) := by
  intro s
  refine ⟨fun _ hd => .inl hd, fun t ht => ?_⟩
  rcases Array.mem_push.1 ht with ht | rfl
  · exact .inl ht
  · exact .inr h

/-- The type of an expression is recorded last. -/
theorem last {node : Node} {ty : Ty} (h : Q ⟨node, ty⟩) :
    Confined P Q (do Check.record node ty; return ty) :=
  (record h).bind fun _ => .pure ty

theorem declare (name : String) (ty : Ty) : Confined P Q (Check.declare name ty) :=
  fun _ => ⟨fun _ hd => .inl hd, fun _ ht => .inl ht⟩

theorem discard (h : Confined P Q x) : Confined P Q (discard x) :=
  h

/-- Behind a step, the type of an expression is recorded. -/
theorem recorded {x : Check Ty} {node : Node} (h : Confined P Q x) (hq : ∀ ty, Q ⟨node, ty⟩) :
    Confined P Q (x >>= fun ty => Check.record node ty >>= fun _ => Pure.pure ty) :=
  h.bind fun ty => last (hq ty)

theorem inScope (h : Confined P Q x) : Confined P Q (Check.inScope x) :=
  fun s => h s.push

theorem returning (h : Confined P Q x) (ty : Ty) : Confined P Q (Check.returning ty x) :=
  fun s => h { s with expected := some ty }

theorem inClass (h : Confined P Q x) (name : String) : Confined P Q (Check.inClass name x) :=
  fun s => h { s with enclosing := some name }

theorem forM {f : α → Check PUnit} : ∀ {as : List α}, (∀ a ∈ as, Confined P Q (f a)) →
    Confined P Q (as.forM f)
  | [], _ => .pure _
  | _ :: _, h =>
    (h _ List.mem_cons_self).bind fun _ => forM fun a ha => h a (List.mem_cons_of_mem _ ha)

end Confined

end Check

open Check (Confined Blind)

/-! ### What may be found -/

/-- The expression is an identifier that is bound to nothing. -/
def Names.misses (names : Names) : Expr → Bool
  | .ident node _ => (names.binding? node.id).isNone
  | _ => false

/-- Faults may be reported at these marks and, but for identifiers that are bound to nothing, at
these expressions. Types may be recorded for these expressions, for an identifier that is bound to
nothing no other than the unknown one. -/
structure Permits (names : Names) (P : Span → Prop) (Q : TypedNode → Prop) (es : List Expr)
    (ms : List Mark) : Prop where
  missed : ∀ e ∈ es, names.misses e = true → Q ⟨e.node, .unknown⟩
  found : ∀ e ∈ es, names.misses e = false → P e.span ∧ ∀ ty, Q ⟨e.node, ty⟩
  marks : ∀ m ∈ ms, P m.span

namespace Permits

variable {names : Names} {P : Span → Prop} {Q : TypedNode → Prop} {es es' : List Expr}
  {ms ms' : List Mark} {e : Expr}

theorem append_iff : Permits names P Q (es ++ es') (ms ++ ms') ↔
    Permits names P Q es ms ∧ Permits names P Q es' ms' := by
  constructor
  · intro h
    obtain ⟨hmissed, hmissed'⟩ := List.forall_mem_append.1 h.missed
    obtain ⟨hfound, hfound'⟩ := List.forall_mem_append.1 h.found
    obtain ⟨hmarks, hmarks'⟩ := List.forall_mem_append.1 h.marks
    exact ⟨⟨hmissed, hfound, hmarks⟩, ⟨hmissed', hfound', hmarks'⟩⟩
  · rintro ⟨h, h'⟩
    exact ⟨List.forall_mem_append.2 ⟨h.missed, h'.missed⟩,
      List.forall_mem_append.2 ⟨h.found, h'.found⟩, List.forall_mem_append.2 ⟨h.marks, h'.marks⟩⟩

theorem cons_iff {m : Mark} : Permits names P Q es (m :: ms) ↔ P m.span ∧ Permits names P Q es ms :=
  ⟨fun h => ⟨h.marks m List.mem_cons_self, h.missed, h.found, (List.forall_mem_cons.1 h.marks).2⟩,
    fun ⟨hm, h⟩ => ⟨h.missed, h.found, List.forall_mem_cons.2 ⟨hm, h.marks⟩⟩⟩

theorem params_iff {params : List Param} : Permits names P Q es (paramMarks params ++ ms) ↔
    (∀ p ∈ params, P p.span) ∧ Permits names P Q es ms := by
  induction params with
  | nil => simp [paramMarks]
  | cons p params ih =>
    rw [paramMarks, List.map_cons, List.cons_append, cons_iff, ← paramMarks, ih,
      List.forall_mem_cons, and_assoc]
    rfl

/-- What is found of an expression of another kind than an identifier may be anything. -/
theorem last (h : Permits names P Q (es ++ [e]) ms) (he : names.misses e = false) :
    (P e.span ∧ ∀ ty, Q ⟨e.node, ty⟩) ∧ Permits names P Q es ms :=
  ⟨h.found e (List.mem_append_right _ (List.mem_singleton_self e)) he,
    (List.forall_mem_append.1 h.missed).1, (List.forall_mem_append.1 h.found).1, h.marks⟩

/-- Nothing may be found of an expression only because it is bound to nothing. -/
theorem unknown (h : Permits names P Q es ms) (he : e ∈ es) : Q ⟨e.node, .unknown⟩ := by
  cases hm : names.misses e with
  | true => exact h.missed e he hm
  | false => exact (h.found e he hm).2 .unknown

theorem of_mem_flatMap {α : Type} {f : α → List Expr} {g : α → List Mark} {as : List α} {a : α}
    (h : Permits names P Q (as.flatMap f) (as.flatMap g)) (ha : a ∈ as) :
    Permits names P Q (f a) (g a) :=
  ⟨fun e he => h.missed e (List.mem_flatMap.2 ⟨a, ha, he⟩),
    fun e he => h.found e (List.mem_flatMap.2 ⟨a, ha, he⟩),
    fun m hm => h.marks m (List.mem_flatMap.2 ⟨a, ha, hm⟩)⟩

end Permits

/-! ### The check of a piece -/

section

variable (cx : CheckContext) {P : Span → Prop} {Q : TypedNode → Prop}

theorem identTy_confined (node : Nat) (name : String) : Confined P Q (cx.identTy node name) := by
  unfold CheckContext.identTy
  split
  · exact .get fun s => .pure _
  all_goals exact .pure _

theorem identTy_of_unbound {node : Nat} (h : cx.names.binding? node = none) (name : String) :
    cx.identTy node name = pure .unknown := by
  unfold CheckContext.identTy
  rw [h]

/-- What is looked at once the type of an expression is known: if the type is unknown nothing is
reported where the expression is, so it does not matter if the expression is bound to nothing. -/
theorem checkExpr_then {α : Type} {e : Expr} {f : Ty → Check α} {ms : List Mark}
    (h : Permits cx.names P Q e.within ms) (hx : Confined P Q (checkExpr cx e))
    (hf : ∀ ty, ty = .unknown ∨ P e.span → Confined P Q (f ty)) :
    Confined P Q (checkExpr cx e >>= f) := by
  cases hm : cx.names.misses e with
  | false => exact hx.bind fun ty => hf ty (.inr (h.found e (mem_within_self e) hm).1)
  | true =>
    refine hx.bindResult fun s => hf _ (.inl ?_)
    cases e with
    | ident node name =>
      rw [checkExpr, identTy_of_unbound cx (Option.isNone_iff_eq_none.1 hm)]
      rfl
    | _ => cases hm

theorem declareParams_confined {params : List Param} (hp : ∀ p ∈ params, P p.span) :
    Confined P Q (cx.declareParams params) :=
  .forM fun p hm => (Confined.blindAt (.annotated cx p.ty p.span) (hp p hm)).bind fun _ =>
    .declare p.name p.ty

theorem declarePattern_confined (scrutinee : Ty) (pattern : ArmPattern) {span : Span}
    (hp : P span) : Confined P Q (Check.declarePattern scrutinee pattern span) := by
  cases pattern with
  | wildcard => exact .pure ()
  | none => exact .blindAt (.declareNothing scrutinee span) hp
  | some name nameSpan =>
    rw [declarePattern_some]
    exact (Confined.blindAt (.declareNothing scrutinee span) hp).bind fun _ => .declare name _

/-! A type that is unknown fits everywhere. -/

section

variable {ty : Ty} {span : Span}

theorem expectAssignable_confined (h : ty = .unknown ∨ P span) (expected : Ty) :
    Confined P Q (Check.expectAssignable ty expected span) := by
  rcases h with rfl | hp
  · exact .pure ()
  · exact .blindAt (.expectAssignable _ _ _) hp

/-- What is returned fits the innermost function, if there is one. -/
theorem returned_confined (h : ty = .unknown ∨ P span) :
    Confined P Q (do if let some expected := (← get).expected then
      Check.expectAssignable ty expected span) := by
  refine .get fun s => ?_
  cases s.expected with
  | none => exact .pure ()
  | some expected => exact expectAssignable_confined h expected

theorem binaryTy_confined (left right : TypedNode) (hl : left.ty = .unknown ∨ P left.node.span)
    (hr : right.ty = .unknown ∨ P right.node.span) (h : P span) (op : BinaryOp) :
    Confined P Q (Check.binaryTy op left right span) := by
  unfold Check.binaryTy
  split
  · refine (expectAssignable_confined hl _).bind fun _ => ?_
    exact (expectAssignable_confined hr _).bind fun _ => .pure _
  · split
    · exact .blindAt (.reportThen _ _ _) h
    · refine .blindAt ?_ h
      exact .ite (.pure _) (.ite (.pure _) (.ite (.pure _) (.reportThen _ _ _)))

theorem unaryTy_confined (operand : TypedNode) (h : operand.ty = .unknown ∨ P operand.node.span)
    (op : UnaryOp) : Confined P Q (Check.unaryTy op operand) := by
  rcases h with hty | hp
  · unfold Check.unaryTy
    rw [hty]
    cases op <;> exact .pure _
  · exact .blindAt (.unaryTy op operand) hp

theorem elementTy_confined (iterable : TypedNode)
    (h : iterable.ty = .unknown ∨ P iterable.node.span) :
    Confined P Q (Check.elementTy iterable) := by
  rcases h with hty | hp
  · unfold Check.elementTy
    rw [hty]
    exact .pure _
  · exact .blindAt (.elementTy iterable) hp

theorem indexedTy_confined (object : TypedNode) (h : object.ty = .unknown ∨ P object.node.span) :
    Confined P Q (Check.indexedTy object) := by
  unfold Check.indexedTy
  split
  · exact .pure _
  · exact elementTy_confined object h

theorem joinElement_confined (element : TypedNode)
    (h : element.ty = .unknown ∨ P element.node.span) (common : Ty) :
    Confined P Q (Check.joinElement common element) := by
  rcases h with hty | hp
  · unfold Check.joinElement
    rw [hty]
    cases common <;> exact .pure _
  · exact .blindAt (.joinElement common element) hp

theorem appliedTy_confined {callee : Expr} {args : List Expr}
    (ha : ∀ params, Confined P Q (checkArgs cx params args)) (hp : P span)
    (h : ty = .unknown ∨ P callee.span) :
    Confined P Q (cx.appliedTy callee args span ty) := by
  unfold CheckContext.appliedTy
  split
  · refine (Confined.blindAt (.expectArity _ _ _ _) hp).bind fun _ => ?_
    exact (ha _).bind fun _ => .pure _
  · exact (ha []).bind fun _ => .pure _
  · next hfn hunknown =>
    exact (ha []).bind fun _ => .blindAt (.reportThen _ _ _) (h.resolve_left hunknown)

end

mutual

/-- The check of an expression finds what may be found. -/
theorem checkExpr_confined : ∀ e : Expr, Permits cx.names P Q e.within e.marks →
    Confined P Q (checkExpr cx e)
  | .int node _, h | .float node _, h | .string node _, h | .bool node _, h | .noneLit node, h =>
    .last ((h.last rfl).1.2 _)
  | .this node, h => .get fun s => .last ((h.last rfl).1.2 _)
  | .ident node name, h => by
    cases hm : cx.names.misses (.ident node name) with
    | true =>
      rw [checkExpr, identTy_of_unbound cx (Option.isNone_iff_eq_none.1 hm)]
      exact .last (h.missed _ (mem_within_self _) hm)
    | false => exact (identTy_confined cx node.id name).recorded (h.last hm).1.2
  | .interpolated node parts, h => by
    obtain ⟨⟨-, hq⟩, h⟩ := h.last rfl
    exact (checkParts_confined parts h).bind fun _ => .last (hq _)
  | .someOf node inner, h => by
    obtain ⟨⟨-, hq⟩, h⟩ := h.last rfl
    exact (checkExpr_confined inner h).bind fun _ => .last (hq _)
  | .binary node op left right, h => by
    obtain ⟨⟨hp, hq⟩, h⟩ := h.last rfl
    obtain ⟨hl, hr⟩ := Permits.append_iff.1 h
    refine checkExpr_then cx hl (checkExpr_confined left hl) fun leftTy hleft => ?_
    refine checkExpr_then cx hr (checkExpr_confined right hr) fun rightTy hright => ?_
    refine Confined.recorded ?_ hq
    exact binaryTy_confined (left.typed leftTy) (right.typed rightTy) hleft hright hp op
  | .unary node op operand, h => by
    obtain ⟨⟨-, hq⟩, h⟩ := h.last rfl
    refine checkExpr_then cx h (checkExpr_confined operand h) fun ty ht => ?_
    exact (unaryTy_confined (operand.typed ty) ht op).recorded hq
  | .assign node target value, h => by
    obtain ⟨⟨-, hq⟩, h⟩ := h.last rfl
    obtain ⟨ht, hv⟩ := Permits.append_iff.1 h
    refine (checkExpr_confined target ht).bind fun targetTy => ?_
    refine checkExpr_then cx hv (checkExpr_confined value hv) fun valueTy hvalue => ?_
    exact (expectAssignable_confined hvalue targetTy).bind fun _ => .last (hq _)
  | .call node callee args, h => by
    obtain ⟨⟨hp, hq⟩, h⟩ := h.last rfl
    obtain ⟨hc, ha⟩ := Permits.append_iff.1 h
    cases hi : cx.names.intrinsic? callee with
    | some name =>
      rw [checkExpr_call_intrinsic cx hi]
      refine (Confined.record (hc.unknown (mem_within_self callee))).bind fun _ => ?_
      exact (checkArgs_confined args [] ha).bind fun _ => .last (hq _)
    | none =>
      rw [checkExpr_call cx hi, ← bind_assoc]
      refine Confined.recorded ?_ hq
      refine checkExpr_then cx hc (checkExpr_confined callee hc) fun calleeTy hcallee => ?_
      exact appliedTy_confined cx (fun params => checkArgs_confined args params ha) hp hcallee
  | .member node object name nameSpan, h => by
    obtain ⟨⟨-, hq⟩, h⟩ := h.last rfl
    obtain ⟨hname, ho⟩ := Permits.cons_iff.1 h
    cases hb : cx.names.isBuiltin object with
    | true =>
      rw [checkExpr_member_builtin cx hb]
      exact (Confined.record (ho.unknown (mem_within_self object))).bind fun _ => .last (hq _)
    | false =>
      cases ha : cx.names.aliased? object with
      | some path =>
        rw [checkExpr_member_aliased cx hb ha]
        refine (Confined.record (ho.unknown (mem_within_self object))).bind fun _ => ?_
        exact (Confined.blindAt (.moduleMemberTy cx path name nameSpan) hname).recorded hq
      | none =>
        rw [checkExpr_member_value cx hb ha]
        refine (checkExpr_confined object ho).bind fun objectTy => ?_
        exact (Confined.blindAt (.valueMemberTy cx objectTy name _ nameSpan) hname).recorded hq
  | .index node object place, h => by
    obtain ⟨⟨-, hq⟩, h⟩ := h.last rfl
    obtain ⟨ho, hi⟩ := Permits.append_iff.1 h
    refine checkExpr_then cx ho (checkExpr_confined object ho) fun objectTy hobject => ?_
    refine checkExpr_then cx hi (checkExpr_confined place hi) fun indexTy hindex => ?_
    refine (expectAssignable_confined hindex .int).bind fun _ => ?_
    exact (indexedTy_confined (object.typed objectTy) hobject).recorded hq
  | .new node className classSpan args, h => by
    obtain ⟨⟨-, hq⟩, h⟩ := h.last rfl
    obtain ⟨hname, ha⟩ := Permits.cons_iff.1 h
    refine (checkArgs_confined args [] ha).bind fun _ => ?_
    exact (Confined.blindAt (.instanceTy cx className classSpan) hname).recorded hq
  | .array node items, h => by
    obtain ⟨⟨-, hq⟩, h⟩ := h.last rfl
    exact (checkItems_confined items .unknown h).bind fun _ => .last (hq _)
  | .lambda node params ret body, h => by
    obtain ⟨⟨-, hq⟩, h⟩ := h.last rfl
    obtain ⟨hparams, hb⟩ := Permits.params_iff.1 h
    have hbody := (declareParams_confined cx hparams).bind fun _ => checkBlock_confined body hb
    exact (hbody.inScope.returning ret).bind fun _ => .last (hq _)

theorem checkArgs_confined : ∀ (args : List Expr) (params : List Ty),
    Permits cx.names P Q (exprsWithin args) (exprsMarks args) →
      Confined P Q (checkArgs cx params args)
  | [], [], _ | [], _ :: _, _ => .pure ()
  | arg :: args, [], h => by
    obtain ⟨ha, has⟩ := Permits.append_iff.1 h
    exact (checkExpr_confined arg ha).discard.bind fun _ => checkArgs_confined args [] has
  | arg :: args, param :: params, h => by
    obtain ⟨ha, has⟩ := Permits.append_iff.1 h
    refine checkExpr_then cx ha (checkExpr_confined arg ha) fun ty ht => ?_
    exact (expectAssignable_confined ht param).bind fun _ => checkArgs_confined args params has

theorem checkItems_confined : ∀ (items : List Expr) (common : Ty),
    Permits cx.names P Q (exprsWithin items) (exprsMarks items) →
      Confined P Q (checkItems cx common items)
  | [], common, _ => .pure common
  | item :: items, common, h => by
    obtain ⟨hi, his⟩ := Permits.append_iff.1 h
    refine checkExpr_then cx hi (checkExpr_confined item hi) fun ty ht => ?_
    exact (joinElement_confined (item.typed ty) ht common).bind fun common =>
      checkItems_confined items common his

theorem checkParts_confined : ∀ parts : List Part,
    Permits cx.names P Q (partsWithin parts) (partsMarks parts) →
      Confined P Q (checkParts cx parts)
  | [], _ => .pure ()
  | .text _ :: parts, h => checkParts_confined parts h
  | .hole e :: parts, h => by
    obtain ⟨he, hps⟩ := Permits.append_iff.1 h
    exact (checkExpr_confined e he).discard.bind fun _ => checkParts_confined parts hps

/-- The check of a statement finds what may be found. -/
theorem checkStmt_confined : ∀ stmt : Stmt, Permits cx.names P Q stmt.within stmt.marks →
    Confined P Q (checkStmt cx stmt)
  | .letStmt name _ none value _ _, h =>
    (checkExpr_confined value (Permits.cons_iff.1 h).2).bind fun ty => .declare name ty
  | .letStmt name _ (some ty) value nameSpan _, h => by
    obtain ⟨hname, hv⟩ := Permits.cons_iff.1 h
    refine checkExpr_then cx hv (checkExpr_confined value hv) fun valueTy hvalue => ?_
    refine (Confined.blindAt (.annotated cx ty nameSpan) hname).bind fun _ => ?_
    exact (expectAssignable_confined hvalue ty).bind fun _ => .declare name ty
  | .returnStmt none span, h => returned_confined (.inr (Permits.cons_iff.1 h).1)
  | .returnStmt (some value) _, h =>
    checkExpr_then cx h (checkExpr_confined value h) fun _ ht => returned_confined ht
  | .ifStmt condition body none _, h | .whileStmt condition body _, h => by
    obtain ⟨hc, hb⟩ := Permits.append_iff.1 h
    refine checkExpr_then cx hc (checkExpr_confined condition hc) fun ty ht => ?_
    exact (expectAssignable_confined ht .bool).bind fun _ => checkBlock_confined body hb
  | .ifStmt condition body (some otherwise) _, h => by
    obtain ⟨h, ho⟩ := Permits.append_iff.1 h
    obtain ⟨hc, hb⟩ := Permits.append_iff.1 h
    refine checkExpr_then cx hc (checkExpr_confined condition hc) fun ty ht => ?_
    refine (expectAssignable_confined ht .bool).bind fun _ => ?_
    exact (checkBlock_confined body hb).bind fun _ => checkStmt_confined otherwise ho
  | .forStmt name _ iterable body _, h => by
    obtain ⟨hi, hb⟩ := Permits.append_iff.1 h
    refine checkExpr_then cx hi (checkExpr_confined iterable hi) fun ty ht => ?_
    refine (elementTy_confined (iterable.typed ty) ht).bind fun element => ?_
    exact ((Confined.declare name element).bind fun _ => checkBlock_confined body hb).inScope
  | .matchStmt scrutinee arms _, h => by
    obtain ⟨hs, ha⟩ := Permits.append_iff.1 h
    exact (checkExpr_confined scrutinee hs).bind fun ty => checkArms_confined arms ty ha
  | .block body, h => checkBlock_confined body h
  | .expr value, h => (checkExpr_confined value h).discard

theorem checkStmts_confined : ∀ stmts : List Stmt,
    Permits cx.names P Q (stmtsWithin stmts) (stmtsMarks stmts) →
      Confined P Q (checkStmts cx stmts)
  | [], _ => .pure ()
  | stmt :: stmts, h => by
    obtain ⟨hs, hss⟩ := Permits.append_iff.1 h
    exact (checkStmt_confined stmt hs).bind fun _ => checkStmts_confined stmts hss

theorem checkBlock_confined : ∀ body : Block, Permits cx.names P Q body.within body.marks →
    Confined P Q (checkBlock cx body)
  | ⟨stmts, _⟩, h => (checkStmts_confined stmts h).inScope

theorem checkArms_confined : ∀ (arms : List Arm) (scrutinee : Ty),
    Permits cx.names P Q (armsWithin arms) (armsMarks arms) →
      Confined P Q (checkArms cx scrutinee arms)
  | [], _, _ => .pure ()
  | ⟨pattern, body, span⟩ :: arms, scrutinee, h => by
    obtain ⟨hspan, h⟩ := Permits.cons_iff.1 h
    obtain ⟨hb, ha⟩ := Permits.append_iff.1 h
    have hbody := (declarePattern_confined scrutinee pattern hspan).bind fun _ =>
      checkBlock_confined body hb
    exact hbody.inScope.bind fun _ => checkArms_confined arms scrutinee ha

end

/-! ### The check of a module -/

theorem checkFunction_confined {f : FunctionDecl}
    (h : Permits cx.names P Q f.body.within f.marks) : Confined P Q (checkFunction cx f) := by
  obtain ⟨hname, h⟩ := Permits.cons_iff.1 h
  obtain ⟨hparams, hb⟩ := Permits.params_iff.1 h
  have hbody := (declareParams_confined cx hparams).bind fun _ => checkBlock_confined cx f.body hb
  have hret : Confined P Q (cx.checkAnnotation f.ret f.nameSpan) :=
    .blindAt (.annotated cx f.ret f.nameSpan) hname
  exact (hret.bind fun _ => hbody.inScope).returning f.ret

theorem checkField_confined {f : FieldDecl}
    (h : Permits cx.names P Q (exprsWithin f.initial.toList) f.marks) :
    Confined P Q (checkField cx f) := by
  obtain ⟨hspan, h⟩ := Permits.cons_iff.1 h
  refine (Confined.blindAt (.annotated cx f.ty f.span) hspan).bind fun _ => ?_
  cases hi : f.initial with
  | none => exact .pure ()
  | some value =>
    rw [hi] at h
    obtain ⟨hv, -⟩ := Permits.append_iff.1 h
    exact checkExpr_then cx hv (checkExpr_confined cx value hv) fun _ ht =>
      expectAssignable_confined ht f.ty

theorem checkClass_confined {c : ClassDecl} (h : Permits cx.names P Q c.within c.marks) :
    Confined P Q (checkClass cx c) := by
  obtain ⟨hf, hm⟩ := Permits.append_iff.1 h
  rw [ClassDecl.initials, ← flatMap_initials (g := exprsWithin) rfl (by simp [exprsWithin])] at hf
  have hfields : Confined P Q (c.fields.forM (checkField cx)) :=
    .forM fun f hf' => checkField_confined cx (hf.of_mem_flatMap hf')
  have hmethods : Confined P Q (c.methods.forM (checkFunction cx)) :=
    .forM fun f hf' => checkFunction_confined cx (hm.of_mem_flatMap hf')
  exact (hfields.bind fun _ => hmethods).inClass c.name

/-- **The check of a module finds what may be found.** -/
theorem checkModule_confined (h : Permits cx.names P Q cx.module.exprs cx.module.marks) :
    Confined P Q (checkModule cx) := by
  obtain ⟨hc, hf⟩ := Permits.append_iff.1 h
  have hclasses : Confined P Q (cx.module.decls.classes.forM (checkClass cx)) :=
    .forM fun c hc' => checkClass_confined cx (hc.of_mem_flatMap hc')
  have hfunctions : Confined P Q (cx.module.decls.functions.forM (checkFunction cx)) :=
    .forM fun f hf' => checkFunction_confined cx (hf.of_mem_flatMap hf')
  exact (hclasses.bind fun _ => hfunctions).inScope

end

/-! ### The faults of a module -/

/-- The place of an identifier. -/
def Expr.leaf? : Expr → Option Span
  | .ident node _ => some node.span
  | _ => none

theorem Expr.span_of_leaf? {e : Expr} {span : Span} (h : e.leaf? = some span) : e.span = span := by
  cases e <;> cases h
  rfl

/-- A fault of names is met at an identifier. -/
theorem Site.leaf?_of_fault? {cx : NameContext} {s : Site} {d : Diagnostic}
    (h : s.fault? cx = some d) : s.expr.leaf? = some d.span := by
  unfold Site.fault? at h
  split at h
  · next node name he =>
    split at h
    · cases h
    · obtain ⟨cause, -, rfl⟩ := Option.map_eq_some_iff.1 h
      rw [he]
      rfl
  · cases h

namespace Registry

variable {r : Registry} {path : String} {m : Module}

/-- Faults of types are met at places of the module. -/
theorem check_places (hm : r.find? path = some m) :
    ∀ d ∈ (r.check (r.names path)).errors, d.span ∈ m.places := by
  have hcovered := module_covered m
  have hpermits : Permits (r.names path) (· ∈ m.places) (fun _ => True) m.exprs m.marks :=
    ⟨fun _ _ _ => trivial,
      fun _ he _ => ⟨hcovered.exprs (List.mem_map_of_mem he), fun _ => trivial⟩,
      fun _ hm => hcovered.marks (List.mem_map_of_mem hm)⟩
  intro d hd
  rw [check_eq hm] at hd
  have hfound := (checkModule_confined (r.checkContext path m) hpermits {}).1 d
    (Array.mem_toList_iff.1 hd)
  exact hfound.resolve_left (Array.not_mem_empty d)

/-- Faults of names are met at places of the module. -/
theorem names_places (hm : r.find? path = some m) :
    ∀ d ∈ (r.names path).errors.toList, d.span ∈ m.places := by
  intro d hd
  rw [errors_eq_sites hm] at hd
  obtain ⟨s, hs, hd⟩ := List.mem_filterMap.1 hd
  have he : s.expr ∈ m.exprs := (sites_perm_exprs r m).mem_iff.1 (List.mem_map_of_mem hs)
  rw [← Expr.span_of_leaf? (Site.leaf?_of_fault? hd)]
  exact (module_covered m).exprs (List.mem_map_of_mem he)

theorem failed_resolveUsings {us : List Using} {u : Using}
    (h : (r.resolveUsings path us).failed = some u) : u ∈ us := by
  induction us with
  | nil => cases h
  | cons v us ih =>
    unfold resolveUsings at h
    split at h
    · cases h
      exact List.mem_cons_self
    · exact List.mem_cons_of_mem _ (ih h)

/-- The fault in the imports is met at a place of the module. -/
theorem importFault?_places (hm : r.find? path = some m) :
    ∀ d ∈ r.importFault? path, d.span ∈ m.places := by
  intro d hd
  obtain ⟨u, hu, rfl⟩ := Option.map_eq_some_iff.1 hd
  unfold importsOf at hu
  rw [hm] at hu
  exact List.mem_append_left _ (List.mem_map_of_mem (failed_resolveUsings hu))

end Registry

end MgLang
