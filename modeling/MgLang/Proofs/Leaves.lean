import MgLang.Proofs.Finding
import MgLang.Proofs.Staying
/-!
# Places with nothing inside them

Where a tree has its regions nested and in order, the regions with none inside them are apart, at
whatever depth they are (`Row.leaves_ordered`). Identifiers take up such regions, and so do names,
parameters and a `return` without a value. So no two of these share a place: the main statement is
`parseSource_leaves`.
-/

namespace MgLang

/-! ### Regions with none inside -/

mutual

/-- The places of regions with none inside them, among the region and those inside it. -/
def Region.leaves : Region → List Span
  | .mk span inner => if inner.isEmpty then [span] else regionsLeaves inner

/-- The places of regions with none inside them, among these and those inside them. -/
def regionsLeaves : List Region → List Span
  | [] => []
  | r :: rs => r.leaves ++ regionsLeaves rs

end

theorem regionsLeaves_append (rs rs' : List Region) :
    regionsLeaves (rs ++ rs') = regionsLeaves rs ++ regionsLeaves rs' := by
  induction rs with
  | nil => rfl
  | cons r rs ih => rw [List.cons_append, regionsLeaves, regionsLeaves, ih, List.append_assoc]

mutual

theorem Region.leaves_subset : ∀ r : Region, r.leaves ⊆ r.spans
  | .mk span inner => by
    rw [Region.leaves, Region.spans]
    split
    · exact List.cons_subset_cons _ (List.nil_subset _)
    · exact List.subset_cons_of_subset _ (regionsLeaves_subset inner)

theorem regionsLeaves_subset : ∀ rs : List Region, regionsLeaves rs ⊆ regionsSpans rs
  | [] => List.Subset.refl _
  | r :: rs => by
    rw [regionsLeaves, regionsSpans]
    exact List.append_subset.2 ⟨List.subset_append_of_subset_left _ r.leaves_subset,
      List.subset_append_of_subset_right _ (regionsLeaves_subset rs)⟩

end

namespace Row

variable {file : String} {lo hi : Nat} {rs : List Region}

/-- The leaves of a row are one behind the other. -/
theorem leaves_ordered (h : Row file lo rs hi) :
    (regionsLeaves rs).Pairwise fun a b => a.stop ≤ b.start := by
  induction h with
  | nil => exact .nil
  | @cons lo hi span inner rs hfile hlo hlt hinner hrest ihinner ihrest =>
    have hone : Row file lo [.mk span inner] span.stop :=
      .one hfile hlo hlt (Nat.le_refl _) hinner
    rw [regionsLeaves]
    refine List.pairwise_append.2 ⟨?_, ihrest, fun a ha b hb => ?_⟩
    · rw [Region.leaves]
      split
      · exact List.pairwise_singleton _ _
      · exact ihinner
    · have ha := hone.forall_spans a
        (List.mem_append_left _ (Region.leaves_subset _ ha))
      have hb := hrest.forall_spans b (regionsLeaves_subset _ hb)
      exact Nat.le_trans ha.2.2.2 hb.2.1

/-- No two leaves of a row have one place. -/
theorem leaves_nodup (h : Row file lo rs hi) : (regionsLeaves rs).Nodup := by
  refine h.leaves_ordered.imp_of_mem fun {a b} ha _ hle heq => ?_
  have hlt := (h.forall_spans a (regionsLeaves_subset _ ha)).2.2.1
  rw [← heq] at hle
  omega

end Row

/-! ### Identifiers and marks take up leaves -/

/-- The place of a mark with nothing inside it. -/
def Mark.leaf? : Mark → Option Span
  | leaf span => some span
  | whole _ => none

/-- The places of identifiers and of marks with nothing inside them. -/
def leavesOf (es : List Expr) (ms : List Mark) : List Span :=
  es.filterMap Expr.leaf? ++ ms.filterMap Mark.leaf?

theorem leavesOf_append_perm (es es' : List Expr) (ms ms' : List Mark) :
    (leavesOf (es ++ es') (ms ++ ms')).Perm (leavesOf es ms ++ leavesOf es' ms') := by
  unfold leavesOf
  rw [List.filterMap_append, List.filterMap_append]
  exact append_append_perm _ _ _ _

theorem leavesOf_perm {es es' : List Expr} {ms ms' : List Mark} (hes : es.Perm es')
    (hms : ms.Perm ms') : (leavesOf es ms).Perm (leavesOf es' ms') :=
  (hes.filterMap _).append (hms.filterMap _)

/-- These are places of expressions and marks. -/
theorem Covers.leavesOf_subset {ps : List Span} {es : List Expr} {ms : List Mark}
    (h : Covers ps es ms) : leavesOf es ms ⊆ ps := by
  refine List.append_subset.2 ⟨fun s hs => h.exprs ?_, fun s hs => h.marks ?_⟩
  · obtain ⟨e, he, hleaf⟩ := List.mem_filterMap.1 hs
    exact Expr.span_of_leaf? hleaf ▸ List.mem_map_of_mem he
  · obtain ⟨m, hm, hleaf⟩ := List.mem_filterMap.1 hs
    cases m <;> cases hleaf
    exact List.mem_map_of_mem hm

/-- Each of the identifiers and marks takes up a leaf of the regions, and none shares one. -/
def Apart (es : List Expr) (ms : List Mark) (rs : List Region) : Prop :=
  (leavesOf es ms).Subperm (regionsLeaves rs)

namespace Apart

variable {es es' : List Expr} {ms ms' : List Mark} {rs rs' : List Region}

theorem nil : Apart [] [] rs :=
  List.nil_subperm

theorem append (h : Apart es ms rs) (h' : Apart es' ms' rs') :
    Apart (es ++ es') (ms ++ ms') (rs ++ rs') := by
  unfold Apart
  rw [regionsLeaves_append]
  exact (leavesOf_append_perm es es' ms ms').subperm.trans (List.Subperm.append h h')

theorem behind (h : Apart es ms rs') (rs : List Region) : Apart es ms (rs ++ rs') := by
  have hnil : Apart [] [] rs := .nil
  exact hnil.append h

theorem swap (h : Apart es ms (rs' ++ rs)) : Apart es ms (rs ++ rs') := by
  unfold Apart at h ⊢
  rw [regionsLeaves_append] at h ⊢
  exact h.trans List.perm_append_comm.subperm

theorem perm (h : Apart es ms rs) (hes : es.Perm es') (hms : ms.Perm ms') : Apart es' ms' rs :=
  (leavesOf_perm hes hms).symm.subperm.trans h

theorem leaf (span : Span) : Apart [] [.leaf span] [.leaf span] :=
  .refl _

theorem params (params : List Param) : Apart [] (paramMarks params) (params.map Param.region) := by
  induction params with
  | nil => exact nil
  | cons p params ih => exact (leaf p.span).append ih

theorem whole (h : Apart es ms rs) (span : Span) : Apart es (.whole span :: ms) rs :=
  h

/-- What is inside a region is at leaves of the region. -/
theorem inside (h : Apart es ms rs) (span : Span) : Apart es ms [.mk span rs] := by
  unfold Apart at h ⊢
  rw [regionsLeaves, Region.leaves, regionsLeaves, List.append_nil]
  split
  · next hempty =>
    rw [List.isEmpty_iff.1 hempty] at h
    exact h.trans List.nil_subperm
  · exact h

theorem ident (node : Node) (name : String) :
    Apart (Expr.ident node name).within [] [(Expr.ident node name).region] :=
  .refl _

/-- What is inside an expression of another kind than an identifier, and the expression. -/
theorem within {e : Expr} (h : Apart es ms rs) (hw : e.within = es ++ [e])
    (hr : e.region = .mk e.span rs) (he : e.leaf? = none) : Apart e.within ms [e.region] := by
  have hleaves : leavesOf e.within ms = leavesOf es ms := by
    rw [leavesOf, hw, List.filterMap_append, List.filterMap_cons_none he, List.filterMap_nil,
      List.append_nil]
    rfl
  unfold Apart
  rw [hleaves, hr]
  exact h.inside e.span

end Apart

mutual

theorem within_apart : ∀ e : Expr, Apart e.within e.marks [e.region]
  | .ident node name => .ident node name
  | .int _ _ | .float _ _ | .string _ _ | .bool _ _ | .this _ | .noneLit _ =>
    Apart.nil.within rfl rfl rfl
  | .interpolated _ parts => (partsWithin_apart parts).within rfl rfl rfl
  | .someOf _ inner => (within_apart inner).within rfl rfl rfl
  | .binary _ _ left right =>
    ((within_apart left).append (within_apart right)).within rfl rfl rfl
  | .unary _ _ operand => (within_apart operand).within rfl rfl rfl
  | .assign _ target value =>
    ((within_apart target).append (within_apart value)).within rfl rfl rfl
  | .call _ callee args =>
    ((within_apart callee).append (exprsWithin_apart args)).within rfl rfl rfl
  | .member _ object _ nameSpan =>
    (((Apart.leaf nameSpan).append (within_apart object)).swap).within rfl rfl rfl
  | .index _ object place =>
    ((within_apart object).append (within_apart place)).within rfl rfl rfl
  | .new _ _ classSpan args =>
    ((Apart.leaf classSpan).append (exprsWithin_apart args)).within rfl rfl rfl
  | .array _ items => (exprsWithin_apart items).within rfl rfl rfl
  | .lambda _ params _ body =>
    ((Apart.params params).append (blockWithin_apart body)).within rfl rfl rfl

theorem exprsWithin_apart : ∀ es : List Expr,
    Apart (exprsWithin es) (exprsMarks es) (exprsRegions es)
  | [] => .nil
  | e :: es => (within_apart e).append (exprsWithin_apart es)

theorem partsWithin_apart : ∀ parts : List Part,
    Apart (partsWithin parts) (partsMarks parts) (partsRegions parts)
  | [] => .nil
  | .text _ :: parts => partsWithin_apart parts
  | .hole e :: parts => (within_apart e).append (partsWithin_apart parts)

theorem stmtWithin_apart : ∀ stmt : Stmt, Apart stmt.within stmt.marks [stmt.region]
  | .letStmt _ _ _ value nameSpan _ =>
    ((Apart.leaf nameSpan).append (within_apart value)).inside _
  | .returnStmt none span => .leaf span
  | .returnStmt (some value) _ => (within_apart value).inside _
  | .ifStmt condition body none _ | .whileStmt condition body _ =>
    ((within_apart condition).append (blockWithin_apart body)).inside _
  | .ifStmt condition body (some otherwise) _ =>
    (((within_apart condition).append (blockWithin_apart body)).append
      (stmtWithin_apart otherwise)).inside _
  | .forStmt _ nameSpan iterable body _ =>
    (((within_apart iterable).append (blockWithin_apart body)).behind [.leaf nameSpan]).inside _
  | .matchStmt scrutinee arms _ =>
    ((within_apart scrutinee).append (armsWithin_apart arms)).inside _
  | .block body => (blockWithin_apart body).inside _
  | .expr value => (within_apart value).inside _

theorem stmtsWithin_apart : ∀ stmts : List Stmt,
    Apart (stmtsWithin stmts) (stmtsMarks stmts) (stmtsRegions stmts)
  | [] => .nil
  | stmt :: stmts => (stmtWithin_apart stmt).append (stmtsWithin_apart stmts)

theorem blockWithin_apart : ∀ body : Block, Apart body.within body.marks [body.region]
  | ⟨stmts, span⟩ => (stmtsWithin_apart stmts).inside span

theorem armsWithin_apart : ∀ arms : List Arm,
    Apart (armsWithin arms) (armsMarks arms) (armsRegions arms)
  | [] => .nil
  | ⟨pattern, body, span⟩ :: arms =>
    ((((blockWithin_apart body).behind pattern.regions).inside span).append
      (armsWithin_apart arms)).whole span

end

/-! ### Declarations -/

theorem FunctionDecl.within_apart (f : FunctionDecl) : Apart f.body.within f.marks [f.region] :=
  ((Apart.leaf f.nameSpan).append
    ((Apart.params f.params).append (blockWithin_apart f.body))).inside f.span

theorem FieldDecl.within_apart (f : FieldDecl) :
    Apart (exprsWithin f.initial.toList) f.marks [f.region] :=
  ((exprsWithin_apart f.initial.toList).inside f.span).whole f.span

/-- The marks within a member. -/
def Member.marks : Member → List Mark
  | field f => f.marks
  | method f => f.marks

theorem Member.within_apart (m : Member) : Apart m.within m.marks [m.region] := by
  cases m with
  | field f => exact f.within_apart
  | method f => exact f.within_apart

theorem membersWithin_apart (ms : List Member) :
    Apart (ms.flatMap Member.within) (ms.flatMap Member.marks) (ms.map Member.region) := by
  induction ms with
  | nil => exact .nil
  | cons m ms ih => exact m.within_apart.append ih

/-- The marks within the members of a class are those within its fields and its methods. -/
theorem Member.marks_perm (ms : List Member) :
    (ms.flatMap marks).Perm ((ms.filterMap field?).flatMap FieldDecl.marks ++
      (ms.filterMap method?).flatMap FunctionDecl.marks) :=
  flatMap_perm (g := marks) ms

/-- What is within the members of a class is what is within the class. -/
theorem ClassDecl.Lists.apart {c : ClassDecl} {ms : List Member} {rs : List Region}
    (h : c.Lists ms) (hms : Apart (ms.flatMap Member.within) (ms.flatMap Member.marks) rs) :
    Apart c.within c.marks rs := by
  obtain ⟨hfields, hmethods⟩ := h
  have hwithin := Member.within_perm ms
  have hmarks := Member.marks_perm ms
  rw [← hfields, ← hmethods] at hwithin hmarks
  exact hms.perm hwithin hmarks

/-- The marks of a declaration. -/
def Item.marks : Item → List Mark
  | directive _ => []
  | function f => f.marks
  | classDecl c => c.marks

theorem Item.Covers.within_apart {item : Item} {r : Region} (h : item.Covers r) :
    Apart item.within item.marks [r] := by
  cases h with
  | directive u => exact .nil
  | function f => exact f.within_apart
  | @classDecl c ms hms =>
    exact hms.apart (((membersWithin_apart ms).behind [.leaf c.nameSpan]).inside c.span)

/-- Declarations behind those of their kind have the marks of both. -/
theorem Declarations.marks_append_perm (d d' : Declarations) (usings : List Using) :
    (d.marks ++ d'.marks).Perm
      (marks ⟨usings, d.functions ++ d'.functions, d.classes ++ d'.classes⟩) := by
  unfold marks
  rw [List.flatMap_append, List.flatMap_append]
  exact append_append_perm _ _ _ _

theorem Declarations.marks_add_perm (d : Declarations) (item : Item) :
    (d.marks ++ item.marks).Perm (d.add item).marks := by
  cases item with
  | directive u =>
    rw [Item.marks, List.append_nil]
    exact .refl _
  | function f => simp [Item.marks, marks, add]
  | classDecl c =>
    have h := marks_append_perm d ⟨[], [], [c]⟩ d.usings
    simpa [Item.marks, marks, add] using h

/-- What is within declarations takes up leaves of the regions that they take up. -/
theorem Declarations.Fills.apart {d : Declarations} {rs : List Region} (h : d.Fills rs) :
    Apart d.exprs d.marks rs := by
  obtain ⟨items, rfl, hrs⟩ := h
  suffices ∀ d rs', Apart (Declarations.exprs d) d.marks rs' →
      Apart (items.foldl Declarations.add d).exprs (items.foldl Declarations.add d).marks
        (rs' ++ rs) from this {} [] .nil
  induction hrs with
  | nil => exact fun d rs' hd => (List.append_nil rs').symm ▸ hd
  | @cons item r items rs hr _ ih =>
    intro d rs' hd
    have hone : Apart (d.add item).exprs (d.add item).marks (rs' ++ [r]) :=
      (hd.append hr.within_apart).perm (d.exprs_add_perm item) (d.marks_add_perm item)
    have hall := ih _ _ hone
    rwa [List.append_assoc] at hall

/-! ### Leaves of a source text -/

/-- **Identifiers are apart.** In a source text that is read, no two identifiers have one place, nor
has an identifier the place of a name, a parameter or a `return` without a value. -/
theorem parseSource_leaves {file text : String} {n : Nat} {d : Declarations}
    (h : (parseSource file text n).1 = .ok d) : (leavesOf d.exprs d.marks).Nodup := by
  obtain ⟨rs, hfills, hrow⟩ := (parseSource_rows file text n).2 d h
  obtain ⟨ls, hperm, hsub⟩ := hfills.apart
  exact hperm.nodup_iff.1 (hsub.nodup hrow.leaves_nodup)

end MgLang
