import MgLang.Proofs.CheckRun
/-!
# Steps that look at no variable

Most steps of a check do not depend on the variables in scope, nor on the function or class around
them. Such a step is blind to where it is made (`Check.Blind`): it always comes to the same result
and reports the same faults. All it can report is at a few places, which are those that it is given.
-/

namespace MgLang.Check

variable {α β : Type} {ps qs : List Span}

/-- The step comes to one result and reports the same faults wherever it is made, all at these
places, and it does nothing else. -/
def Blind (ps : List Span) (x : Check α) : Prop :=
  ∃ (a : α) (ds : Array Diagnostic), (∀ d ∈ ds, d.span ∈ ps) ∧
    ∀ s, x.result s = a ∧ x.after s = { s with errors := s.errors ++ ds }

namespace Blind

theorem pure (a : α) : Blind ps (pure a) :=
  ⟨a, #[], by simp, fun s => ⟨rfl, by simp⟩⟩

theorem bind {x : Check α} {f : α → Check β} (hx : Blind ps x) (hf : ∀ a, Blind ps (f a)) :
    Blind ps (x >>= f) := by
  obtain ⟨a, ds, hds, hx⟩ := hx
  obtain ⟨b, ds', hds', hf⟩ := hf a
  refine ⟨b, ds ++ ds', fun d hd => ?_, fun s => ?_⟩
  · exact (Array.mem_append.1 hd).elim (hds d) (hds' d)
  · rw [result_bind, after_bind, (hx s).1, (hx s).2, (hf _).1, (hf _).2]
    exact ⟨rfl, by simp [Array.append_assoc]⟩

theorem mono {x : Check α} (h : Blind ps x) (hsub : ps ⊆ qs) : Blind qs x := by
  obtain ⟨a, ds, hds, hx⟩ := h
  exact ⟨a, ds, fun d hd => hsub (hds d hd), hx⟩

theorem report (cause : Cause) (span : Span) : Blind [span] (report cause span) :=
  ⟨(), #[⟨cause, span⟩], by simp, fun s => ⟨rfl, by simp⟩⟩

theorem ite {p : Prop} [Decidable p] {x y : Check α} (hx : Blind ps x) (hy : Blind ps y) :
    Blind ps (if p then x else y) := by
  by_cases h : p
  · rw [if_pos h]
    exact hx
  · rw [if_neg h]
    exact hy

theorem forM {f : α → Check PUnit} (h : ∀ a, Blind ps (f a)) : ∀ as : List α, Blind ps (as.forM f)
  | [] => .pure _
  | a :: as => (h a).bind fun _ => forM h as

/-- A fault is met, and nothing is found. -/
theorem reportThen (cause : Cause) (span : Span) (a : α) :
    Blind [span] (do Check.report cause span; Pure.pure a) :=
  (report cause span).bind fun _ => .pure a

/-- Something is found in either case, and unless a condition holds a fault is met. -/
theorem reportUnless {p : Prop} [Decidable p] (cause : Cause) (span : Span) (a : α) :
    Blind [span] (if p then Pure.pure a else do Check.report cause span; Pure.pure a) :=
  .ite (.pure a) (.reportThen cause span a)

theorem expectAssignable (received expected : Ty) (span : Span) :
    Blind [span] (expectAssignable received expected span) :=
  .ite (.pure ()) (.report _ _)

theorem binaryTy (op : BinaryOp) (left right : TypedNode) (span : Span) :
    Blind [left.node.span, right.node.span, span] (binaryTy op left right span) := by
  unfold Check.binaryTy
  split
  · refine ((expectAssignable _ _ _).mono (by simp)).bind fun _ => ?_
    exact ((expectAssignable _ _ _).mono (by simp)).bind fun _ => .pure _
  · split
    · exact (reportThen _ _ _).mono (by simp)
    · refine .ite (.pure _) (.ite (.pure _) (.ite (.pure _) ?_))
      exact (reportThen _ _ _).mono (by simp)

theorem unaryTy (op : UnaryOp) (operand : TypedNode) :
    Blind [operand.node.span] (unaryTy op operand) := by
  unfold Check.unaryTy
  split
  · exact .ite (.pure _) (.reportThen _ _ _)
  · exact (expectAssignable _ _ _).bind fun _ => .pure _

theorem elementTy (iterable : TypedNode) : Blind [iterable.node.span] (elementTy iterable) := by
  unfold Check.elementTy
  split
  · exact .pure _
  · exact .pure _
  · exact .reportThen _ _ _

theorem indexedTy (object : TypedNode) : Blind [object.node.span] (indexedTy object) := by
  unfold Check.indexedTy
  split
  · exact .pure _
  · exact elementTy object

theorem joinElement (common : Ty) (element : TypedNode) :
    Blind [element.node.span] (joinElement common element) := by
  unfold Check.joinElement
  split
  · exact .pure _
  · exact .reportThen _ _ _

theorem declareNothing (scrutinee : Ty) (span : Span) :
    Blind [span] (declarePattern scrutinee .none span) := by
  cases scrutinee with
  | option _ => exact .pure ()
  | unknown => exact .pure ()
  | _ => exact .report _ _

theorem expectArity (callee : Expr) (params received : Nat) (span : Span) :
    Blind [span] (expectArity callee params received span) :=
  .ite (.pure ()) (.report _ _)

variable (cx : CheckContext)

theorem undefinedClass (name : String) (span : Span) : Blind [span] (cx.undefinedClass name span) :=
  .ite (.pure ()) (.report _ _)

theorem annotated (ty : Ty) (span : Span) : Blind [span] (cx.checkAnnotation ty span) :=
  forM (fun name => .ite (.pure ()) (undefinedClass cx name span)) ty.classNames

theorem moduleMemberTy (path name : String) (span : Span) :
    Blind [span] (cx.moduleMemberTy path name span) := by
  unfold CheckContext.moduleMemberTy
  split
  · exact .pure _
  · split
    · exact .reportThen _ _ _
    · exact .reportUnless _ _ _

theorem classMemberTy (className name : String) (fromClass : Bool) (span : Span) :
    Blind [span] (cx.classMemberTy className name fromClass span) := by
  unfold CheckContext.classMemberTy
  split
  · exact (undefinedClass cx _ _).bind fun _ => .pure _
  · split
    · exact .reportThen _ _ _
    · exact .ite (.reportThen _ _ _) (.reportUnless _ _ _)

theorem valueMemberTy (receiver : Ty) (name : String) (fromClass : Bool) (span : Span) :
    Blind [span] (cx.valueMemberTy receiver name fromClass span) := by
  unfold CheckContext.valueMemberTy
  split
  · exact classMemberTy cx _ _ _ _
  · exact .pure _
  · split
    · exact .pure _
    · exact .reportThen _ _ _

theorem instanceTy (className : String) (span : Span) :
    Blind [span] (cx.instanceTy className span) := by
  unfold CheckContext.instanceTy
  split
  · exact .reportUnless _ _ _
  · exact (undefinedClass cx _ _).bind fun _ => .pure _

end Blind

end MgLang.Check
