import MgLang.Compilation
import MgLang.Proofs.Joins
import MgLang.Proofs.Rules
/-!
# Mismatches and unknown types

Two types that can be filled in alike differ by their unknown parts alone. Values of either can then
be stored where the other is expected. They have a common type as well, unless types of functions
are in the way: a function has a type in common with itself alone, so an unknown part inside the
type of a function is enough for a mismatch (`unknown_function_mismatch`). `unknown_compatible` says
that nothing else is in the way, for types and for the steps of a check that compare them.
-/

namespace MgLang

namespace Ty

/-- Below optional values and arrays alone, the types are different types of functions. -/
inductive FunctionsDiffer : Ty → Ty → Prop
  | fn {ps qs : List Ty} {r s : Ty} : fn ps r ≠ fn qs s → FunctionsDiffer (fn ps r) (fn qs s)
  | option {a b : Ty} : FunctionsDiffer a b → FunctionsDiffer (option a) (option b)
  | array {a b : Ty} : FunctionsDiffer a b → FunctionsDiffer (array a) (array b)

theorem functionsDiffer_option {a b : Ty} :
    FunctionsDiffer (option a) (option b) ↔ FunctionsDiffer a b :=
  ⟨fun | .option h => h, .option⟩

theorem functionsDiffer_array {a b : Ty} :
    FunctionsDiffer (array a) (array b) ↔ FunctionsDiffer a b :=
  ⟨fun | .array h => h, .array⟩

theorem FunctionsDiffer.ne {a b : Ty} (h : FunctionsDiffer a b) : a ≠ b := by
  induction h with
  | fn hne => exact hne
  | option _ ih => exact fun h => ih (option.inj h)
  | array _ ih => exact fun h => ih (array.inj h)

/-- Types that differ by their unknown parts alone have a common type, unless they are different
types of functions. -/
theorem isSome_common?_iff {a b c : Ty} (ha : Fills a c) (hb : Fills b c) :
    (a.common? b).isSome ↔ ¬ FunctionsDiffer a b := by
  fun_induction common? a b generalizing c with
  | case1 b => exact iff_of_true rfl (by rintro ⟨⟩)
  | case2 a => exact iff_of_true rfl (by rintro ⟨⟩)
  | case3 | case4 => exact iff_of_true rfl (by rintro ⟨⟩)
  | case5 a b ih =>
    cases ha with
    | option ha =>
      cases hb with
      | option hb => rw [Option.isSome_map, functionsDiffer_option, ih ha hb]
  | case6 a b ih =>
    cases ha with
    | array ha =>
      cases hb with
      | array hb => rw [Option.isSome_map, functionsDiffer_array, ih ha hb]
  | case7 a => exact iff_of_true rfl fun h => h.ne rfl
  | case8 a b hunknown hunknown' _ _ hoption harray hne =>
    refine iff_of_false (by simp) (not_not_intro ?_)
    -- Known types that can be filled in alike are made the same way, and only functions are left.
    cases ha with
    | unknown => exact (hunknown rfl).elim
    | fn =>
      cases hb with
      | unknown => exact (hunknown' rfl).elim
      | fn => exact .fn hne
    | option =>
      cases hb with
      | unknown => exact (hunknown' rfl).elim
      | option => exact (hoption _ _ rfl rfl).elim
    | array =>
      cases hb with
      | unknown => exact (hunknown' rfl).elim
      | array => exact (harray _ _ rfl rfl).elim
    | _ =>
      cases hb with
      | unknown => exact (hunknown' rfl).elim
      | _ => exact (hne rfl).elim

theorem Fills.isNumeric {a c : Ty} (h : Fills a c) (hc : c.isNumeric = true) :
    a.isNumeric = true := by
  cases h with
  | unknown | int | float => rfl
  | _ => cases hc

theorem exists_common?_of_isNumeric {a b : Ty} (ha : a.isNumeric = true) (hb : b.isNumeric = true) :
    ∃ c, a.common? b = some c ∧ c.isNumeric = true := by
  cases a <;> simp only [isNumeric, Bool.false_eq_true] at ha <;>
    cases b <;> simp only [isNumeric, Bool.false_eq_true] at hb <;>
    exact ⟨_, rfl, rfl⟩

theorem exists_common?_of_string {a b : Ty} (ha : Fills a string) (hb : Fills b string) :
    ∃ c, a.common? b = some c ∧ (c.isNumeric = true ∨ c = string) := by
  cases ha <;> cases hb
  · exact ⟨unknown, rfl, .inl rfl⟩
  · exact ⟨string, rfl, .inr rfl⟩
  · exact ⟨string, rfl, .inr rfl⟩
  · exact ⟨string, rfl, .inr rfl⟩

/-- What can only be filled in to a type of single values is no type of functions. -/
theorem not_functionsDiffer {a b c : Ty} (ha : Fills a c)
    (hc : c = bool ∨ c = string ∨ c.isNumeric) : ¬ FunctionsDiffer a b := by
  intro h
  cases h <;> cases ha <;> simp [isNumeric] at hc

end Ty

namespace BinaryOp

/-- An operator that goes with operands of a type goes with operands that can be filled in to it. -/
theorem fits_of_fills {op : BinaryOp} {a b c : Ty} (ha : a.Fills c) (hb : b.Fills c)
    (hc : op.Fits c c) : op.Fits a b ↔ ¬ a.FunctionsDiffer b := by
  have hcommon := Ty.isSome_common?_iff ha hb
  unfold Fits at hc ⊢
  by_cases hl : op.isLogical = true
  · rw [if_pos hl] at hc ⊢
    have hbool : c.Stores .bool := Ty.isAssignable_iff_stores.1 hc.1
    have hfits : ∀ {a : Ty}, a.Fills c → a.isAssignable .bool = true := fun h =>
      Ty.isAssignable_iff_stores.2 (hbool.of_fills h .bool)
    have hceq : c = .bool := by
      cases hbool with
      | refl => rfl
      | ofUnknown => exact ha.writable.elim
    exact iff_of_true ⟨hfits ha, hfits hb⟩ (Ty.not_functionsDiffer ha (.inl hceq))
  · rw [if_neg hl] at hc ⊢
    by_cases hcmp : op.isComparison = true
    · simp only [hcmp, true_or, and_true, ← Option.isSome_iff_exists]
      exact hcommon
    · obtain ⟨d, hd, hop⟩ := hc
      rw [Ty.common?_self] at hd
      obtain rfl := Option.some.inj hd
      obtain hnumeric | ⟨rfl, rfl⟩ := hop.resolve_left hcmp
      · refine iff_of_true ?_ (Ty.not_functionsDiffer ha (.inr (.inr hnumeric)))
        obtain ⟨d, hd, hn⟩ :=
          Ty.exists_common?_of_isNumeric (ha.isNumeric hnumeric) (hb.isNumeric hnumeric)
        exact ⟨d, hd, .inr (.inl hn)⟩
      · refine iff_of_true ?_ (Ty.not_functionsDiffer ha (.inr (.inl rfl)))
        obtain ⟨d, hd, hn | hs⟩ := Ty.exists_common?_of_string ha hb
        · exact ⟨d, hd, .inr (.inl hn)⟩
        · exact ⟨d, hd, .inr (.inr ⟨hs, rfl⟩)⟩

end BinaryOp

namespace Check

theorem reported_expectAssignable (received expected : Ty) (span : Span) (s : Checker) :
    (expectAssignable received expected span).reported s = [] ↔
      received.isAssignable expected = true := by
  unfold expectAssignable reported
  by_cases h : received.isAssignable expected = true <;> simp [h, mismatch]

/-- An operator is reported exactly if it does not go with its operands. -/
theorem reported_binaryTy (op : BinaryOp) (left right : TypedNode) (span : Span) (s : Checker) :
    (binaryTy op left right span).reported s = [] ↔ op.Fits left.ty right.ty := by
  unfold binaryTy BinaryOp.Fits
  by_cases hl : op.isLogical = true
  · rw [if_pos hl, if_pos hl]
    have hkeeps := fun ty span s => (Keeps.expectAssignable ty .bool span s).errors
    rw [reported_bind (hkeeps _ _ _) (hkeeps _ _ _), List.append_eq_nil_iff,
      reported_expectAssignable]
    exact and_congr_right' (reported_expectAssignable _ _ _ _)
  · rw [if_neg hl, if_neg hl]
    cases hc : left.ty.common? right.ty with
    | none => simp [reported, mismatch]
    | some common =>
      dsimp only
      by_cases hcmp : op.isComparison = true
      · simp [reported, hcmp]
      · rw [if_neg hcmp]
        by_cases hn : common.isNumeric = true
        · simp [reported, hn]
        · rw [if_neg hn]
          by_cases hs : common = .string ∧ op = .add
          · simp [reported, hs]
          · simp [reported, mismatch, hcmp, hn, hs]

end Check

open Check

/-- **Unknown parts fit.** Of two types that can be filled in alike, values of either can be stored
where the other is expected, and nothing is reported of it. They have a common type exactly if they
are not, below optional values and arrays alone, different types of functions; and exactly then
nothing is reported of elements of one array that have these types, nor of an operator between them
that goes with the type that both can be filled in to. -/
theorem unknown_compatible {a b c : Ty} (ha : a.Fills c) (hb : b.Fills c) :
    (a.isAssignable b ∧ ∀ span s, (expectAssignable a b span).reported s = []) ∧
      (b.isAssignable a ∧ ∀ span s, (expectAssignable b a span).reported s = []) ∧
      ((a.common? b).isSome ↔ ¬ a.FunctionsDiffer b) ∧
      (∀ node s, (joinElement a ⟨node, b⟩).reported s = [] ↔ ¬ a.FunctionsDiffer b) ∧
      ∀ op node node' span s, op.Fits c c →
        ((binaryTy op ⟨node, a⟩ ⟨node', b⟩ span).reported s = [] ↔ ¬ a.FunctionsDiffer b) := by
  have hab : a.isAssignable b = true := Ty.isAssignable_iff_stores.2 (ha.stores hb)
  have hba : b.isAssignable a = true := Ty.isAssignable_iff_stores.2 (hb.stores ha)
  have hcommon := Ty.isSome_common?_iff ha hb
  refine ⟨⟨hab, ?_⟩, ⟨hba, ?_⟩, hcommon, ?_, ?_⟩
  · intro span s
    exact (reported_expectAssignable a b span s).2 hab
  · intro span s
    exact (reported_expectAssignable b a span s).2 hba
  · intro node s
    rw [reported_joinElement, clash_eq_nil_iff, hcommon]
  · intro op node node' span s hop
    rw [reported_binaryTy, BinaryOp.fits_of_fills ha hb hop]

/-- `Some([])` and `None` can be compared, as both can be filled in to an optional array of
integers. -/
theorem unknown_compatible_optionalArray :
    ((Ty.option (.array .unknown)).Fills (.option (.array .int)) ∧
        (Ty.option .unknown).Fills (.option (.array .int))) ∧
      (Ty.option (.array .unknown)).isAssignable (.option .unknown) ∧
      (Ty.option .unknown).isAssignable (.option (.array .unknown)) ∧
      (binaryTy .eq ⟨⟨1, ⟨"main.mg", 0, 8⟩⟩, .option (.array .unknown)⟩
        ⟨⟨2, ⟨"main.mg", 12, 16⟩⟩, .option .unknown⟩ ⟨"main.mg", 0, 16⟩).reported {} = [] := by
  have harray : (Ty.option (.array .unknown)).Fills (.option (.array .int)) :=
    .option (.array (.unknown trivial))
  have hnone : (Ty.option .unknown).Fills (.option (.array .int)) := .option (.unknown trivial)
  obtain ⟨⟨hab, -⟩, ⟨hba, -⟩, -, -, hop⟩ := unknown_compatible harray hnone
  refine ⟨⟨harray, hnone⟩, hab, hba, (hop .eq _ _ _ {} ⟨_, rfl, .inl rfl⟩).2 ?_⟩
  exact fun | .option h => nomatch h

/-- A method of an array without elements is compared with the method of an array of integers. -/
def comparedMethods : Compilation :=
  ({} : Compilation).add "main.mg" "fn f() \x7b [].push == [1].push; \x7d" (.root "app")

/-- An unknown part of the type of a function is reported: the type of the parameter of one method
is unknown, and `int` in its place would make both types equal. -/
theorem unknown_function_mismatch :
    (Ty.fn [.unknown] .void).Fills (.fn [.int] .void) ∧
      (Ty.fn [.int] .void).Fills (.fn [.int] .void) ∧
      (Ty.fn [.unknown] .void).common? (.fn [.int] .void) = none ∧
      comparedMethods.check.1.diagnostics =
        [⟨.typeMismatch "fn(?) -> void" "fn(int) -> void", ⟨"main.mg", 9, 28⟩⟩] := by
  refine ⟨.fn (.cons (.unknown trivial) .nil) .void, .fn (.cons .int .nil) .void, rfl, ?_⟩
  decide +kernel

end MgLang
