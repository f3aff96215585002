import MgLang.Grammar.Unit
/-!
# Readers that only step over tokens

Types, parameters, patterns, marks of visibility and imports hold no expressions. Their readers do
nothing with the cursor but step over tokens, one at a time, whether they succeed or not
(`Step.Advances`), so they stay in the file and hand out no number.
-/

namespace MgLang

/-- The second cursor is the first after stepping over tokens. -/
inductive Cursor.LeadsTo : Cursor → Cursor → Prop
  | refl (c : Cursor) : LeadsTo c c
  | advance {c c' : Cursor} (h : LeadsTo c.advance c') : LeadsTo c c'

namespace Cursor

variable {c c' c'' : Cursor}

@[simp] theorem nextId_advance (c : Cursor) : c.advance.nextId = c.nextId := by
  unfold advance
  split <;> rfl

@[simp] theorem file_advance (c : Cursor) : c.advance.file = c.file := by
  unfold advance
  split <;> rfl

theorem rest_advance_suffix (c : Cursor) : c.advance.rest <:+ c.rest := by
  unfold advance
  split
  · exact List.suffix_refl _
  · next t r h =>
    rw [h]
    exact List.suffix_cons t r

theorem leadsTo_advance (c : Cursor) : c.LeadsTo c.advance :=
  .advance (.refl _)

namespace LeadsTo

theorem trans (h : c.LeadsTo c') (h' : c'.LeadsTo c'') : c.LeadsTo c'' := by
  induction h with
  | refl => exact h'
  | advance _ ih => exact .advance (ih h')

theorem nextId (h : c.LeadsTo c') : c'.nextId = c.nextId := by
  induction h with
  | refl => rfl
  | advance _ ih => rw [ih, nextId_advance]

theorem file (h : c.LeadsTo c') : c'.file = c.file := by
  induction h with
  | refl => rfl
  | advance _ ih => rw [ih, file_advance]

theorem rest (h : c.LeadsTo c') : c'.rest <:+ c.rest := by
  induction h with
  | refl => exact List.suffix_refl _
  | @advance c _ _ ih => exact ih.trans c.rest_advance_suffix

end LeadsTo

end Cursor

namespace Step

variable {α β : Type} {j k : Nat} {c : Cursor}

/-- The reader stops where stepping over tokens leads. -/
def Advances (x : Step k c α) : Prop :=
  c.LeadsTo x.next

namespace Advances

theorem done (a : α) : (done c a).Advances :=
  .refl c

theorem fail {d : Diagnostic} {c' : Cursor} (h : c.LeadsTo c') :
    (fail d c' : Step k c α).Advances := h

theorem failHere {d : Diagnostic} : (Step.fail d c : Step k c α).Advances :=
  .refl c

theorem andThen {x : Step k c α} {f : α → (c' : Cursor) → c'.weight + k ≤ c.weight → Step j c' β}
    (hx : x.Advances) (hf : ∀ a c' h, (f a c' h).Advances) : (x.andThen f).Advances := by
  obtain ⟨out, next, progress⟩ := x
  cases out with
  | error d => exact hx
  | ok a => exact hx.trans (hf a next (progress a rfl))

theorem weaken {x : Step k c α} (h : x.Advances) : x.weaken.Advances := h

theorem map {f : α → β} {x : Step k c α} (h : x.Advances) : (x.map f).Advances :=
  h.andThen fun _ _ _ => .done _

end Advances

end Step

open Step (Advances)

namespace Cursor

variable {c : Cursor}

theorem take_advances (h : c.kind ≠ .eof) : (c.take h).Advances :=
  c.leadsTo_advance

theorem expectOr_advances (kind : TokenKind) (d : Diagnostic) : (c.expectOr kind d).Advances := by
  unfold expectOr
  split
  · exact take_advances _
  · exact .failHere

theorem expect_advances (kind : TokenKind) : (c.expect kind).Advances :=
  expectOr_advances _ _

theorem expectName_advances (message : String) : (c.expectName message).Advances :=
  expectOr_advances _ _

theorem expectKind_advances (kind : TokenKind) (d : Diagnostic) :
    (c.expectKind kind d).Advances := by
  unfold expectKind
  split
  · exact c.leadsTo_advance
  · exact .failHere

theorem accept_advances (kind : TokenKind) : (c.accept kind).Advances := by
  unfold accept
  split
  · exact c.leadsTo_advance
  · exact .done _

end Cursor

open Cursor (expect_advances expectOr_advances expectName_advances accept_advances)

/-! ### Types -/

theorem readPrimitiveTy_advances (c : Cursor) : (readPrimitiveTy c).Advances := by
  unfold readPrimitiveTy
  split
  · exact .map (Cursor.take_advances _)
  · exact .fail c.leadsTo_advance

mutual

theorem readTy_advances (c : Cursor) (power : Power) : (readTy c power).Advances := by
  rw [readTy]
  exact (readTyHead_advances c).andThen fun _ c' _ => readTySuffixes_advances c' power _
termination_by 4 * c.weight + 3
decreasing_by all_goals omega

theorem readTyHead_advances (c : Cursor) : (readTyHead c).Advances := by
  rw [readTyHead]
  split
  iterate 5 exact readPrimitiveTy_advances c
  · exact readNamedTy_advances c
  · exact readFnTy_advances c
  · exact .failHere
termination_by 4 * c.weight + 2
decreasing_by all_goals omega

theorem readNamedTy_advances (c : Cursor) : (readNamedTy c).Advances := by
  rw [readNamedTy]
  refine (expect_advances _).andThen ?_
  intro name c' _
  split
  · refine Advances.weaken ((expect_advances _).andThen ?_)
    intro _ c' _
    exact (readTy_advances c' .default).andThen fun _ _ _ => .map (expect_advances _)
  · exact .done _
termination_by 4 * c.weight + 1
decreasing_by all_goals omega

theorem readFnTy_advances (c : Cursor) : (readFnTy c).Advances := by
  rw [readFnTy]
  refine (expect_advances _).andThen fun _ c' _ => (expect_advances _).andThen fun _ c' _ => ?_
  refine (readTys_advances c').andThen fun params c' _ => (accept_advances _).andThen ?_
  intro arrow c' _
  split
  · exact .map (readTy_advances c' .default).weaken
  · exact .done _
termination_by 4 * c.weight + 1
decreasing_by all_goals omega

theorem readTys_advances (c : Cursor) : (readTys c).Advances := by
  rw [readTys]
  split
  · exact .map (expect_advances _)
  · refine (readTy_advances c .default).andThen fun ty c' _ => (accept_advances _).andThen ?_
    intro comma c' _
    split
    · exact .map (readTys_advances c')
    · exact .map (expect_advances _)
termination_by 4 * c.weight + 4
decreasing_by all_goals omega

theorem readTySuffixes_advances (c : Cursor) (power : Power) (ty : Ty) :
    (readTySuffixes c power ty).Advances := by
  rw [readTySuffixes]
  split
  · refine Advances.weaken ((expect_advances _).andThen fun _ c' _ => ?_)
    exact (expect_advances _).andThen fun _ c' _ => readTySuffixes_advances c' power _
  · exact .done _
termination_by 4 * c.weight
decreasing_by all_goals omega

end

theorem readReturnTy_advances (c : Cursor) : (readReturnTy c).Advances := by
  refine (accept_advances _).andThen ?_
  intro arrow c' _
  split
  · exact (readTy_advances c' .default).weaken
  · exact .done _

/-! ### Parameters and patterns -/

theorem readParamList_advances (c : Cursor) : (readParamList c).Advances := by
  rw [readParamList]
  split
  · exact .map (expect_advances _)
  · refine (expectName_advances _).andThen fun name c' _ => ?_
    refine (expect_advances _).andThen fun _ c' _ => ?_
    refine (readTy_advances c' .default).andThen fun ty c' _ => (accept_advances _).andThen ?_
    intro comma c' _
    split
    · exact .map (readParamList_advances c')
    · exact .map (expect_advances _)
termination_by c.weight
decreasing_by all_goals omega

theorem readParams_advances (c : Cursor) : (readParams c).Advances :=
  (expect_advances _).andThen fun _ c' _ => readParamList_advances c'

theorem readArmPattern_advances (c : Cursor) : (readArmPattern c).Advances := by
  unfold readArmPattern
  split
  · refine (expect_advances _).andThen fun _ c' _ => (expect_advances _).andThen fun _ c' _ => ?_
    exact (expect_advances _).andThen fun _ c' _ => .map (expect_advances _)
  · exact .map (expect_advances _)
  · dsimp only
    split
    · exact .map (expectOr_advances _ _)
    · exact .failHere

/-! ### Marks and imports -/

theorem readVisibility_advances (c : Cursor) : (readVisibility c).Advances := by
  unfold readVisibility
  split
  · exact Advances.weaken (.map (expect_advances _))
  · exact Advances.weaken (.map (expect_advances _))
  · exact .done _

theorem readSegments_advances (c : Cursor) (path : String) : (readSegments c path).Advances := by
  rw [readSegments]
  split
  · refine Advances.weaken ((expect_advances _).andThen fun _ c' _ => ?_)
    exact (expectName_advances _).andThen fun segment c' _ => readSegments_advances c' _
  · exact .done _
termination_by c.weight
decreasing_by all_goals omega

theorem readUsing_advances (c : Cursor) : (readUsing c).Advances := by
  refine (expect_advances _).andThen fun token c' _ => ?_
  refine (expectName_advances _).andThen fun first c' _ => ?_
  refine (readSegments_advances c' _).andThen fun path c' _ => ?_
  exact (expect_advances _).andThen fun _ _ _ => .done _

end MgLang
