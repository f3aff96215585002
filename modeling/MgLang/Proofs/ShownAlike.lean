import MgLang.Proofs.TyText
import Mathlib.Data.Set.Finite.Basic
/-!
# Types that are shown alike

Also types with unknown parts are shown by texts of their own, unless an array of functions is in
them (`Ty.hasFunctionArray_of_text_eq`). The question mark that such a part is shown by is no token,
so the texts cannot be read. But a class of a new name can stand for what is unknown: its name then
stands in the texts for the question marks (`Ty.text_fill`), and in what is read of them it can be
told from all other classes (`Ty.forget_fill`).
-/

namespace MgLang

/-! ### A class for what is unknown -/

mutual

/-- The type with instances of a class in place of what is unknown. -/
def Ty.fill (name : String) : Ty → Ty
  | .unknown => .named name
  | .option inner => .option (inner.fill name)
  | .array inner => .array (inner.fill name)
  | .fn params ret => .fn (fillTys name params) (ret.fill name)
  | .int => .int
  | .float => .float
  | .string => .string
  | .bool => .bool
  | .void => .void
  | .named other => .named other

/-- The types of a list with instances of a class in place of what is unknown. -/
def fillTys (name : String) : List Ty → List Ty
  | [] => []
  | t :: ts => t.fill name :: fillTys name ts

end

mutual

/-- The type without what is known of the instances of a class. -/
def Ty.forget (name : String) : Ty → Ty
  | .named other => if other = name then .unknown else .named other
  | .option inner => .option (inner.forget name)
  | .array inner => .array (inner.forget name)
  | .fn params ret => .fn (forgetTys name params) (ret.forget name)
  | .int => .int
  | .float => .float
  | .string => .string
  | .bool => .bool
  | .void => .void
  | .unknown => .unknown

/-- The types of a list without what is known of the instances of a class. -/
def forgetTys (name : String) : List Ty → List Ty
  | [] => []
  | t :: ts => t.forget name :: forgetTys name ts

end

section

variable {name : String}

mutual

theorem Ty.fill_writable : ∀ t : Ty, (t.fill name).Writable
  | .int | .float | .string | .bool | .void | .named _ | .unknown => trivial
  | .option inner | .array inner => inner.fill_writable
  | .fn params ret => ⟨fillTys_writable params, ret.fill_writable⟩

theorem fillTys_writable : ∀ ts : List Ty, TysWritable (fillTys name ts)
  | [] => trivial
  | t :: ts => ⟨t.fill_writable, fillTys_writable ts⟩

end

mutual

theorem Ty.Named.fill (hname : IsName name) : ∀ {t : Ty}, t.Named → (t.fill name).Named
  | .int, h | .float, h | .string, h | .bool, h | .void, h | .named _, h => h
  | .unknown, _ => List.forall_mem_singleton.2 hname
  | .option inner, h | .array inner, h => Ty.Named.fill hname (t := inner) h
  | .fn params ret, h => by
    obtain ⟨hparams, hret⟩ := Ty.named_fn.1 h
    exact Ty.named_fn.2 ⟨TysNamed.fill hname hparams, Ty.Named.fill hname hret⟩

theorem TysNamed.fill (hname : IsName name) : ∀ {ts : List Ty}, TysNamed ts →
    TysNamed (fillTys name ts)
  | [], h => h
  | t :: ts, h => by
    obtain ⟨ht, hts⟩ := tysNamed_cons.1 h
    exact tysNamed_cons.2 ⟨Ty.Named.fill hname ht, TysNamed.fill hname hts⟩

end

theorem Ty.isFunction_fill : ∀ t : Ty, (t.fill name).isFunction = t.isFunction
  | .int | .float | .string | .bool | .void | .named _ | .unknown => rfl
  | .option _ | .array _ | .fn _ _ => rfl

mutual

theorem Ty.hasFunctionArray_fill : ∀ t : Ty, (t.fill name).hasFunctionArray = t.hasFunctionArray
  | .int | .float | .string | .bool | .void | .named _ | .unknown => rfl
  | .option inner => inner.hasFunctionArray_fill
  | .array inner => by
    rw [Ty.fill, Ty.hasFunctionArray, Ty.hasFunctionArray, inner.isFunction_fill,
      inner.hasFunctionArray_fill]
  | .fn params ret => by
    rw [Ty.fill, Ty.hasFunctionArray, Ty.hasFunctionArray, anyFunctionArray_fill params,
      ret.hasFunctionArray_fill]

theorem anyFunctionArray_fill : ∀ ts : List Ty,
    anyFunctionArray (fillTys name ts) = anyFunctionArray ts
  | [] => rfl
  | t :: ts => by
    rw [fillTys, anyFunctionArray, anyFunctionArray, t.hasFunctionArray_fill,
      anyFunctionArray_fill ts]

end

mutual

/-- A class of which nothing else is in the type can be forgotten again. -/
theorem Ty.forget_fill : ∀ t : Ty, name ∉ t.classNames → (t.fill name).forget name = t
  | .int, _ | .float, _ | .string, _ | .bool, _ | .void, _ => rfl
  | .unknown, _ => if_pos rfl
  | .named other, h => if_neg fun he : other = name => h (he ▸ List.mem_singleton_self other)
  | .option inner, h => congrArg Ty.option (inner.forget_fill h)
  | .array inner, h => congrArg Ty.array (inner.forget_fill h)
  | .fn params ret, h => by
    have hparams := forgetTys_fill params fun hm => h (List.mem_append_left _ hm)
    have hret := ret.forget_fill fun hm => h (List.mem_append_right _ hm)
    rw [Ty.fill, Ty.forget, hparams, hret]

theorem forgetTys_fill : ∀ ts : List Ty, name ∉ Ty.classNamesAll ts →
    forgetTys name (fillTys name ts) = ts
  | [], _ => rfl
  | t :: ts, h => by
    have ht := t.forget_fill fun hm => h (List.mem_append_left _ hm)
    have hts := forgetTys_fill ts fun hm => h (List.mem_append_right _ hm)
    rw [fillTys, forgetTys, ht, hts]

end

/-- What stands in a text for a character of a text in which parts are unknown. -/
def fillChar (name : String) (c : Char) : List Char :=
  if c = '?' then name.toList else [c]

/-- A text in which nothing is unknown. -/
theorem flatMap_fillChar (cs : List Char) (h : '?' ∉ cs) : cs.flatMap (fillChar name) = cs := by
  induction cs with
  | nil => rfl
  | cons c cs ih =>
    have hc : fillChar name c = [c] := if_neg fun he : c = '?' => h (he ▸ List.mem_cons_self)
    rw [List.flatMap_cons, hc, ih fun hm => h (List.mem_cons_of_mem c hm), List.singleton_append]

/-- No name has a question mark in it. -/
theorem IsName.not_mem (h : IsName name) : '?' ∉ name.toList := by
  obtain ⟨c, r, hr, hstart, hword, -⟩ := h.exists_word
  rw [hr]
  intro hm
  rcases List.mem_cons.1 hm with rfl | hm
  · cases hstart
  · cases hword _ hm

mutual

/-- The text of a filled type has the name of the class in place of the question marks. -/
theorem Ty.text_fill : ∀ t : Ty, t.Named →
    (t.fill name).text.toList = t.text.toList.flatMap (fillChar name)
  | .int, _ => (flatMap_fillChar "int".toList (by decide)).symm
  | .float, _ => (flatMap_fillChar "float".toList (by decide)).symm
  | .string, _ => (flatMap_fillChar "string".toList (by decide)).symm
  | .bool, _ => (flatMap_fillChar "bool".toList (by decide)).symm
  | .void, _ => (flatMap_fillChar "void".toList (by decide)).symm
  | .unknown, _ => (List.flatMap_singleton (fillChar name) '?').symm
  | .named other, h =>
    (flatMap_fillChar _ (h other (List.mem_singleton_self other)).not_mem).symm
  | .option inner, h => by
    have hinner := inner.text_fill h
    simp only [Ty.fill, Ty.text, String.toList_append, List.flatMap_append, hinner]
    rfl
  | .array inner, h => by
    have hinner := inner.text_fill h
    simp only [Ty.fill, Ty.text, String.toList_append, List.flatMap_append, hinner]
    rfl
  | .fn params ret, h => by
    obtain ⟨hparams, hret⟩ := Ty.named_fn.1 h
    have hp := texts_fill params hparams
    have hr := ret.text_fill hret
    simp only [Ty.fill, Ty.text, String.toList_append, List.flatMap_append, hp, hr]
    rfl

theorem texts_fill : ∀ ts : List Ty, TysNamed ts →
    (", ".intercalate (Ty.texts (fillTys name ts))).toList =
      (", ".intercalate (Ty.texts ts)).toList.flatMap (fillChar name)
  | [], _ => rfl
  | [t], h => by
    have ht := t.text_fill (tysNamed_cons.1 h).1
    simpa [fillTys, Ty.texts] using ht
  | t :: t' :: ts, h => by
    obtain ⟨ht, hts⟩ := tysNamed_cons.1 h
    have hfirst := t.text_fill ht
    have hrest := texts_fill (t' :: ts) hts
    simp only [fillTys, Ty.texts, String.intercalate_cons_cons, String.toList_append,
      List.flatMap_append] at hrest ⊢
    rw [hfirst, hrest]
    rfl

end

end

/-- There are always more names. -/
theorem exists_fresh_name (names : List String) : ∃ name, IsName name ∧ name ∉ names := by
  have hinj : Function.Injective fun n => String.ofList ('x' :: List.replicate n 'x') := by
    intro m n h
    simpa using congrArg String.length h
  obtain ⟨_, ⟨n, rfl⟩, hfresh⟩ :=
    (Set.infinite_range_of_injective hinj).exists_notMem_finset names.toFinset
  refine ⟨_, ?_, fun hm => hfresh (List.mem_toFinset.2 hm)⟩
  -- No reserved word begins with the letter of which these names are made.
  have hreserved : ∀ e ∈ TokenKind.keywords, e.1.toList.head? ≠ some 'x' := by decide
  unfold IsName
  rw [String.toList_ofList]
  refine .word rfl (fun c hc => List.eq_of_mem_replicate hc ▸ rfl) (.inr ⟨rfl, fun k hk => ?_⟩)
  exact hreserved _ hk (by rw [String.toList_ofList, List.head?_cons])

/-- **Types that are shown alike are the same**, unless an array of functions is in one of them. -/
theorem Ty.hasFunctionArray_of_text_eq {t u : Ty} (ht : t.Named) (hu : u.Named) (hne : t ≠ u)
    (h : t.text = u.text) : t.hasFunctionArray = true ∨ u.hasFunctionArray = true := by
  obtain ⟨name, hname, hfresh⟩ := exists_fresh_name (t.classNames ++ u.classNames)
  by_contra hnone
  simp only [not_or, Bool.not_eq_true] at hnone
  have htext : (t.fill name).text = (u.fill name).text := by
    rw [← String.toList_inj, t.text_fill ht, u.text_fill hu, h]
  have hfill : t.fill name = u.fill name :=
    Ty.eq_of_text_eq t.fill_writable (ht.fill hname) u.fill_writable (hu.fill hname) htext
      (t.hasFunctionArray_fill.trans hnone.1) (u.hasFunctionArray_fill.trans hnone.2)
  have hforget := congrArg (Ty.forget name) hfill
  rw [t.forget_fill fun hm => hfresh (List.mem_append_left _ hm),
    u.forget_fill fun hm => hfresh (List.mem_append_right _ hm)] at hforget
  exact hne hforget

end MgLang
