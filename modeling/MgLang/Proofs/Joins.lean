import MgLang.Proofs.Subtyping
import MgLang.Proofs.CheckRun
import Mathlib.Data.List.Basic
import Mathlib.Order.Bounds.Basic
/-!
# Common types

The type at which values of two types can be used is their least upper bound in an order of its own
(`Ty.Below`), where an unknown type is below all others and a function is below itself alone. All
laws of `Ty.common?` are laws of least upper bounds. So the type of an array, and whether its
elements have one, depends on which types the elements have, and not on their order:
`common?_join`.

The check of an array reports what it reports inside the elements and, behind each, whether that
element goes with those before it, and nothing else (`ArrayVisit.reported_eq`).
-/

namespace MgLang

namespace Ty

/-! ### The order -/

/-- The second type says at least as much as the first, and values of both can be used at it. -/
inductive Below : Ty → Ty → Prop
  | refl (a : Ty) : Below a a
  | unknown (b : Ty) : Below unknown b
  | widen : Below int float
  | option {a b : Ty} : Below a b → Below (option a) (option b)
  | array {a b : Ty} : Below a b → Below (array a) (array b)

theorem Below.trans {a b c : Ty} : Below a b → Below b c → Below a c
  | .refl _, hbc => hbc
  | hab, .refl _ => hab
  | .unknown _, _ => .unknown _
  | .option hab, .option hbc => .option (hab.trans hbc)
  | .array hab, .array hbc => .array (hab.trans hbc)

theorem Below.antisymm {a b : Ty} : Below a b → Below b a → a = b
  | .refl _, _ | _, .refl _ | .unknown _, .unknown _ => rfl
  | .option hab, .option hba => by rw [hab.antisymm hba]
  | .array hab, .array hba => by rw [hab.antisymm hba]

/-- What says at least as much as a type that can be written can be written. -/
theorem Below.writable {a b : Ty} : Below a b → a.Writable → b.Writable
  | .refl _, ha => ha
  | .unknown _, ha => ha.elim
  | .widen, _ => trivial
  | .option h, ha | .array h, ha => by
    have hw := h.writable ha
    exact hw

instance : PartialOrder Ty where
  le := Below
  le_refl := Below.refl
  le_trans _ _ _ := Below.trans
  le_antisymm _ _ := Below.antisymm

theorem option_le_iff {a t : Ty} : option a ≤ t ↔ ∃ b, t = option b ∧ a ≤ b := by
  constructor
  · intro h
    cases h with
    | refl => exact ⟨a, rfl, le_rfl⟩
    | option h => exact ⟨_, rfl, h⟩
  · rintro ⟨b, rfl, h⟩
    exact .option h

theorem array_le_iff {a t : Ty} : array a ≤ t ↔ ∃ b, t = array b ∧ a ≤ b := by
  constructor
  · intro h
    cases h with
    | refl => exact ⟨a, rfl, le_rfl⟩
    | array h => exact ⟨_, rfl, h⟩
  · rintro ⟨b, rfl, h⟩
    exact .array h

/-! ### Two types -/

/-- What is above the common type of two types is what is above both. -/
theorem common?_le_iff {a b c : Ty} (h : a.common? b = some c) (t : Ty) :
    c ≤ t ↔ a ≤ t ∧ b ≤ t := by
  fun_induction common? a b generalizing c t with
  | case1 b =>
    cases h
    exact (and_iff_right (Below.unknown t)).symm
  | case2 a =>
    cases h
    exact (and_iff_left (Below.unknown t)).symm
  | case3 =>
    cases h
    exact ⟨fun hf => ⟨Below.widen.trans hf, hf⟩, And.right⟩
  | case4 =>
    cases h
    exact ⟨fun hf => ⟨hf, Below.widen.trans hf⟩, And.left⟩
  | case5 a b ih =>
    obtain ⟨c', hc', rfl⟩ := Option.map_eq_some_iff.1 h
    simp only [option_le_iff, ih hc']
    constructor
    · rintro ⟨t', rfl, ha, hb⟩
      exact ⟨⟨t', rfl, ha⟩, t', rfl, hb⟩
    · rintro ⟨⟨t', rfl, ha⟩, _, ⟨⟩, hb⟩
      exact ⟨t', rfl, ha, hb⟩
  | case6 a b ih =>
    obtain ⟨c', hc', rfl⟩ := Option.map_eq_some_iff.1 h
    simp only [array_le_iff, ih hc']
    constructor
    · rintro ⟨t', rfl, ha, hb⟩
      exact ⟨⟨t', rfl, ha⟩, t', rfl, hb⟩
    · rintro ⟨⟨t', rfl, ha⟩, _, ⟨⟩, hb⟩
      exact ⟨t', rfl, ha, hb⟩
  | case7 a =>
    cases h
    exact (and_self_iff).symm
  | case8 a b => cases h

/-- Types without a common type have nothing above both. -/
theorem not_le_of_common?_eq_none {a b t : Ty} (h : a.common? b = none) (ha : a ≤ t) : ¬ b ≤ t := by
  fun_induction common? a b generalizing t with
  | case1 | case2 | case3 | case4 | case7 => cases h
  | case5 a b ih =>
    obtain ⟨t', rfl, ha'⟩ := option_le_iff.1 ha
    intro hb
    obtain ⟨_, ⟨⟩, hb'⟩ := option_le_iff.1 hb
    exact ih (Option.map_eq_none_iff.1 h) ha' hb'
  | case6 a b ih =>
    obtain ⟨t', rfl, ha'⟩ := array_le_iff.1 ha
    intro hb
    obtain ⟨_, ⟨⟩, hb'⟩ := array_le_iff.1 hb
    exact ih (Option.map_eq_none_iff.1 h) ha' hb'
  | case8 a b hau hbu hif hfi hoption harray hne =>
    intro hb
    cases ha with
    | refl =>
      cases hb with
      | refl => exact hne rfl
      | unknown => exact hbu rfl
      | widen => exact hfi rfl rfl
      | option => exact hoption _ _ rfl rfl
      | array => exact harray _ _ rfl rfl
    | unknown => exact hau rfl
    | widen =>
      cases hb with
      | refl => exact hif rfl rfl
      | unknown => exact hbu rfl
      | widen => exact hne rfl
    | option =>
      cases hb with
      | unknown => exact hbu rfl
      | refl | option => exact hoption _ _ rfl rfl
    | array =>
      cases hb with
      | unknown => exact hbu rfl
      | refl | array => exact harray _ _ rfl rfl

/-! ### Many types -/

/-- The type at which values of all types of a list can be used. -/
def commonAll? (tys : List Ty) : Option Ty :=
  tys.foldlM common? unknown

/-- What holds of a common type if and only if it holds of both types, holds of the common type of
a list if and only if it holds of all types. -/
theorem foldlM_common?_iff {P : Ty → Prop}
    (hP : ∀ {a b c : Ty}, a.common? b = some c → (P c ↔ P a ∧ P b)) {tys : List Ty} {c : Ty} :
    ∀ {first : Ty}, tys.foldlM common? first = some c → (P c ↔ P first ∧ ∀ a ∈ tys, P a) := by
  induction tys with
  | nil =>
    intro first h
    cases h
    simp
  | cons a tys ih =>
    intro first h
    rw [List.foldlM_cons] at h
    obtain ⟨joined, hj, h⟩ := Option.bind_eq_some_iff.1 h
    rw [ih h, hP hj, List.forall_mem_cons, and_assoc]

theorem not_le_of_foldlM_eq_none {tys : List Ty} {t : Ty} : ∀ {first : Ty},
    tys.foldlM common? first = none → first ≤ t → ¬ ∀ a ∈ tys, a ≤ t := by
  induction tys with
  | nil =>
    intro first h
    cases h
  | cons a tys ih =>
    intro first h hfirst hall
    obtain ⟨ha, hrest⟩ := List.forall_mem_cons.1 hall
    rw [List.foldlM_cons] at h
    cases hj : first.common? a with
    | none => exact not_le_of_common?_eq_none hj hfirst ha
    | some joined =>
      rw [hj] at h
      exact ih h ((common?_le_iff hj t).2 ⟨hfirst, ha⟩) hrest

/-- The common type of a list is the least upper bound of its types. -/
theorem commonAll?_eq_some_iff {tys : List Ty} {c : Ty} :
    commonAll? tys = some c ↔ IsLUB {a | a ∈ tys} c := by
  have hlub : ∀ {c}, commonAll? tys = some c → IsLUB {a | a ∈ tys} c := by
    intro c h
    refine isLUB_iff_le_iff.2 fun t => ?_
    rw [foldlM_common?_iff (fun h => common?_le_iff h t) h]
    exact and_iff_right (Below.unknown t)
  refine ⟨hlub, fun h => ?_⟩
  cases hc : commonAll? tys with
  | none => exact absurd h.1 (not_le_of_foldlM_eq_none hc (Below.unknown c))
  | some c' => rw [(hlub hc).unique h]

/-- Only the types in a list count, and not their order. -/
theorem commonAll?_congr {tys tys' : List Ty} (h : ∀ a, a ∈ tys ↔ a ∈ tys') :
    commonAll? tys = commonAll? tys' := by
  have hset : {a | a ∈ tys} = {a | a ∈ tys'} := Set.ext h
  refine Option.ext fun c => ?_
  rw [commonAll?_eq_some_iff, commonAll?_eq_some_iff, hset]

theorem unknown_common? (a : Ty) : unknown.common? a = some a := by
  rw [common?]

theorem commonAll?_pair (a b : Ty) : commonAll? [a, b] = a.common? b := by
  simp [commonAll?, unknown_common?]

theorem commonAll?_triple (a b c : Ty) :
    commonAll? [a, b, c] = (a.common? b).bind (·.common? c) := by
  simp [commonAll?, unknown_common?]

theorem common?_comm (a b : Ty) : a.common? b = b.common? a := by
  rw [← commonAll?_pair, ← commonAll?_pair]
  exact commonAll?_congr fun t => by simp [or_comm]

theorem common?_self (a : Ty) : a.common? a = some a := by
  have h : commonAll? [a, a] = commonAll? [a] := commonAll?_congr fun t => by simp
  simpa [commonAll?, unknown_common?] using h

theorem common?_assoc (a b c : Ty) :
    (a.common? b).bind (·.common? c) = (b.common? c).bind a.common? := by
  have h : ∀ t, t ∈ [a, b, c] ↔ t ∈ [b, c, a] := fun t => by simp [or_comm, or_left_comm]
  calc
    (a.common? b).bind (·.common? c) = commonAll? [a, b, c] := (commonAll?_triple a b c).symm
    _ = commonAll? [b, c, a] := commonAll?_congr h
    _ = (b.common? c).bind (·.common? a) := commonAll?_triple b c a
    _ = (b.common? c).bind a.common? := by simp only [common?_comm a]

/-! ### Where values of the common type can be stored -/

/-- What is below a type can be stored wherever that type can. -/
theorem Below.stores {a b t : Ty} : Below a b → Stores b t → Stores a t
  | .refl _, h => h
  | .unknown _, _ => .ofUnknown _
  | _, .toUnknown _ => .toUnknown _
  | .widen, .refl _ => .widen
  | .option h, .refl _ => .option (h.stores (.refl _))
  | .option h, .option ht => .option (h.stores ht)
  | .array h, .refl _ => .array (h.stores (.refl _))
  | .array h, .array ht => .array (h.stores ht)

theorem stores_option {a t : Ty} (h : Stores (option a) t) :
    t = unknown ∨ ∃ b, t = option b ∧ Stores a b := by
  cases h with
  | refl => exact .inr ⟨a, rfl, .refl a⟩
  | toUnknown => exact .inl rfl
  | option h => exact .inr ⟨_, rfl, h⟩

theorem stores_array {a t : Ty} (h : Stores (array a) t) :
    t = unknown ∨ ∃ b, t = array b ∧ Stores a b := by
  cases h with
  | refl => exact .inr ⟨a, rfl, .refl a⟩
  | toUnknown => exact .inl rfl
  | array h => exact .inr ⟨_, rfl, h⟩

theorem Stores.common {a b c t : Ty} (h : a.common? b = some c) (ha : Stores a t)
    (hb : Stores b t) : Stores c t := by
  fun_induction common? a b generalizing c t with
  | case1 | case3 =>
    cases h
    exact hb
  | case2 | case4 | case7 =>
    cases h
    exact ha
  | case5 a b ih =>
    obtain ⟨c', hc', rfl⟩ := Option.map_eq_some_iff.1 h
    obtain rfl | ⟨t', rfl, ha'⟩ := stores_option ha
    · exact .toUnknown _
    · obtain h | ⟨_, ⟨⟩, hb'⟩ := stores_option hb
      · cases h
      · exact .option (ih hc' ha' hb')
  | case6 a b ih =>
    obtain ⟨c', hc', rfl⟩ := Option.map_eq_some_iff.1 h
    obtain rfl | ⟨t', rfl, ha'⟩ := stores_array ha
    · exact .toUnknown _
    · obtain h | ⟨_, ⟨⟩, hb'⟩ := stores_array hb
      · cases h
      · exact .array (ih hc' ha' hb')
  | case8 => cases h

/-- Values of the common type of two types can be stored where values of both can. -/
theorem isAssignable_common? {a b c : Ty} (h : a.common? b = some c) (t : Ty) :
    c.isAssignable t = true ↔ a.isAssignable t = true ∧ b.isAssignable t = true := by
  simp only [isAssignable_iff_stores]
  obtain ⟨ha, hb⟩ := (common?_le_iff h c).1 le_rfl
  exact ⟨fun hc => ⟨ha.stores hc, hb.stores hc⟩, fun ⟨ha, hb⟩ => ha.common h hb⟩

end Ty

/-! ### Arrays -/

namespace Check

variable {α : Type}

/-- The faults that a step reports. -/
def reported (x : Check α) (s : Checker) : List Diagnostic :=
  (x.after s).errors.toList.drop s.errors.size

/-- What two steps report is what the first does, and then what the second does. -/
theorem reported_bind {β : Type} {x : Check α} {f : α → Check β} {s : Checker}
    (hx : s.errors.toList <+: (x.after s).errors.toList)
    (hf : (x.after s).errors.toList <+: ((f (x.result s)).after (x.after s)).errors.toList) :
    (x >>= f).reported s = x.reported s ++ (f (x.result s)).reported (x.after s) := by
  obtain ⟨ds, hds⟩ := hx
  obtain ⟨ds', hds'⟩ := hf
  have hreported : x.reported s = ds := by simp [reported, ← hds]
  have hreported' : (f (x.result s)).reported (x.after s) = ds' := by simp [reported, ← hds']
  rw [hreported, hreported', reported, after_bind, ← hds', ← hds]
  simp

end Check

/-- What is to be said of an element, if those before it have the type `common`. -/
def clash (common : Ty) (element : TypedNode) : List Diagnostic :=
  if (common.common? element.ty).isSome then []
  else [⟨.typeMismatch common.text element.ty.text, element.node.span⟩]

theorem clash_eq_nil_iff {common : Ty} {element : TypedNode} :
    clash common element = [] ↔ (common.common? element.ty).isSome := by
  unfold clash
  split <;> simp [*]

theorem reported_joinElement (common : Ty) (element : TypedNode) (s : Checker) :
    (Check.joinElement common element).reported s = clash common element := by
  unfold Check.joinElement Check.reported clash
  cases common.common? element.ty <;> simp [Check.mismatch]

/-- What comes of an element of an array. -/
structure Element where
  /-- The type that is found for it. -/
  ty : Ty
  /-- The faults that are reported inside it. -/
  own : List Diagnostic
  /-- The fault that it has no type in common with those before it, if it has none. -/
  clash : List Diagnostic

/-- The elements of an array that is checked from a state on, if those before them have the type
`common`. -/
def itemsRun (cx : CheckContext) (common : Ty) (s : Checker) : List Expr → List Element
  | [] => []
  | item :: items =>
    let ty := (checkExpr cx item).result s
    let joined := Check.joinElement common (item.typed ty)
    let found := (checkExpr cx item).after s
    ⟨ty, (checkExpr cx item).reported s, clash common (item.typed ty)⟩ ::
      itemsRun cx (joined.result found) (joined.after found) items

/-- Nothing clashes if no more is reported than inside the elements. -/
theorem flatMap_own_iff (es : List Element) :
    es.flatMap (fun e => e.own ++ e.clash) = es.flatMap (·.own) ↔ es.flatMap (·.clash) = [] := by
  have hlength : (es.flatMap fun e => e.own ++ e.clash).length =
      (es.flatMap (·.own)).length + (es.flatMap (·.clash)).length := by
    induction es with
    | nil => rfl
    | cons e es ih =>
      simp only [List.flatMap_cons, List.length_append] at ih ⊢
      omega
  constructor
  · intro h
    rw [h] at hlength
    exact List.eq_nil_of_length_eq_zero (by omega)
  · intro h
    have hnone : ∀ e ∈ es, e.own ++ e.clash = e.own := fun e he => by
      rw [List.flatMap_eq_nil_iff.1 h e he, List.append_nil]
    exact List.flatMap_congr hnone

theorem Check.joinElement_of_common {common ty joined : Ty} (h : common.common? ty = some joined)
    (item : Expr) : joinElement common (item.typed ty) = pure joined := by
  have hc : common.common? (item.typed ty).ty = some joined := h
  rw [joinElement, hc]

section

variable (cx : CheckContext)

/-- An element is reported exactly if the elements have no common type. -/
theorem itemsRun_silent_iff : ∀ (items : List Expr) (common : Ty) (s : Checker),
    (itemsRun cx common s items).flatMap (·.clash) = [] ↔
      (((itemsRun cx common s items).map (·.ty)).foldlM Ty.common? common).isSome
  | [], _, _ => by simp [itemsRun]
  | item :: items, common, s => by
    simp only [itemsRun, List.flatMap_cons, List.map_cons, List.foldlM_cons,
      List.append_eq_nil_iff, clash_eq_nil_iff]
    cases hc : common.common? ((checkExpr cx item).result s) with
    | none => simp [Expr.typed, hc]
    | some joined =>
      rw [Check.joinElement_of_common hc]
      have ih := itemsRun_silent_iff items joined ((checkExpr cx item).after s)
      simpa [Expr.typed, hc] using ih

/-- The elements are given their common type. -/
theorem result_checkItems : ∀ (items : List Expr) {common joined : Ty} (s : Checker),
    ((itemsRun cx common s items).map (·.ty)).foldlM Ty.common? common = some joined →
      (checkItems cx common items).result s = joined
  | [], _, _, _, h => Option.some.inj h
  | item :: items, common, joined, s, h => by
    simp only [itemsRun, List.map_cons, List.foldlM_cons] at h
    obtain ⟨next, hc, h⟩ := Option.bind_eq_some_iff.1 h
    rw [Check.joinElement_of_common hc] at h
    rw [checkItems, Check.result_bind, Check.result_bind, Check.joinElement_of_common hc]
    exact result_checkItems items ((checkExpr cx item).after s) h

/-- What is reported of the elements is what is reported inside each, and then whether it goes with
those before it. -/
theorem reported_checkItems : ∀ (items : List Expr) (common : Ty) (s : Checker),
    (checkItems cx common items).reported s =
      (itemsRun cx common s items).flatMap fun e => e.own ++ e.clash
  | [], _, _ => by simp [itemsRun, checkItems, Check.reported]
  | item :: items, common, s => by
    have hitem := (checkExpr_keeps cx item s).errors
    have hjoin := fun ty s => (joinElement_keeps common (item.typed ty) s).errors
    have hrest := fun common s => (checkItems_keeps cx items common s).errors
    rw [checkItems, Check.reported_bind hitem ((hjoin _ _).trans (hrest _ _)),
      Check.reported_bind (hjoin _ _) (hrest _ _), reported_joinElement, reported_checkItems items,
      itemsRun, List.flatMap_cons, List.append_assoc]

end

/-- An array literal where the check comes to it. -/
structure ArrayVisit where
  cx : CheckContext
  state : Checker
  node : Node
  items : List Expr

namespace ArrayVisit

/-- The elements. -/
def elements (v : ArrayVisit) : List Element :=
  itemsRun v.cx .unknown v.state v.items

/-- The types that are found for the elements. -/
def types (v : ArrayVisit) : List Ty :=
  v.elements.map (·.ty)

/-- The type that is found for the array. -/
def ty (v : ArrayVisit) : Ty :=
  (checkExpr v.cx (.array v.node v.items)).result v.state

/-- All that is reported of the array. -/
def reported (v : ArrayVisit) : List Diagnostic :=
  (checkExpr v.cx (.array v.node v.items)).reported v.state

/-- Nothing is reported of the array but what is reported inside its elements. -/
def Uniform (v : ArrayVisit) : Prop :=
  v.reported = v.elements.flatMap (·.own)

instance (v : ArrayVisit) : Decidable v.Uniform :=
  inferInstanceAs (Decidable (_ = _))

variable (v : ArrayVisit)

/-- The check of an array reports what is reported of its elements, and nothing else. -/
theorem reported_eq : v.reported = v.elements.flatMap fun e => e.own ++ e.clash :=
  reported_checkItems v.cx v.items .unknown v.state

/-- No element is reported exactly if the elements have a common type. -/
theorem uniform_iff : v.Uniform ↔ (Ty.commonAll? v.types).isSome := by
  rw [Uniform, reported_eq, flatMap_own_iff]
  exact itemsRun_silent_iff v.cx v.items .unknown v.state

theorem ty_of_commonAll? {v : ArrayVisit} {c : Ty} (h : Ty.commonAll? v.types = some c) :
    v.ty = .array c :=
  congrArg Ty.array (result_checkItems v.cx v.items v.state h)

/-- Arrays whose elements have the same types, in whatever order, have the same type, or both have
an element that is reported. -/
theorem ty_eq_of_types {v v' : ArrayVisit} (h : ∀ t, t ∈ v.types ↔ t ∈ v'.types) :
    (v.Uniform ↔ v'.Uniform) ∧ (v.Uniform → v.ty = v'.ty) := by
  have hcommon := Ty.commonAll?_congr h
  refine ⟨by rw [uniform_iff, uniform_iff, hcommon], fun hs => ?_⟩
  obtain ⟨c, hc⟩ := Option.isSome_iff_exists.1 (v.uniform_iff.1 hs)
  rw [ty_of_commonAll? hc, ty_of_commonAll? (hcommon ▸ hc)]

/-- The array can be stored where one of `t` is expected if every element can where `t` is. -/
theorem ty_isAssignable_iff (hs : v.Uniform) (t : Ty) :
    v.ty.isAssignable (.array t) = true ↔ ∀ ty ∈ v.types, ty.isAssignable t = true := by
  obtain ⟨c, hc⟩ := Option.isSome_iff_exists.1 (v.uniform_iff.1 hs)
  rw [ty_of_commonAll? hc]
  have h := Ty.foldlM_common?_iff (fun h => Ty.isAssignable_common? h t) hc
  exact h.trans (and_iff_right rfl)

end ArrayVisit

/-- **Common types are joins.** `Ty.common?` is commutative, associative, idempotent and has the
unknown type as its unit. A common type is the least type that values of both can be stored as. The
check of an array literal reports what it reports inside the elements, and behind each whether it
goes with those before it. So of two array literals whose elements have the same types in different
orders, either both are reported to have an element that does not, or neither is and their types are
the same; and then the literal can be stored as an array of `t` exactly if every element can be
stored as a `t`. -/
theorem common?_join :
    (∀ a b : Ty, a.common? b = b.common? a) ∧
      (∀ a b c : Ty, (a.common? b).bind (·.common? c) = (b.common? c).bind a.common?) ∧
      (∀ a : Ty, a.common? a = some a ∧ Ty.unknown.common? a = some a ∧
        a.common? .unknown = some a) ∧
      (∀ a b c : Ty, a.common? b = some c → a.isAssignable c ∧ b.isAssignable c ∧
        ∀ t : Ty, a.isAssignable t → b.isAssignable t → c.isAssignable t) ∧
      (∀ v : ArrayVisit, v.reported = v.elements.flatMap fun e => e.own ++ e.clash) ∧
      (∀ v v' : ArrayVisit, v.types.Perm v'.types →
        (v.Uniform ↔ v'.Uniform) ∧ (v.Uniform → v.ty = v'.ty)) ∧
      ∀ v : ArrayVisit, v.Uniform → ∀ t : Ty,
        v.ty.isAssignable (.array t) ↔ ∀ ty ∈ v.types, ty.isAssignable t := by
  refine ⟨Ty.common?_comm, Ty.common?_assoc, fun a => ?_, fun a b c h => ?_,
    ArrayVisit.reported_eq, fun v v' h => ?_, ?_⟩
  · have hunknown := Ty.unknown_common? a
    exact ⟨Ty.common?_self a, hunknown, (Ty.common?_comm a .unknown).trans hunknown⟩
  · have hself : c.isAssignable c = true := Ty.isAssignable_iff_stores.2 (.refl c)
    obtain ⟨ha, hb⟩ := (Ty.isAssignable_common? h c).1 hself
    exact ⟨ha, hb, fun t hat hbt => (Ty.isAssignable_common? h t).2 ⟨hat, hbt⟩⟩
  · exact ArrayVisit.ty_eq_of_types fun t => h.mem_iff
  · exact fun v => v.ty_isAssignable_iff

/-- An array literal in a module that declares nothing. -/
def bareArray (items : List Expr) : ArrayVisit where
  cx := ⟨.empty, { module := "main" }, .ofFile "main" (.root "app") {} "main.mg"⟩
  state := {}
  node := ⟨9, ⟨"main.mg", 0, 9⟩⟩
  items := items

/-- `[Some(1), None, Some(2.5)]`. -/
def optionalNumbers : ArrayVisit :=
  bareArray
    [.someOf ⟨1, ⟨"main.mg", 1, 8⟩⟩ (.int ⟨0, ⟨"main.mg", 6, 7⟩⟩ 1),
      .noneLit ⟨2, ⟨"main.mg", 10, 14⟩⟩,
      .someOf ⟨4, ⟨"main.mg", 16, 25⟩⟩ (.float ⟨3, ⟨"main.mg", 21, 24⟩⟩ "2.5")]

/-- `[None, Some(2.5), Some(1)]`. -/
def optionalNumbersTurned : ArrayVisit :=
  bareArray
    [.noneLit ⟨0, ⟨"main.mg", 1, 5⟩⟩,
      .someOf ⟨2, ⟨"main.mg", 7, 16⟩⟩ (.float ⟨1, ⟨"main.mg", 12, 15⟩⟩ "2.5"),
      .someOf ⟨4, ⟨"main.mg", 18, 25⟩⟩ (.int ⟨3, ⟨"main.mg", 23, 24⟩⟩ 1)]

theorem common?_join_optionalNumbers :
    (optionalNumbers.types.Perm optionalNumbersTurned.types ∧ optionalNumbers.Uniform) ∧
      (optionalNumbers.Uniform ↔ optionalNumbersTurned.Uniform) ∧
      optionalNumbers.ty = optionalNumbersTurned.ty ∧
      (optionalNumbers.ty.isAssignable (.array (.option .float)) ↔
        ∀ ty ∈ optionalNumbers.types, ty.isAssignable (.option .float)) := by
  have hperm : optionalNumbers.types.Perm optionalNumbersTurned.types := by decide
  have hsilent : optionalNumbers.Uniform := by decide
  obtain ⟨-, -, -, -, -, horder, hstored⟩ := common?_join
  obtain ⟨huniform, hty⟩ := horder optionalNumbers optionalNumbersTurned hperm
  exact ⟨⟨hperm, hsilent⟩, huniform, hty hsilent,
    hstored optionalNumbers hsilent (.option .float)⟩

end MgLang
