import MgLang.Proofs.Declared
import MgLang.Proofs.Locals
import MgLang.Proofs.Reachable
/-!
# The types that names have by declaration

A name that is bound to a function, a class or a member has a type by the declaration of that thing,
wherever the name stands (`Registry.declaredTy?`). Every such binding in a module leads to a
declaration with a type that can be written (`declaredTy?_of_lookup`), and the check records that
type for the identifier (`typeOf?_ident`).
-/

namespace MgLang

/-- What is bound may have a type: it is no module, and nothing of the built-in library. -/
def Binding.isTyped : Binding → Bool
  | .namespaceOf _ | .builtin _ _ | .intrinsic _ => false
  | _ => true

/-- The type that what is bound has by its declaration. A variable has none before the check. -/
def Registry.declaredTy? (r : Registry) : Binding → Option Ty
  | .function path idx => (r.functionAt? path idx).map (·.signature)
  | .classAt path idx => (r.classAt? path idx).map (Ty.named ·.name)
  | .member path idx name => (r.memberAt? path idx name).map (·.ty)
  | _ => none

/-! ### Types that can be written -/

theorem tysWritable_iff {tys : List Ty} : TysWritable tys ↔ ∀ ty ∈ tys, ty.Writable := by
  induction tys with
  | nil => simp [TysWritable]
  | cons ty tys ih => rw [TysWritable, ih, List.forall_mem_cons]

theorem ParamsWritable.tys {params : List Param} (h : ParamsWritable params) :
    TysWritable (params.map (·.ty)) :=
  tysWritable_iff.2 (List.forall_mem_map.2 h)

theorem FunctionDecl.Declared.signature {f : FunctionDecl} (h : f.Declared) :
    f.signature.Writable :=
  ⟨h.1.tys, h.2⟩

theorem ClassDecl.Declared.member {c : ClassDecl} (h : c.Declared) {name : String} {x : Member}
    (hx : c.member? name = some x) : x.ty.Writable := by
  unfold member? at hx
  split at hx
  · next f hf =>
    cases hx
    exact h.fields f (List.mem_of_find?_eq_some hf)
  · obtain ⟨f, hf, rfl⟩ := Option.map_eq_some_iff.1 hx
    exact (h.methods f (List.mem_of_find?_eq_some hf)).signature

/-! ### Bindings in a module -/

/-- What is bound is without a type, a variable, or declared with a type that can be written. -/
def Binding.Leads (r : Registry) (b : Binding) : Prop :=
  b.isTyped = false ∨ (∃ x span, b = .variable x span) ∨
    ∃ ty, r.declaredTy? b = some ty ∧ ty.Writable

section

variable {r : Registry} {m : Module} {path : String} {n : Nat}

/-- A declaration that a name is bound to has a type that can be written. -/
theorem Binding.Named.leads (hc : r.Counted n) {name : String} {b : Binding}
    (h : b.Named r name) : b.Leads r := by
  cases b with
  | function path idx =>
    obtain ⟨d, hd, -⟩ := h
    obtain ⟨f, hf, -⟩ := Option.map_eq_some_iff.1 hd
    obtain ⟨m, hm, hget⟩ := functionAt?_eq_some.1 hf
    refine .inr (.inr ⟨f.signature, congrArg (Option.map FunctionDecl.signature) hf, ?_⟩)
    exact ((hc path m hm).functions f (List.mem_of_getElem? hget)).signature
  | classAt path idx =>
    obtain ⟨d, hd, -⟩ := h
    obtain ⟨c, hcls, -⟩ := Option.map_eq_some_iff.1 hd
    refine .inr (.inr ⟨.named c.name, ?_, trivial⟩)
    exact congrArg (Option.map fun c : ClassDecl => Ty.named c.name) hcls
  | member path idx x =>
    obtain ⟨d, hd, -⟩ := h
    obtain ⟨y, hy, -⟩ := Option.map_eq_some_iff.1 hd
    obtain ⟨c, hcls, hmember⟩ := memberAt?_eq_some.1 hy
    obtain ⟨m, hm, hget⟩ := classAt?_eq_some.1 hcls
    refine .inr (.inr ⟨y.ty, congrArg (Option.map Member.ty) hy, ?_⟩)
    exact ((hc path m hm).classes c (List.mem_of_getElem? hget)).member hmember
  | «variable» x span => exact .inr (.inl ⟨x, span, rfl⟩)
  | namespaceOf path => exact .inl rfl
  | builtin space x => exact .inl rfl
  | intrinsic x => exact .inl rfl

/-- An identifier that is bound to something with a type refers to a variable, or to a declaration
with a type that can be written. -/
theorem declaredTy?_of_lookup (hc : r.Counted n) (hm : r.find? path = some m) {σ : Site}
    (hσ : σ ∈ r.sites m) {name : String} {b : Binding} (hl : σ.env.lookup name = some b)
    (ht : b.isTyped = true) :
    (∃ x span, b = .variable x span) ∨ ∃ ty, r.declaredTy? b = some ty ∧ ty.Writable := by
  rcases ((sites_named hm σ hσ).lookup hl).leads hc with h | h
  · exact absurd ht (by simp [h])
  · exact h

/-! ### The types of identifiers -/

theorem result_identTy {cx : CheckContext} {node : Nat} {name : String} {b : Binding} {ty : Ty}
    (hb : cx.names.binding? node = some b) (hd : cx.registry.declaredTy? b = some ty)
    (s : Checker) : (cx.identTy node name).result s = ty := by
  have hty : (cx.registry.declaredTy? b).getD .unknown = ty := by rw [hd, Option.getD_some]
  unfold CheckContext.identTy
  rw [hb]
  cases b with
  | function => exact hty
  | classAt => exact hty
  | member => exact hty
  | _ => cases hd

/-- An expression that names a value is visited, and the type that the visit finds is in the
table. -/
theorem exists_visit_of_mem (hm : r.find? path = some m) (hn : m.Numbered) {e : Expr}
    (he : e ∈ m.exprs) (hi : (r.names path).intrinsic? e = none)
    (ha : (r.names path).aliased? e = none) (hb : (r.names path).isBuiltin e = false) :
    ∃ v ∈ (r.checkContext path m).visits, v.expr = e ∧
      (r.check (r.names path)).typeOf? e.id =
        some ((checkExpr (r.checkContext path m) e).result v.state) := by
  obtain ⟨v, hv, hve, hkept⟩ := exists_visit_of_value r path he hi ha hb
  exact ⟨v, hv, hve, typeOf?_of_mem hm hn (hkept.types _ (checkExpr_records _ e v.state))⟩

/-- The check records for an identifier the type by declaration of what it refers to. -/
theorem typeOf?_ident (hm : r.find? path = some m) (hn : m.Numbered) {node : Node} {name : String}
    (he : .ident node name ∈ m.exprs) {b : Binding} {ty : Ty}
    (hb : (r.names path).binding? node.id = some b) (hd : r.declaredTy? b = some ty) :
    (r.check (r.names path)).typeOf? node.id = some ty := by
  have hvalue : (r.names path).intrinsic? (.ident node name) = none ∧
      (r.names path).aliased? (.ident node name) = none ∧
      (r.names path).isBuiltin (.ident node name) = false := by
    cases b <;>
      simp_all [Names.intrinsic?, Names.aliased?, Names.isBuiltin, Registry.declaredTy?]
  obtain ⟨v, -, -, ht⟩ := exists_visit_of_mem hm hn he hvalue.1 hvalue.2.1 hvalue.2.2
  have hb' : (r.checkContext path m).names.binding? node.id = some b := hb
  have hr : (checkExpr (r.checkContext path m) (.ident node name)).result v.state = ty :=
    result_identTy hb' hd v.state
  rw [hr] at ht
  exact ht

end

end MgLang
