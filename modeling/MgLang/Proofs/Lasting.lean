import MgLang.Proofs.DeclaredTypes
import MgLang.Proofs.Registrations
/-!
# References last

A binding keeps the place of a declaration in the lists of its module, and it is used after other
files have been merged into that module. That is sound since a registry that is not started over
only grows: every module stays, and its functions and classes keep their places
(`Registry.extends_step`).

The main statement is `references_last`: as long as nothing starts over, every reference leads to
the declaration that it was bound to.
-/

namespace MgLang

theorem getElem?_of_prefix {α : Type} {as bs : List α} (h : as <+: bs) {i : Nat} {a : α}
    (ha : as[i]? = some a) : bs[i]? = some a := by
  obtain ⟨behind, rfl⟩ := h
  obtain ⟨hlt, -⟩ := List.getElem?_eq_some_iff.1 ha
  rw [List.getElem?_append_left hlt, ha]

namespace Registry

/-! ### Growing registries -/

/-- Every module is still there, with what it declared in the same places. -/
def Extends (r r' : Registry) : Prop :=
  ∀ path m, r.find? path = some m → ∃ m', r'.find? path = some m' ∧
    m.decls.functions <+: m'.decls.functions ∧ m.decls.classes <+: m'.decls.classes

namespace Extends

variable {r r' r'' : Registry}

theorem refl (r : Registry) : r.Extends r :=
  fun _ m hm => ⟨m, hm, List.prefix_rfl, List.prefix_rfl⟩

theorem trans (h : r.Extends r') (h' : r'.Extends r'') : r.Extends r'' := by
  intro path m hm
  obtain ⟨m', hm', hf, hc⟩ := h path m hm
  obtain ⟨m'', hm'', hf', hc'⟩ := h' path m' hm'
  exact ⟨m'', hm'', hf.trans hf', hc.trans hc'⟩

/-- A module is put where none was. -/
theorem insert {m : Module} (h : r.find? m.path = none) : r.Extends (r.insert m) := by
  intro path x hx
  have hne : path ≠ m.path := by
    rintro rfl
    cases h.symm.trans hx
  refine ⟨x, ?_, List.prefix_rfl, List.prefix_rfl⟩
  rw [find?_insert, if_neg hne, hx]

/-- A module is changed only by adding to what it declares. -/
theorem modify {key : String} (f : Module → Module) (hf : ∀ m, (f m).path = m.path)
    (hfun : ∀ m : Module, m.decls.functions <+: (f m).decls.functions)
    (hcls : ∀ m : Module, m.decls.classes <+: (f m).decls.classes) :
    r.Extends (r.modify key f hf) := by
  intro path m hm
  rw [find?_modify, hm]
  by_cases hp : path = key
  · exact ⟨f m, if_pos hp, hfun m, hcls m⟩
  · exact ⟨m, if_neg hp, List.prefix_rfl, List.prefix_rfl⟩

theorem functionAt? (h : r.Extends r') {path : String} {idx : Nat} {f : FunctionDecl}
    (hf : r.functionAt? path idx = some f) : r'.functionAt? path idx = some f := by
  obtain ⟨m, hm, hget⟩ := functionAt?_eq_some.1 hf
  obtain ⟨m', hm', hfun, -⟩ := h path m hm
  exact functionAt?_eq_some.2 ⟨m', hm', getElem?_of_prefix hfun hget⟩

theorem classAt? (h : r.Extends r') {path : String} {idx : Nat} {c : ClassDecl}
    (hc : r.classAt? path idx = some c) : r'.classAt? path idx = some c := by
  obtain ⟨m, hm, hget⟩ := classAt?_eq_some.1 hc
  obtain ⟨m', hm', -, hcls⟩ := h path m hm
  exact classAt?_eq_some.2 ⟨m', hm', getElem?_of_prefix hcls hget⟩

theorem memberAt? (h : r.Extends r') {path : String} {idx : Nat} {name : String} {x : Member}
    (hx : r.memberAt? path idx name = some x) : r'.memberAt? path idx name = some x := by
  obtain ⟨c, hc, hmember⟩ := memberAt?_eq_some.1 hx
  exact memberAt?_eq_some.2 ⟨c, h.classAt? hc, hmember⟩

end Extends

theorem extends_step (r : Registry) {a : Action} (ha : a.isClear = false) :
    r.Extends (r.step a) := by
  cases a with
  | register m =>
    cases hf : r.find? m.path with
    | none =>
      rw [step, register_of_none hf]
      exact .insert hf
    | some other =>
      by_cases hs : other.package = m.package
      · rw [step, register_of_same hf hs]
        exact .modify (·.merge m) (fun _ => rfl) (fun _ => List.prefix_append _ _)
          fun _ => List.prefix_append _ _
      · rw [step, register_of_other hf hs]
        exact .refl r
  | setImports path imports failed =>
    rw [step, setImports]
    exact .modify _ _ (fun _ => List.prefix_rfl) fun _ => List.prefix_rfl
  | clear => cases ha

/-- Without a new start a registry only grows. -/
theorem extends_run {actions : List Action} (h : ∀ a ∈ actions, a.isClear = false) :
    ∀ r : Registry, r.Extends (r.run actions) := by
  induction actions with
  | nil => exact .refl
  | cons a actions ih =>
    intro r
    obtain ⟨ha, hrest⟩ := List.forall_mem_cons.1 h
    exact (r.extends_step ha).trans (ih hrest (r.step a))

end Registry

/-! ### Declarations -/

/-- How a declaration in that module is shown. -/
def Declaration.shown (module : String) : Declaration → Definition
  | .function f => ⟨f.name, .function, module, f.nameSpan⟩
  | .classType c => ⟨c.name, .classType, module, c.nameSpan⟩
  | .member (.field f) => ⟨f.name, .value, module, f.span⟩
  | .member (.method m) => ⟨m.name, .function, module, m.nameSpan⟩
  | .variable name span => ⟨name, .value, module, span⟩

theorem Declaration.name_shown (d : Declaration) (module : String) :
    (d.shown module).name = d.name := by
  rcases d with f | c | (f | m) | ⟨x, span⟩ <;> rfl

/-- The module that has what is bound, which is `origin` for a variable. -/
def Binding.home (origin : String) : Binding → String
  | .function module _ | .classAt module _ | .member module _ _ => module
  | _ => origin

section

variable {r r' : Registry} {path name : String} {b : Binding}

/-- A cursor is led to the declaration that the binding refers to. -/
theorem definition?_eq (r : Registry) (origin : String) (b : Binding) :
    r.definition? origin b = (r.declaration? b).map (·.shown (b.home origin)) := by
  cases b with
  | function path idx | classAt path idx =>
    rw [Registry.declaration?, Option.map_map]
    rfl
  | member path idx x =>
    show (r.memberAt? path idx x).map _ = ((r.memberAt? path idx x).map Declaration.member).map _
    cases hx : r.memberAt? path idx x with
    | none => rfl
    | some y =>
      obtain ⟨c, -, hmember⟩ := memberAt?_eq_some.1 hx
      have hname := c.name_of_member? hmember
      cases y with
      | field f => simp [Declaration.shown, Binding.home, ← hname, Member.name]
      | method m => simp [Declaration.shown, Binding.home, ← hname, Member.name]
  | «variable» x span => rfl
  | namespaceOf path => rfl
  | builtin space x => rfl
  | intrinsic x => rfl

theorem declaration?_of_not_isTyped (r : Registry) (hb : b.isTyped = false) :
    r.declaration? b = none := by
  cases b <;> first | rfl | cases hb

theorem Binding.Named.exists_declaration (h : b.Named r name) (hb : b.isTyped = true) :
    ∃ d, r.declaration? b = some d ∧ d.name = name := by
  cases b <;> first | exact h | cases hb

/-- What a binding refers to stays there. -/
theorem Registry.Extends.declaration? (h : r.Extends r') {d : Declaration}
    (hd : r.declaration? b = some d) : r'.declaration? b = some d := by
  cases b with
  | function path idx =>
    obtain ⟨f, hf, rfl⟩ := Option.map_eq_some_iff.1 hd
    exact congrArg (Option.map Declaration.function) (h.functionAt? hf)
  | classAt path idx =>
    obtain ⟨c, hc, rfl⟩ := Option.map_eq_some_iff.1 hd
    exact congrArg (Option.map Declaration.classType) (h.classAt? hc)
  | member path idx x =>
    obtain ⟨y, hy, rfl⟩ := Option.map_eq_some_iff.1 hd
    exact congrArg (Option.map Declaration.member) (h.memberAt? hy)
  | «variable» x span => exact hd
  | namespaceOf path => cases hd
  | builtin space x => cases hd
  | intrinsic x => cases hd

/-- **References never dangle.** Whatever is registered after the names of a module were bound, each
of its references leads to the declaration that it was bound to, which has its name. Only a module
and what is built in have no declaration. -/
theorem references_last (r : Registry) {actions : List Registry.Action}
    (hgrows : ∀ a ∈ actions, a.isClear = false) {ref : Reference}
    (href : ref ∈ (r.names path).references) :
    (ref.binding.isTyped = true →
      ∃ d, r.declaration? ref.binding = some d ∧
        (r.run actions).declaration? ref.binding = some d ∧ d.name = ref.name) ∧
      (ref.binding.isTyped = true →
        ∃ shown, r.definition? path ref.binding = some shown ∧
          (r.run actions).definition? path ref.binding = some shown ∧ shown.name = ref.name) ∧
      ((r.run actions).definition? path ref.binding = none ↔ ref.binding.isTyped = false) := by
  have hnamed := named_of_mem_references href
  have hgrown := Registry.extends_run hgrows r
  have hlasts (hb : ref.binding.isTyped = true) :
      ∃ d, r.declaration? ref.binding = some d ∧
        (r.run actions).declaration? ref.binding = some d ∧ d.name = ref.name := by
    obtain ⟨d, hd, hname⟩ := hnamed.exists_declaration hb
    exact ⟨d, hd, hgrown.declaration? hd, hname⟩
  have hshown (hb : ref.binding.isTyped = true) :
      ∃ shown, r.definition? path ref.binding = some shown ∧
        (r.run actions).definition? path ref.binding = some shown ∧ shown.name = ref.name := by
    obtain ⟨d, hd, hd', hname⟩ := hlasts hb
    refine ⟨d.shown (ref.binding.home path), ?_, ?_, (d.name_shown _).trans hname⟩
    · rw [definition?_eq, hd, Option.map_some]
    · rw [definition?_eq, hd', Option.map_some]
  refine ⟨hlasts, hshown, fun hnone => ?_, fun hb => ?_⟩
  · by_contra hb
    obtain ⟨shown, -, hsome, -⟩ := hshown (Bool.not_eq_false _ ▸ hb)
    cases hnone.symm.trans hsome
  · rw [definition?_eq, declaration?_of_not_isTyped _ hb, Option.map_none]

/-- Another class `D` for the module that has one. -/
def anotherD : Module where
  path := "b"
  package := .root "app"
  decls := { classes := [⟨"D", [], [], true, .null, .null⟩] }

/-- A reference to the class `D` does not lead to the one that is merged later. -/
theorem references_last_anotherD :
    ∃ d, privateFirst.check.2.registry.declaration? (.classAt "b" 1) = some d ∧
      (privateFirst.check.2.registry.run [.register anotherD]).declaration? (.classAt "b" 1) =
        some d ∧
      d.name = "D" := by
  obtain ⟨-, hrefs, -, -⟩ := privateFirst_run
  have href : (⟨"D", 1, ⟨"main.mg", 40, 41⟩, .classAt "b" 1⟩ : Reference) ∈
      (privateFirst.check.2.registry.names "main").references := by
    simp [hrefs]
  exact (references_last _ (List.forall_mem_singleton.2 rfl) href).1 rfl

end

end MgLang
