import MgLang.Navigation
import MgLang.Proofs.ClassNames
/-!
# What names are bound to

A binding says where a declaration is (`Registry.declaration?`). The scope of a module files every
declaration under its own name (`rootEnv_named`), and so does every scope inside the module
(`sites_named`). So a reference is to a declaration that has its name (`named_of_mem_references`).
-/

namespace MgLang

/-! ### Declarations -/

/-- The name of a member. -/
def Member.name : Member → String
  | field f => f.name
  | method m => m.name

theorem ClassDecl.name_of_member? {c : ClassDecl} {name : String} {x : Member}
    (h : c.member? name = some x) : x.name = name := by
  unfold member? at h
  split at h
  · next f hf =>
    cases h
    exact beq_iff_eq.1 (List.find?_some hf :)
  · obtain ⟨f, hf, rfl⟩ := Option.map_eq_some_iff.1 h
    exact beq_iff_eq.1 (List.find?_some hf :)

theorem ClassDecl.exists_member {c : ClassDecl} {name : String} (h : name ∈ c.memberNames) :
    ∃ x, c.member? name = some x := by
  unfold member?
  split
  · next f _ => exact ⟨.field f, rfl⟩
  · next hf =>
    rcases List.mem_append.1 h with h | h
    · obtain ⟨f, hmem, rfl⟩ := List.mem_map.1 h
      exact absurd (List.find?_eq_none.1 hf f hmem) (by simp)
    · obtain ⟨f, hmem, rfl⟩ := List.mem_map.1 h
      cases hm : c.methods.find? (·.name == f.name) with
      | none => exact absurd (List.find?_eq_none.1 hm f hmem) (by simp)
      | some f' => exact ⟨.method f', rfl⟩

/-- What a source file can declare. -/
inductive Declaration where
  | function (decl : FunctionDecl)
  | classType (decl : ClassDecl)
  | member (decl : Member)
  | variable (name : String) (span : Span)

/-- The name that is declared. -/
def Declaration.name : Declaration → String
  | .function f => f.name
  | .classType c => c.name
  | .member m => m.name
  | .variable name _ => name

/-- The declaration that a binding refers to. What is built in has none, and nor has a module. -/
def Registry.declaration? (r : Registry) : Binding → Option Declaration
  | .function path idx => (r.functionAt? path idx).map .function
  | .classAt path idx => (r.classAt? path idx).map .classType
  | .member path idx name => (r.memberAt? path idx name).map .member
  | .variable name span => some (.variable name span)
  | .namespaceOf _ | .builtin _ _ | .intrinsic _ => none

/-- The binding is filed under its own name: that of the declaration, or of what is built in. -/
def Binding.Named (r : Registry) (name : String) : Binding → Prop
  | .namespaceOf path => shortName path = name
  | .builtin _ x => x = name
  | .intrinsic x => x = name
  | b => ∃ d, r.declaration? b = some d ∧ d.name = name

/-- Everything in an environment is filed under its own name. -/
def Env.Named (r : Registry) (env : Env) : Prop :=
  ∀ d ∈ env, d.2.Named r d.1

section

variable {r : Registry} {m : Module} {path : String}

theorem functionAt?_eq_some {idx : Nat} {f : FunctionDecl} :
    r.functionAt? path idx = some f ↔
      ∃ m, r.find? path = some m ∧ m.decls.functions[idx]? = some f :=
  Option.bind_eq_some_iff

theorem classAt?_eq_some {idx : Nat} {c : ClassDecl} :
    r.classAt? path idx = some c ↔
      ∃ m, r.find? path = some m ∧ m.decls.classes[idx]? = some c :=
  Option.bind_eq_some_iff

theorem memberAt?_eq_some {idx : Nat} {name : String} {x : Member} :
    r.memberAt? path idx name = some x ↔
      ∃ c, r.classAt? path idx = some c ∧ c.member? name = some x :=
  Option.bind_eq_some_iff

/-! ### Scopes -/

/-- A symbol refers to the declaration that it is read off. -/
theorem Symbol.named (hm : r.find? m.path = some m) {s : Symbol} (hs : s ∈ m.symbols) :
    s.binding.Named r s.name := by
  rw [m.symbols_eq, Declarations.symbols] at hs
  rcases List.mem_append.1 hs with hs | hs
  · rcases List.mem_append.1 hs with hs | hs
    · unfold Builtin.symbols at hs
      split at hs
      · obtain ⟨name, -, rfl⟩ := List.mem_map.1 hs
        rfl
      · cases hs
    · obtain ⟨⟨f, i⟩, hf, rfl⟩ := List.mem_map.1 hs
      have hget := List.mk_mem_zipIdx_iff_getElem?.1 hf
      have hat : r.functionAt? m.path i = some f := functionAt?_eq_some.2 ⟨m, hm, hget⟩
      exact ⟨.function f, congrArg (Option.map Declaration.function) hat, rfl⟩
  · obtain ⟨⟨c, i⟩, hc, rfl⟩ := List.mem_map.1 hs
    have hget := List.mk_mem_zipIdx_iff_getElem?.1 hc
    have hat : r.classAt? m.path i = some c := classAt?_eq_some.2 ⟨m, hm, hget⟩
    exact ⟨.classType c, congrArg (Option.map Declaration.classType) hat, rfl⟩

/-- The scope of a module files everything under its own name. -/
theorem rootEnv_named (hm : r.find? path = some m) : Env.Named r (r.rootEnv m) := by
  have hpath := Registry.path_of_find? hm
  intro d hd
  have hd' : d ∈ r.rootNames m := List.mem_reverse.1 hd
  simp only [Registry.rootNames, Module.exports, Builtin.names, Module.ownNames, List.mem_append,
    List.mem_flatMap, List.mem_map, List.mem_singleton] at hd'
  rcases hd' with (⟨i, hi, ⟨s, hs, rfl⟩ | rfl⟩ | ⟨name, -, rfl⟩ | rfl) | ⟨s, hs, rfl⟩
  · exact Symbol.named (Registry.find?_of_mem_importedModules hi) (List.mem_filter.1 hs).1
  · rfl
  · rfl
  · show shortName Builtin.root = Builtin.root
    decide
  · refine Symbol.named (hpath ▸ hm) ?_
    rw [m.symbols_eq, Declarations.symbols, List.append_assoc]
    exact List.mem_append_right _ (List.mem_append.2 hs)

/-- The scope of a class files its members under their names. -/
theorem classEnv_named (hm : r.find? path = some m) {c : ClassDecl} {idx : Nat}
    (hget : m.decls.classes[idx]? = some c) : Env.Named r (c.env m.path idx) := by
  intro d hd
  obtain ⟨name, hname, rfl⟩ := List.mem_map.1 (List.mem_reverse.1 hd)
  obtain ⟨x, hx⟩ := c.exists_member hname
  have hc : r.classAt? m.path idx = some c :=
    classAt?_eq_some.2 ⟨m, (Registry.path_of_find? hm).symm ▸ hm, hget⟩
  have hat : r.memberAt? m.path idx name = some x := memberAt?_eq_some.2 ⟨c, hc, hx⟩
  exact ⟨.member x, congrArg (Option.map Declaration.member) hat, c.name_of_member? hx⟩

/-- Everywhere in a module, what is in scope is filed under its own name. -/
theorem sites_named (hm : r.find? path = some m) : AllEnvs (Env.Named r) (r.sites m) := by
  have hroot := rootEnv_named hm
  refine moduleSites_env ?_ hroot ?_
  · intro env x span h
    exact List.forall_mem_cons.2 ⟨⟨_, rfl, rfl⟩, h⟩
  · rintro ⟨c, idx⟩ hcls
    have hclass := classEnv_named hm (List.mk_mem_zipIdx_iff_getElem?.1 hcls)
    exact List.forall_mem_append.2 ⟨hclass, hroot⟩

theorem Env.Named.lookup {env : Env} (h : Env.Named r env) {name : String} {b : Binding}
    (hl : env.lookup name = some b) : b.Named r name := by
  obtain ⟨before, behind, he, -⟩ := List.lookup_eq_some_iff.1 hl
  exact h (name, b) (by simp [he])

/-- Every reference is to something of its name. -/
theorem named_of_mem_references {ref : Reference} (href : ref ∈ (r.names path).references) :
    ref.binding.Named r ref.name := by
  cases hm : r.find? path with
  | none =>
    rw [Registry.names, hm] at href
    cases Array.not_mem_empty _ href
  | some m =>
    have hsite : ref ∈ (r.sites m).filterMap Site.reference? := by
      rw [← references_eq_sites hm]
      exact Array.mem_toList_iff.2 href
    obtain ⟨σ, hσ, hr⟩ := List.mem_filterMap.1 hsite
    exact (sites_named hm σ hσ).lookup (lookup_of_reference? hr)

end

end MgLang
