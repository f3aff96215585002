import MgLang.Proofs.Declared
import MgLang.Proofs.Locals
/-!
# Privacy

What is private in another module stays out of reach. Names are kept apart by the scope of the
module: everything in it that belongs to another module is a public declaration of an import
(`rootEnv_permitted`), and the scopes inside only add variables and the members of a class. Types
are looked up in all modules, private declarations among them, so the check of types has to look at
every access: at the class of a new instance, at what is taken from a module by its short name, and
at the member of a class.

A check that reports nothing has reported nothing by the end of any visit (`errors_of_kept`), which
settles every access in turn. Both halves make up `private_out_of_reach`.
-/

namespace MgLang

open Check

/-! ### What a name may refer to -/

/-- A module may refer to its own functions and classes, and to the public ones of its imports. -/
def Binding.Permitted (r : Registry) (m : Module) : Binding → Prop
  | .function owner idx =>
    owner = m.path ∨
      owner ∈ m.resolvedImports ∧ ∃ f, r.functionAt? owner idx = some f ∧ f.isPublic = true
  | .classAt owner idx =>
    owner = m.path ∨
      owner ∈ m.resolvedImports ∧ ∃ c, r.classAt? owner idx = some c ∧ c.isPublic = true
  | _ => True

/-- A module may refer to everything in an environment. -/
def Env.Permitted (r : Registry) (m : Module) (env : Env) : Prop :=
  ∀ d ∈ env, d.2.Permitted r m

section

variable {r : Registry} {m : Module} {path : String}

/-- A module may refer to what its imports bring. -/
theorem Symbol.permitted {i : Module} (hi : i ∈ r.importedModules m) {s : Symbol}
    (hs : s ∈ i.publicSymbols) : s.binding.Permitted r m := by
  have hfind := Registry.find?_of_mem_importedModules hi
  have himport : i.path ∈ m.resolvedImports := by
    obtain ⟨p, hp, hpi⟩ := List.mem_filterMap.1 hi
    rwa [Registry.path_of_find? hpi]
  obtain ⟨hs, hpublic⟩ := List.mem_filter.1 hs
  rw [i.symbols_eq, Declarations.symbols] at hs
  rcases List.mem_append.1 hs with hs | hs
  · rcases List.mem_append.1 hs with hs | hs
    · unfold Builtin.symbols at hs
      split at hs
      · obtain ⟨name, -, rfl⟩ := List.mem_map.1 hs
        trivial
      · cases hs
    · obtain ⟨⟨f, idx⟩, hf, rfl⟩ := List.mem_map.1 hs
      have hget := List.mk_mem_zipIdx_iff_getElem?.1 hf
      exact .inr ⟨himport, f, functionAt?_eq_some.2 ⟨i, hfind, hget⟩, hpublic⟩
  · obtain ⟨⟨c, idx⟩, hc, rfl⟩ := List.mem_map.1 hs
    have hget := List.mk_mem_zipIdx_iff_getElem?.1 hc
    exact .inr ⟨himport, c, classAt?_eq_some.2 ⟨i, hfind, hget⟩, hpublic⟩

/-- A module may refer to what it declares itself. -/
theorem Symbol.permitted_own {s : Symbol}
    (hs : s ∈ m.decls.functionSymbols m.path ++ m.decls.classSymbols m.path) :
    s.binding.Permitted r m := by
  rcases List.mem_append.1 hs with hs | hs
  · obtain ⟨x, -, rfl⟩ := List.mem_map.1 hs
    exact .inl rfl
  · obtain ⟨x, -, rfl⟩ := List.mem_map.1 hs
    exact .inl rfl

/-- A module may refer to everything in its scope. -/
theorem rootEnv_permitted (r : Registry) (m : Module) : Env.Permitted r m (r.rootEnv m) := by
  intro d hd
  have hd' : d ∈ r.rootNames m := List.mem_reverse.1 hd
  simp only [Registry.rootNames, Module.exports, Builtin.names, Module.ownNames, List.mem_append,
    List.mem_flatMap, List.mem_map, List.mem_singleton] at hd'
  rcases hd' with (⟨i, hi, ⟨s, hs, rfl⟩ | rfl⟩ | ⟨name, -, rfl⟩ | rfl) | ⟨s, hs, rfl⟩
  · exact Symbol.permitted hi hs
  · trivial
  · trivial
  · trivial
  · exact Symbol.permitted_own (List.mem_append.2 hs)

/-- Everywhere in a module, it may refer to everything in sight. -/
theorem sites_permitted (r : Registry) (m : Module) :
    AllEnvs (Env.Permitted r m) (r.sites m) := by
  have hroot := rootEnv_permitted r m
  refine moduleSites_env ?_ hroot ?_
  · intro env x span h
    exact List.forall_mem_cons.2 ⟨trivial, h⟩
  · intro c _
    refine List.forall_mem_append.2 ⟨?_, hroot⟩
    intro d hd
    obtain ⟨name, -, rfl⟩ := List.mem_map.1 (List.mem_reverse.1 hd)
    trivial

/-- Every reference of a module is to something that the module may refer to. -/
theorem permitted_of_mem_references (hm : r.find? path = some m) {ref : Reference}
    (href : ref ∈ (r.names path).references) : ref.binding.Permitted r m := by
  have hsite : ref ∈ (r.sites m).filterMap Site.reference? := by
    rw [← references_eq_sites hm]
    exact Array.mem_toList_iff.2 href
  obtain ⟨σ, hσ, hr⟩ := List.mem_filterMap.1 hsite
  obtain ⟨before, behind, he, -⟩ := List.lookup_eq_some_iff.1 (lookup_of_reference? hr)
  exact sites_permitted r m σ hσ (ref.name, ref.binding) (by simp [he])

end

/-! ### Accesses that are not reported -/

section

variable {cx : CheckContext} {s : Checker} {owner : Module}

/-- Of another module, only what is public may be used. -/
theorem CheckContext.isPublic_of_mayUse {isPublic : Bool} (h : cx.mayUse isPublic owner = true)
    (hne : owner.path ≠ cx.module.path) : isPublic = true := by
  simpa [CheckContext.mayUse, hne] using h

theorem instanceTy_mayUse {className : String} {span : Span} {decl : ClassDecl}
    (h : ((cx.instanceTy className span).after s).errors = #[])
    (hc : cx.class? className = some (owner, decl)) : cx.mayUse decl.isPublic owner = true := by
  cases hu : cx.mayUse decl.isPublic owner with
  | true => rfl
  | false => simp [CheckContext.instanceTy, hc, hu] at h

theorem moduleMemberTy_mayUse {path name : String} {span : Span}
    (h : ((cx.moduleMemberTy path name span).after s).errors = #[])
    (hm : cx.registry.find? path = some owner) :
    ∃ symbol, owner.symbol? name = some symbol ∧ cx.mayUse symbol.isPublic owner = true := by
  cases hs : owner.symbol? name with
  | none => simp [CheckContext.moduleMemberTy, hm, hs] at h
  | some symbol =>
    cases hu : cx.mayUse symbol.isPublic owner with
    | true => exact ⟨symbol, rfl, hu⟩
    | false => simp [CheckContext.moduleMemberTy, hm, hs, hu] at h

theorem classMemberTy_mayUse {className name : String} {fromClass : Bool} {span : Span}
    {decl : ClassDecl} (h : ((cx.classMemberTy className name fromClass span).after s).errors = #[])
    (hc : cx.class? className = some (owner, decl)) :
    ∃ member, decl.member? name = some member ∧ cx.mayUse member.isPublic owner = true := by
  cases hm : decl.member? name with
  | none => simp [CheckContext.classMemberTy, hc, hm] at h
  | some member =>
    cases hs : fromClass && !member.isStatic with
    | true => simp [CheckContext.classMemberTy, hc, hm, hs] at h
    | false =>
      cases hu : cx.mayUse member.isPublic owner with
      | true => exact ⟨member, rfl, hu⟩
      | false => simp [CheckContext.classMemberTy, hc, hm, hs, hu] at h

end

/-! ### Accesses of a module without faults -/

section

variable {r : Registry} {path : String} {m : Module}

/-- Where the check of a module reports nothing, it has reported nothing by the end of a visit. -/
theorem errors_of_kept (hm : r.find? path = some m) (hs : (r.check (r.names path)).errors = [])
    {s : Checker} (h : s.Grows ((checkModule (r.checkContext path m)).after {})) :
    s.errors = #[] := by
  have hprefix := h.errors
  rwa [errors_of_silent hm hs, List.prefix_nil, Array.toList_eq_nil_iff] at hprefix

/-- A class of another module of which an instance is made is public. -/
theorem isPublic_of_new (hm : r.find? path = some m) (hs : (r.check (r.names path)).errors = [])
    {node : Node} {className : String} {span : Span} {args : List Expr}
    (he : .new node className span args ∈ m.exprs) {owner : Module} {decl : ClassDecl}
    (hc : r.classDecl? className path = some (owner, decl)) (hne : owner.path ≠ path) :
    decl.isPublic = true := by
  rw [← Registry.path_of_find? hm] at hc hne
  obtain ⟨v, -, -, hkept⟩ := exists_visit_of_value r path he rfl rfl rfl
  have hsilent : (((r.checkContext path m).instanceTy className span).after
      ((checkArgs (r.checkContext path m) [] args).after v.state)).errors = #[] :=
    (errors_of_kept hm hs hkept :)
  exact CheckContext.isPublic_of_mayUse (instanceTy_mayUse hsilent hc) hne

/-- What is taken from another module by its short name is public. -/
theorem isPublic_of_aliased (hm : r.find? path = some m)
    (hs : (r.check (r.names path)).errors = []) {node : Node} {object : Expr} {name : String}
    {span : Span} (he : .member node object name span ∈ m.exprs) {p : String} {owner : Module}
    (ha : (r.names path).aliased? object = some p) (ho : r.find? p = some owner) (hne : p ≠ path) :
    ∃ symbol, owner.symbol? name = some symbol ∧ symbol.isPublic = true := by
  rw [← Registry.path_of_find? ho, ← Registry.path_of_find? hm] at hne
  have hb := Names.isBuiltin_of_aliased? ha
  obtain ⟨v, -, -, hkept⟩ := exists_visit_of_value r path he rfl rfl hb
  rw [checkExpr_member_aliased (r.checkContext path m) hb ha] at hkept
  have hsilent : (((r.checkContext path m).moduleMemberTy p name span).after
      ((record object.node .unknown).after v.state)).errors = #[] :=
    (errors_of_kept hm hs hkept :)
  obtain ⟨symbol, hsymbol, hu⟩ := moduleMemberTy_mayUse hsilent ho
  exact ⟨symbol, hsymbol, CheckContext.isPublic_of_mayUse hu hne⟩

/-- What is built in has no type, and nor has a module. -/
theorem result_of_untyped (cx : CheckContext) {e : Expr}
    (h : cx.names.isBuiltin e = true ∨ (cx.names.aliased? e).isSome = true) (s : Checker) :
    (checkExpr cx e).result s = .unknown := by
  cases e with
  | ident node name =>
    show (cx.identTy node.id name).result s = .unknown
    unfold CheckContext.identTy
    cases hb : cx.names.binding? node.id with
    | none => rfl
    | some b => cases b <;> simp_all [Names.isBuiltin, Names.aliased?]
  | member node object name nameSpan =>
    have hb : cx.names.isBuiltin object = true := by simpa [Names.isBuiltin, Names.aliased?] using h
    rw [checkExpr_member_builtin cx hb]
    rfl
  | _ => simp [Names.isBuiltin, Names.aliased?] at h

/-- A member that is taken from a class of another module, or from an instance of one, is public. -/
theorem isPublic_of_member (hm : r.find? path = some m)
    (hs : (r.check (r.names path)).errors = []) {node : Node} {object : Expr} {name : String}
    {span : Span} {s : Checker}
    (hkept : ((checkExpr (r.checkContext path m) (.member node object name span)).after s).Grows
      ((checkModule (r.checkContext path m)).after {}))
    {className : String}
    (ht : (checkExpr (r.checkContext path m) object).result s = .named className) {owner : Module}
    {decl : ClassDecl} (hc : r.classDecl? className path = some (owner, decl))
    (hne : owner.path ≠ path) :
    ∃ member, decl.member? name = some member ∧ member.isPublic = true := by
  rw [← Registry.path_of_find? hm] at hc hne
  have hb : (r.names path).isBuiltin object = false := by
    refine Bool.eq_false_iff.2 fun hb => ?_
    cases (result_of_untyped (r.checkContext path m) (.inl hb) s).symm.trans ht
  have ha : (r.names path).aliased? object = none := by
    refine Option.not_isSome_iff_eq_none.1 fun ha => ?_
    cases (result_of_untyped (r.checkContext path m) (.inr ha) s).symm.trans ht
  rw [checkExpr_member_value (r.checkContext path m) hb ha] at hkept
  have hsilent : (((r.checkContext path m).valueMemberTy
      ((checkExpr (r.checkContext path m) object).result s) name ((r.names path).isClass r object)
      span).after ((checkExpr (r.checkContext path m) object).after s)).errors = #[] :=
    (errors_of_kept hm hs hkept :)
  rw [ht] at hsilent
  obtain ⟨member, hmember, hu⟩ := classMemberTy_mayUse hsilent hc
  exact ⟨member, hmember, CheckContext.isPublic_of_mayUse hu hne⟩

/-- **What is private stays out of reach.** A function or class of another module to which a name
refers is a public declaration of an import. And where the check of a module reports nothing: a
class of another module of which an instance is made is public, what is taken from another module
by its short name is public, and so is a member wherever the check takes it from a class of another
module or from an instance of one. The check comes to every member access that is not below a
built-in namespace, where nothing has a class. -/
theorem private_out_of_reach (hm : r.find? path = some m) :
    (∀ ref ∈ (r.names path).references, ref.binding.Permitted r m) ∧
      ((r.check (r.names path)).errors = [] →
        (∀ node className span args owner decl, .new node className span args ∈ m.exprs →
          r.classDecl? className path = some (owner, decl) → owner.path ≠ path →
          decl.isPublic = true) ∧
        (∀ node object name span p owner, .member node object name span ∈ m.exprs →
          (r.names path).aliased? object = some p → r.find? p = some owner → p ≠ path →
          ∃ symbol, owner.symbol? name = some symbol ∧ symbol.isPublic = true) ∧
        ∀ node object name span,
          (.member node object name span ∈ m.exprs → (r.names path).isBuiltin object = false →
            ∃ v ∈ (r.checkContext path m).visits, v.expr = .member node object name span) ∧
          ∀ v ∈ (r.checkContext path m).visits, v.expr = .member node object name span →
            ∀ className owner decl,
              (checkExpr (r.checkContext path m) object).result v.state = .named className →
              r.classDecl? className path = some (owner, decl) → owner.path ≠ path →
              ∃ member, decl.member? name = some member ∧ member.isPublic = true) := by
  refine ⟨fun ref href => permitted_of_mem_references hm href, fun hs => ⟨?_, ?_, ?_⟩⟩
  · intro node className span args owner decl he hc hne
    exact isPublic_of_new hm hs he hc hne
  · intro node object name span p owner he ha ho hne
    exact isPublic_of_aliased hm hs he ha ho hne
  · intro node object name span
    refine ⟨fun he hb => ?_, fun v hv hve className owner decl ht hc hne => ?_⟩
    · obtain ⟨v, hv, hve, -⟩ := exists_visit_of_value r path he rfl rfl hb
      exact ⟨v, hv, hve⟩
    · obtain ⟨σ, -, hmeets⟩ := (sites_follow_visits r path m).exists_site hv
      exact isPublic_of_member hm hs (hve ▸ hmeets.kept) ht hc hne

end

/-- `pub class Point { pub x: int; } pub fn area() { }`. -/
def shapes : Module where
  path := "shapes"
  package := .root "app"
  decls :=
    { functions :=
        [{ name := "area"
           params := []
           ret := .void
           body := ⟨[], ⟨"shapes.mg", 46, 49⟩⟩
           isPublic := true
           isStatic := false
           nameSpan := ⟨"shapes.mg", 39, 43⟩
           span := ⟨"shapes.mg", 32, 49⟩ }]
      classes :=
        [{ name := "Point"
           fields := [⟨"x", .int, none, true, false, ⟨"shapes.mg", 18, 29⟩⟩]
           methods := []
           isPublic := true
           nameSpan := ⟨"shapes.mg", 10, 15⟩
           span := ⟨"shapes.mg", 0, 31⟩ }] }

/-- `using shapes; fn main() { new Point().x; shapes.area; }`. -/
def drawing : Module where
  path := "main"
  package := .root "app"
  resolvedImports := ["shapes"]
  decls :=
    { usings := [⟨"shapes", ⟨"main.mg", 0, 13⟩⟩]
      functions :=
        [{ name := "main"
           params := []
           ret := .void
           body :=
            ⟨[.expr (.member ⟨1, ⟨"main.mg", 26, 39⟩⟩
                (.new ⟨0, ⟨"main.mg", 26, 37⟩⟩ "Point" ⟨"main.mg", 30, 35⟩ []) "x"
                ⟨"main.mg", 38, 39⟩),
              .expr (.member ⟨3, ⟨"main.mg", 41, 52⟩⟩
                (.ident ⟨2, ⟨"main.mg", 41, 47⟩⟩ "shapes") "area" ⟨"main.mg", 48, 52⟩)],
              ⟨"main.mg", 24, 55⟩⟩
           isPublic := true
           isStatic := false
           nameSpan := ⟨"main.mg", 17, 21⟩
           span := ⟨"main.mg", 14, 55⟩ }] }

/-- The module makes an instance of a class of the other, takes a member from it, and takes a
function by the name of the other module. Nothing is reported, and all of it is public. -/
theorem private_out_of_reach_drawing :
    let r := (Registry.empty.insert shapes).insert drawing
    (r.find? "main" = some drawing ∧ (r.check (r.names "main")).errors = []) ∧
      (Binding.classAt "shapes" 0).Permitted r drawing ∧
      (∃ decl, r.classDecl? "Point" "main" = some (shapes, decl) ∧ decl.isPublic = true ∧
        ∃ member, decl.member? "x" = some member ∧ member.isPublic = true) ∧
      ∃ symbol, shapes.symbol? "area" = some symbol ∧ symbol.isPublic = true := by
  intro r
  have hm : r.find? "main" = some drawing := rfl
  let object : Expr := .new ⟨0, ⟨"main.mg", 26, 37⟩⟩ "Point" ⟨"main.mg", 30, 35⟩ []
  let access : Expr := .member ⟨1, ⟨"main.mg", 26, 39⟩⟩ object "x" ⟨"main.mg", 38, 39⟩
  let short : Expr := .ident ⟨2, ⟨"main.mg", 41, 47⟩⟩ "shapes"
  let taken : Expr := .member ⟨3, ⟨"main.mg", 41, 52⟩⟩ short "area" ⟨"main.mg", 48, 52⟩
  have hexprs : drawing.exprs = [object, access, short, taken] := rfl
  have hobject : object ∈ drawing.exprs := by simp [hexprs]
  have haccess : access ∈ drawing.exprs := by simp [hexprs]
  have htaken : taken ∈ drawing.exprs := by simp [hexprs]
  obtain ⟨hs, href, ha⟩ : (r.check (r.names "main")).errors = [] ∧
      ⟨"Point", 0, ⟨"main.mg", 30, 35⟩, .classAt "shapes" 0⟩ ∈
        (r.names "main").references.toList ∧
      (r.names "main").aliased? short = some "shapes" := by
    decide +kernel
  obtain ⟨decl, hc⟩ : ∃ decl, r.classDecl? "Point" "main" = some (shapes, decl) := ⟨_, rfl⟩
  obtain ⟨hnames, htypes⟩ := private_out_of_reach hm
  obtain ⟨hnew, haliased, hmember⟩ := htypes hs
  refine ⟨⟨hm, hs⟩, hnames _ (Array.mem_toList_iff.1 href), ⟨decl, hc, ?_, ?_⟩, ?_⟩
  · exact hnew _ _ _ _ shapes decl hobject hc (by decide)
  · obtain ⟨hvisited, hpublic⟩ := hmember _ object _ _
    obtain ⟨v, hv, hve⟩ := hvisited haccess rfl
    exact hpublic v hv hve "Point" shapes decl rfl hc (by decide)
  · exact haliased _ short _ _ "shapes" shapes htaken ha rfl (by decide)

end MgLang
