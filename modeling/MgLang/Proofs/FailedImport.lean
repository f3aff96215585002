import MgLang.Proofs.TypesAlike
/-!
# What a failed import excuses

An import that names no module ends the resolution of imports. The names that it might have brought
are excused where they are called or have a member taken from them, and so are unknown classes.
`failed_import_excuses` compares the module with the module that ends its imports before the failure:
apart from the fault of the import itself, the findings are the same but for what is excused.
-/

namespace MgLang

namespace Registry

variable {r : Registry} {path : String} {m : Module} {us us' : List Using} {u : Using}

/-! ### The imports before the failure -/

/-- The module at a path has only the given imports. -/
def withUsings (r : Registry) (path : String) (us : List Using) : Registry :=
  r.modify path (fun m => { m with decls := { m.decls with usings := us } }) fun _ => rfl

theorem alike_withUsings (r : Registry) (path : String) (us : List Using) :
    r.Alike (r.withUsings path us) := by
  intro q
  rw [withUsings, find?_modify]
  split
  · rw [Option.map_map]
    rfl
  · rfl

theorem resolveUsings_cons {p : String} (h : r.resolveImport? u.path path = some p)
    (us : List Using) :
    r.resolveUsings path (u :: us) =
      ⟨p :: (r.resolveUsings path us).resolved, (r.resolveUsings path us).failed⟩ := by
  rw [resolveUsings, h]

theorem resolveUsings_of_failed (h : r.resolveImport? u.path path = none) (us : List Using) :
    r.resolveUsings path (u :: us) = ⟨[], some u⟩ := by
  rw [resolveUsings, h]

/-- Imports that all hold, with others behind them. -/
theorem resolveUsings_append (h : ∀ v ∈ us, (r.resolveImport? v.path path).isSome) :
    r.resolveUsings path (us ++ us') =
      ⟨(r.resolveUsings path us).resolved ++ (r.resolveUsings path us').resolved,
        (r.resolveUsings path us').failed⟩ := by
  induction us with
  | nil => rfl
  | cons v us ih =>
    obtain ⟨hv, hus⟩ := List.forall_mem_cons.1 h
    obtain ⟨p, hp⟩ := Option.isSome_iff_exists.1 hv
    rw [List.cons_append, resolveUsings_cons hp, resolveUsings_cons hp, ih hus, List.cons_append]

/-- The imports of the module at a path hold up to `u`, which names no module. -/
structure FailsAt (r : Registry) (path : String) (m : Module) (before : List Using) (u : Using)
    (behind : List Using) : Prop where
  find : r.find? path = some m
  usings : m.decls.usings = before ++ u :: behind
  hold : ∀ v ∈ before, (r.resolveImport? v.path path).isSome
  fails : r.resolveImport? u.path path = none

namespace FailsAt

variable {before behind : List Using}

theorem importsOf (h : r.FailsAt path m before u behind) :
    r.importsOf path = ⟨(r.resolveUsings path before).resolved, some u⟩ := by
  rw [Registry.importsOf, h.find]
  show r.resolveUsings path m.decls.usings = _
  rw [h.usings, resolveUsings_append h.hold, resolveUsings_of_failed h.fails, List.append_nil]

theorem importsOf_withUsings (h : r.FailsAt path m before u behind) :
    (r.withUsings path before).importsOf path =
      ⟨(r.resolveUsings path before).resolved, none⟩ := by
  have ha : r.resolveUsings path (before ++ []) = ⟨_, none⟩ := resolveUsings_append h.hold
  rw [List.append_nil] at ha
  have hf : (r.resolveUsings path before).failed = none := congrArg Imports.failed ha
  rw [Registry.importsOf, withUsings, find?_modify, if_pos rfl, h.find, ← hf]
  exact (r.alike_withUsings path before).resolveUsings path before

end FailsAt

end Registry

/-! ### What is excused -/

/-- The fault is that a name is bound to nothing. -/
def Cause.isUndefinedIdentifier : Cause → Bool
  | .undefinedIdentifier _ => true
  | _ => false

/-- A failed import excuses the fault: a name that is bound to nothing stands where it is called or
has a member taken from it. -/
def Site.excuses (s : Site) (d : Diagnostic) : Bool :=
  s.usage != .value && d.cause.isUndefinedIdentifier

/-- Two contexts that differ in whether an import has failed give the same faults but for those that
are excused. -/
theorem Site.fault?_failed {cx cx' : NameContext} (s : Site)
    (ho : ∀ name, cx'.registry.privateOwner? cx'.module name =
      cx.registry.privateOwner? cx.module name)
    (hi : cx.module.importFailed = false) (hi' : cx'.module.importFailed = true) :
    s.fault? cx' = (s.fault? cx).filter fun d => !s.excuses d := by
  unfold fault?
  split
  · next node name he =>
    by_cases hl : (s.env.lookup name).isSome = true
    · rw [if_pos hl, if_pos hl]
      rfl
    · rw [if_neg hl, if_neg hl]
      unfold NameContext.unboundCause?
      rw [ho, hi, hi']
      cases cx.registry.privateOwner? cx.module name with
      | some owner => simp [Option.filter, excuses, Cause.isUndefinedIdentifier]
      | none =>
        cases hu : s.usage with
        | value => simp [Option.filter, excuses, hu]
        | _ => simp [Option.filter, excuses, hu, Cause.isUndefinedIdentifier]
  · rfl

namespace Registry

section

variable {path : String} {m m' : Module} {r r' : Registry}

/-- Modules that differ in their imports alone have the same sites if the imports name the same. -/
theorem sites_eq (h : r.Alike r') (hi : m'.resolvedImports = m.resolvedImports)
    (hc : m'.decls.classes = m.decls.classes) (hf : m'.decls.functions = m.decls.functions)
    (ho : m'.outline = m.outline) : r'.sites m' = r.sites m := by
  unfold sites rootEnv
  rw [h.rootNames hi ho, hc, hf, Module.path_eq_of_outline ho]

end

/-- **A failed import excuses what it should and nothing else.** The imports of a module hold up to
one that names no module. The resolution of imports reports that import and nothing else. Compared
with the module that has only the imports before it, the names have the same references, and the same
faults but for names that are bound to nothing where they are called or have a member taken from
them; and the types are the same, with the same faults but for classes that are unknown. -/
theorem failed_import_excuses {r : Registry} {path : String} {m : Module}
    {before behind : List Using} {u : Using} (h : r.FailsAt path m before u behind)
    {paths : List String} (hp : path ∈ paths) :
    let failed := paths.foldl recordImports r
    let cut := paths.foldl recordImports (r.withUsings path before)
    r.importFault? path = some ⟨.moduleNotFound u.path, u.span⟩ ∧
      (r.withUsings path before).importFault? path = none ∧
      (failed.names path).references = (cut.names path).references ∧
      (∃ m₀, cut.find? path = some m₀ ∧
        (cut.names path).errors.toList = (cut.sites m₀).filterMap (Site.fault? ⟨cut, m₀⟩) ∧
        (failed.names path).errors.toList =
          (cut.sites m₀).filterMap fun s => (s.fault? ⟨cut, m₀⟩).filter fun d => !s.excuses d) ∧
      (failed.check (failed.names path)).nodes = (cut.check (cut.names path)).nodes ∧
      (failed.check (failed.names path)).errors =
        (cut.check (cut.names path)).errors.filter fun d => !d.cause.isUndefinedClass := by
  intro failed cut
  -- The module as it stands in both registries, with what has been recorded.
  let resolved := (r.resolveUsings path before).resolved
  let m₁ := withImports m ⟨resolved, some u⟩
  let m₀ := withImports { m with decls := { m.decls with usings := before } } ⟨resolved, none⟩
  have hfailed : failed.find? path = some m₁ := by
    rw [find?_foldl_recordImports, if_pos hp, h.find, h.importsOf]
    rfl
  have hcut : cut.find? path = some m₀ := by
    rw [find?_foldl_recordImports, if_pos hp, h.importsOf_withUsings, withUsings, find?_modify,
      if_pos rfl, h.find]
    rfl
  have halike : cut.Alike failed :=
    ((Alike.foldl_recordImports paths _).symm.trans (r.alike_withUsings path before).symm).trans
      (.foldl_recordImports paths r)
  have hsites : failed.sites m₁ = cut.sites m₀ := sites_eq halike rfl rfl rfl rfl
  have hrefs : (failed.names path).references = (cut.names path).references := by
    rw [← Array.toList_inj, references_eq_sites hfailed, references_eq_sites hcut, hsites]
  have hmirrors : (cut.checkContext path m₀).Mirrors id true (failed.checkContext path m₁) := by
    refine ⟨halike, rfl, ?_, fun node => ?_, rfl⟩
    · show (failed.find? m.path).map _ = (cut.find? m.path).map _
      rw [path_of_find? h.find, hfailed, hcut]
      rfl
    · show Names.binding? (failed.names path) node = Names.binding? (cut.names path) node
      unfold Names.binding?
      rw [hrefs]
  have hcheck := check_of_mirrors hcut hfailed hmirrors
    (by simp only [ClassDecl.renumber_id, List.map_id']; rfl)
    (by simp only [FunctionDecl.renumber_id, List.map_id']; rfl)
  refine ⟨?_, ?_, hrefs, ⟨m₀, hcut, errors_eq_sites hcut, ?_⟩, ?_, ?_⟩
  · rw [importFault?, h.importsOf]
    rfl
  · rw [importFault?, h.importsOf_withUsings]
    rfl
  · rw [errors_eq_sites hfailed, hsites]
    refine congrArg (List.filterMap · _) (funext fun s => ?_)
    exact s.fault?_failed (fun name => halike.privateOwner? rfl name) rfl rfl
  · rw [hcheck]
    exact List.map_id'' (fun _ => rfl) _
  · rw [hcheck]
    refine congrArg (List.filter · _) (funext fun d => ?_)
    rw [Diagnostic.remains, Bool.true_and]

end Registry

/-- The second import names nothing, and the module uses a function, a variable and a class that are
nowhere. -/
def missing : Registry :=
  ((({ registry := .empty } : Compilation).add "here.mg" "fn h(b: bool) \x7b \x7d"
    (.root "app")).add "main.mg"
      "using here; using gone; fn f() \x7b g(); x; new C(); h(1); \x7d" (.root "app")).registry

/-- What is found in `missing`, and in the registry without the second import. -/
theorem missing_run :
    let failed := ["here", "main"].foldl Registry.recordImports missing
    let cut := ["here", "main"].foldl Registry.recordImports
      (missing.withUsings "main" [⟨"here", ⟨"main.mg", 0, 11⟩⟩])
    ((missing.find? "main").map (·.decls.usings) =
        some [⟨"here", ⟨"main.mg", 0, 11⟩⟩, ⟨"gone", ⟨"main.mg", 12, 23⟩⟩] ∧
      missing.resolveImport? "here" "main" = some "here" ∧
      missing.resolveImport? "gone" "main" = none) ∧
    (cut.names "main").errors.toList.map (·.cause) =
        [.undefinedIdentifier "g", .undefinedIdentifier "x"] ∧
      (failed.names "main").errors.toList.map (·.cause) = [.undefinedIdentifier "x"] ∧
      (cut.check (cut.names "main")).errors.map (·.cause) =
        [.undefinedClass "C", .typeMismatch "bool" "int"] ∧
      ((cut.check (cut.names "main")).errors.filter fun d => !d.cause.isUndefinedClass).map
        (·.cause) = [.typeMismatch "bool" "int"] := by
  decide +kernel

/-- The missing function is excused where it is called and the missing class anywhere. The variable
is not, nor is the argument that does not fit. -/
theorem failed_import_excuses_missing :
    let failed := ["here", "main"].foldl Registry.recordImports missing
    let cut := ["here", "main"].foldl Registry.recordImports
      (missing.withUsings "main" [⟨"here", ⟨"main.mg", 0, 11⟩⟩])
    missing.importFault? "main" = some ⟨.moduleNotFound "gone", ⟨"main.mg", 12, 23⟩⟩ ∧
      (failed.names "main").references = (cut.names "main").references ∧
      (cut.names "main").errors.toList.map (·.cause) =
        [.undefinedIdentifier "g", .undefinedIdentifier "x"] ∧
      (failed.names "main").errors.toList.map (·.cause) = [.undefinedIdentifier "x"] ∧
      (failed.check (failed.names "main")).nodes = (cut.check (cut.names "main")).nodes ∧
      (cut.check (cut.names "main")).errors.map (·.cause) =
        [.undefinedClass "C", .typeMismatch "bool" "int"] ∧
      (failed.check (failed.names "main")).errors.map (·.cause) =
        [.typeMismatch "bool" "int"] := by
  intro failed cut
  obtain ⟨⟨husings, hhere, hgone⟩, hnames, hnames', htypes, htypes'⟩ := missing_run
  obtain ⟨m, hm, husings⟩ := Option.map_eq_some_iff.1 husings
  have hfails : missing.FailsAt "main" m [⟨"here", ⟨"main.mg", 0, 11⟩⟩]
      ⟨"gone", ⟨"main.mg", 12, 23⟩⟩ [] :=
    ⟨hm, husings, List.forall_mem_singleton.2 (Option.isSome_of_eq_some hhere), hgone⟩
  have hmain : "main" ∈ ["here", "main"] := by decide
  obtain ⟨hfault, -, hrefs, -, hnodes, herrors⟩ :=
    Registry.failed_import_excuses hfails hmain
  refine ⟨hfault, hrefs, hnames, hnames', hnodes, htypes, ?_⟩
  rw [herrors]
  exact htypes'

end MgLang
