import MgLang.Proofs.Reachable
import MgLang.Proofs.Renumber
/-!
# What other modules see of a module

A module looks into another one for the types, names and marks of its declarations. The outline of a
module is what is left without all that no other module looks at: the bodies of functions, the
initial values of fields, the imports, and every name of a parameter and every place.

Two registries are alike if their modules have the same outlines (`Registry.Alike`). They then give
the same answers to every look-up that a module makes: which module an import names
(`Alike.resolveImport?`), which names are in scope (`Alike.rootNames`), which class a name means
(`Alike.classDecl?`) and what a declaration looks like (`Alike.memberAt?`).
-/

namespace MgLang

/-! ### Tables -/

namespace Keyed

variable {α β : Type}

/-- Tables that answer alike are equal. -/
theorem ext_get? {t t' : Keyed α} (h : ∀ key, t.get? key = t'.get? key) : t = t' := by
  have hnodup (t : Keyed α) : t.entries.Nodup := by
    refine t.sorted.imp ?_
    rintro a _ hab rfl
    exact String.lt_irrefl _ hab
  have hmem {t t' : Keyed α} (h : ∀ key, t.get? key = t'.get? key) :
      ∀ e ∈ t.entries, e ∈ t'.entries := by
    intro e he
    exact mem_of_get? ((h e.1).symm.trans (get?_of_mem he))
  refine Keyed.ext (List.Perm.eq_of_pairwise ?_ t.sorted t'.sorted ?_)
  · intro a b _ _ hab hba
    exact absurd (String.lt_trans hab hba) (String.lt_irrefl _)
  · refine (List.perm_ext_iff_of_nodup (hnodup t) (hnodup t')).2 fun e => ⟨hmem h e, ?_⟩
    exact hmem (fun key => (h key).symm) e

/-- The table with other values. -/
def map (f : α → β) (t : Keyed α) : Keyed β where
  entries := t.entries.map fun e => (e.1, f e.2)
  sorted := List.pairwise_map.2 t.sorted

@[simp] theorem get?_map (f : α → β) (t : Keyed α) (key : String) :
    (t.map f).get? key = (t.get? key).map f := by
  simp only [get?, map]
  induction t.entries with
  | nil => rfl
  | cons e es ih =>
    rw [List.map_cons, lookup_cons, lookup_cons, ih]
    by_cases h : key = e.1
    · simp [h]
    · simp [h]

@[simp] theorem keys_map (f : α → β) (t : Keyed α) : (t.map f).keys = t.keys := by
  simp [keys, map, Function.comp_def]

theorem values_map (f : α → β) (t : Keyed α) : (t.map f).values = t.values.map f := by
  simp [values, map, Function.comp_def]

end Keyed

/-! ### Outlines -/

/-- The parameter, of which only the type shows. -/
def Param.outline (p : Param) : Param := ⟨"", p.ty, .null⟩

/-- The function without its body. -/
def FunctionDecl.outline (f : FunctionDecl) : FunctionDecl :=
  { f with
    params := f.params.map Param.outline
    body := ⟨[], .null⟩
    nameSpan := .null
    span := .null }

/-- The field without its initial value. -/
def FieldDecl.outline (f : FieldDecl) : FieldDecl :=
  { f with initial := none, span := .null }

/-- The class, with the outlines of its members. -/
def ClassDecl.outline (c : ClassDecl) : ClassDecl :=
  { c with
    fields := c.fields.map FieldDecl.outline
    methods := c.methods.map FunctionDecl.outline
    nameSpan := .null
    span := .null }

/-- The member without its body or initial value. -/
def Member.outline : Member → Member
  | field f => .field f.outline
  | method f => .method f.outline

/-- The functions and classes without what is inside them. -/
def Declarations.outline (d : Declarations) : Declarations :=
  { functions := d.functions.map FunctionDecl.outline
    classes := d.classes.map ClassDecl.outline }

/-- What other modules see of a module. -/
def Module.outline (m : Module) : Module :=
  { path := m.path, package := m.package, decls := m.decls.outline }

/-- The symbol, standing nowhere. -/
def Symbol.outline (s : Symbol) : Symbol := { s with span := .null }

@[simp] theorem FunctionDecl.signature_outline (f : FunctionDecl) :
    f.outline.signature = f.signature := by
  simp [signature, outline, Param.outline, Function.comp_def]

theorem ClassDecl.member?_outline (c : ClassDecl) (name : String) :
    c.outline.member? name = (c.member? name).map Member.outline := by
  have hf : c.outline.fields.find? (·.name == name) =
      (c.fields.find? (·.name == name)).map FieldDecl.outline :=
    List.find?_map
  have hm : c.outline.methods.find? (·.name == name) =
      (c.methods.find? (·.name == name)).map FunctionDecl.outline :=
    List.find?_map
  unfold member?
  rw [hf, hm]
  cases c.fields.find? (·.name == name) with
  | some f => rfl
  | none => cases c.methods.find? (·.name == name) <;> rfl

namespace Member

@[simp] theorem isPublic_outline (m : Member) : m.outline.isPublic = m.isPublic := by
  cases m <;> rfl

@[simp] theorem isStatic_outline (m : Member) : m.outline.isStatic = m.isStatic := by
  cases m <;> rfl

@[simp] theorem ty_outline (m : Member) : m.outline.ty = m.ty := by
  cases m with
  | field f => rfl
  | method f => exact f.signature_outline

end Member

theorem Declarations.classIdx?_outline (d : Declarations) (name : String) :
    d.outline.classIdx? name = d.classIdx? name :=
  List.findIdx?_map

theorem Declarations.functions_outline (d : Declarations) (idx : Nat) :
    d.outline.functions[idx]? = (d.functions[idx]?).map FunctionDecl.outline :=
  List.getElem?_map

theorem Declarations.classes_outline (d : Declarations) (idx : Nat) :
    d.outline.classes[idx]? = (d.classes[idx]?).map ClassDecl.outline :=
  List.getElem?_map

theorem Builtin.symbols_outline (path : String) (package : Package) :
    (symbols path package).map Symbol.outline = symbols path package := by
  unfold symbols
  split
  · rw [List.map_map]
    rfl
  · rfl

namespace Declarations

theorem functionSymbols_outline (d : Declarations) (path : String) :
    d.outline.functionSymbols path = (d.functionSymbols path).map Symbol.outline := by
  simp only [functionSymbols, outline, List.zipIdx_map, List.map_map]
  rfl

theorem classSymbols_outline (d : Declarations) (path : String) :
    d.outline.classSymbols path = (d.classSymbols path).map Symbol.outline := by
  simp only [classSymbols, outline, List.zipIdx_map, List.map_map]
  rfl

end Declarations

namespace Module

theorem symbols_outline (m : Module) : m.outline.symbols = m.symbols.map Symbol.outline := by
  rw [m.symbols_eq]
  show m.decls.outline.symbols m.path m.package = _
  simp only [Declarations.symbols, Declarations.functionSymbols_outline,
    Declarations.classSymbols_outline, List.map_append, Builtin.symbols_outline]

theorem symbol?_outline (m : Module) (name : String) :
    m.outline.symbol? name = (m.symbol? name).map Symbol.outline := by
  unfold symbol?
  rw [symbols_outline]
  exact List.find?_map

theorem exports_outline (m : Module) : m.outline.exports = m.exports := by
  unfold exports publicSymbols
  rw [symbols_outline, List.filter_map, List.map_map]
  rfl

theorem ownNames_outline (m : Module) : m.outline.ownNames = m.ownNames := by
  unfold ownNames
  show (m.decls.outline.functionSymbols m.path ++ m.decls.outline.classSymbols m.path).map _ = _
  rw [Declarations.functionSymbols_outline, Declarations.classSymbols_outline, ← List.map_append,
    List.map_map]
  rfl

/-- The name is that of a top-level declaration of the module that is private. -/
def hides (m : Module) (name : String) : Bool :=
  m.symbols.any fun s => s.name == name && !s.isPublic

theorem hides_outline (m : Module) (name : String) : m.outline.hides name = m.hides name := by
  unfold hides
  rw [symbols_outline, List.any_map]
  rfl

end Module

/-! ### What an outline tells -/

/-- What can be told from outlines is the same where the outlines are. -/
theorem map_eq_of_outline {α β : Type} {o : α → α} {g : α → β} {x x' : Option α}
    (hg : ∀ a, g (o a) = g a) (h : x'.map o = x.map o) : x'.map g = x.map g := by
  have hgo : g ∘ o = g := funext hg
  have hm := congrArg (Option.map g) h
  rwa [Option.map_map, Option.map_map, hgo] at hm

/-- Where the outlines are the same, there is something on both sides or on neither. -/
theorem cases_of_outline {α : Type} {o : α → α} {x x' : Option α} (h : x'.map o = x.map o) :
    (x = none ∧ x' = none) ∨ ∃ a a', x = some a ∧ x' = some a' ∧ o a' = o a := by
  cases x with
  | none => exact .inl ⟨rfl, Option.map_eq_none_iff.1 h⟩
  | some a =>
    obtain ⟨a', hx', ha⟩ := Option.map_eq_some_iff.1 h
    exact .inr ⟨a, a', rfl, hx', ha⟩

theorem Module.path_eq_of_outline {m m' : Module} (h : m'.outline = m.outline) :
    m'.path = m.path := by
  have hp := congrArg Module.path h
  exact hp

theorem Symbol.eq_of_outline {s s' : Symbol} (h : s'.outline = s.outline) :
    s'.kind = s.kind ∧ s'.isPublic = s.isPublic ∧ s'.decl = s.decl := by
  have hk := congrArg Symbol.kind h
  have hp := congrArg Symbol.isPublic h
  have hd := congrArg Symbol.decl h
  exact ⟨hk, hp, hd⟩

theorem Member.eq_of_outline {m m' : Member} (h : m'.outline = m.outline) :
    m'.isPublic = m.isPublic ∧ m'.isStatic = m.isStatic ∧ m'.ty = m.ty := by
  rw [← m'.isPublic_outline, ← m'.isStatic_outline, ← m'.ty_outline, h]
  exact ⟨m.isPublic_outline, m.isStatic_outline, m.ty_outline⟩

/-! ### Registries that look alike -/

namespace Registry

/-- The modules of both registries have the same paths and the same outlines. -/
def Alike (r r' : Registry) : Prop :=
  ∀ path, (r'.find? path).map Module.outline = (r.find? path).map Module.outline

namespace Alike

variable {r r' : Registry} {m m' : Module}

theorem refl (r : Registry) : r.Alike r := fun _ => rfl

theorem symm (h : r.Alike r') : r'.Alike r := fun path => (h path).symm

theorem trans {r'' : Registry} (h : r.Alike r') (h' : r'.Alike r'') : r.Alike r'' :=
  fun path => (h' path).trans (h path)

/-- Recording imports does not show. -/
theorem foldl_recordImports (paths : List String) (r : Registry) :
    r.Alike (paths.foldl Registry.recordImports r) := by
  intro path
  rw [find?_foldl_recordImports]
  split
  · rw [Option.map_map]
    rfl
  · rfl

theorem modules (h : r.Alike r') :
    r'.modules.map Module.outline = r.modules.map Module.outline := by
  refine Keyed.ext_get? fun path => ?_
  rw [Keyed.get?_map, Keyed.get?_map]
  exact h path

theorem contains (h : r.Alike r') (path : String) : r'.contains path = r.contains path := by
  have hp := congrArg Option.isSome (h path)
  rwa [Option.isSome_map, Option.isSome_map] at hp

theorem paths (h : r.Alike r') : r'.paths = r.paths := by
  have hk := congrArg Keyed.keys h.modules
  rwa [Keyed.keys_map, Keyed.keys_map] at hk

theorem values (h : r.Alike r') :
    r'.modules.values.map Module.outline = r.modules.values.map Module.outline := by
  rw [← Keyed.values_map, ← Keyed.values_map, h.modules]

/-- What a module shows in its outline is listed alike. -/
theorem filterMap_values {α : Type} (h : r.Alike r') (f : Module → Option α)
    (hf : ∀ m, f m.outline = f m) : r'.modules.values.filterMap f = r.modules.values.filterMap f := by
  have hm (ms : List Module) : (ms.map Module.outline).filterMap f = ms.filterMap f := by
    rw [List.filterMap_map]
    exact congrArg (List.filterMap · ms) (funext hf)
  have hv := hm r'.modules.values
  rw [h.values, hm] at hv
  exact hv.symm

theorem dependencies (h : r.Alike r') : r'.dependencies = r.dependencies :=
  congrArg (fun names => (Keyed.ofList names).keys) (h.filterMap_values _ fun _ => rfl)

theorem sourcePaths (h : r.Alike r') :
    r'.sourceModules.map (·.path) = r.sourceModules.map (·.path) := by
  have hp (ms : List Module) : ((ms.map Module.outline).filter (!·.isBuiltin)).map (·.path) =
      (ms.filter (!·.isBuiltin)).map (·.path) := by
    rw [List.filter_map, List.map_map]
    rfl
  have hv := hp r'.modules.values
  rw [h.values, hp] at hv
  exact hv.symm

/-! ### Imports -/

theorem resolveImport? (h : r.Alike r') (path importer : String) :
    r'.resolveImport? path importer = r.resolveImport? path importer := by
  unfold Registry.resolveImport?
  rw [h.dependencies, funext h.contains]

theorem resolveUsings (h : r.Alike r') (importer : String) (us : List Using) :
    r'.resolveUsings importer us = r.resolveUsings importer us := by
  induction us with
  | nil => rfl
  | cons u us ih =>
    unfold Registry.resolveUsings
    rw [h.resolveImport?, ih]

/-- A module with the same imports has the same modules imported. -/
theorem importsOf (h : r.Alike r') {path : String}
    (hu : (r'.find? path).map (·.decls.usings) = (r.find? path).map (·.decls.usings)) :
    r'.importsOf path = r.importsOf path := by
  have hi (r : Registry) : r.importsOf path =
      (((r.find? path).map (·.decls.usings)).map (r.resolveUsings path)).getD ⟨[], none⟩ := by
    unfold Registry.importsOf
    cases r.find? path <;> rfl
  rw [hi, hi, hu, funext (h.resolveUsings path)]

/-! ### Names in scope -/

theorem importedModules (h : r.Alike r') (hi : m'.resolvedImports = m.resolvedImports) :
    (r'.importedModules m').map Module.outline = (r.importedModules m).map Module.outline := by
  unfold Registry.importedModules
  rw [hi, List.map_filterMap, List.map_filterMap]
  exact congrArg (List.filterMap · _) (funext h)

theorem rootNames (h : r.Alike r') (hi : m'.resolvedImports = m.resolvedImports)
    (ho : m'.outline = m.outline) : r'.rootNames m' = r.rootNames m := by
  have he (ms : List Module) :
      (ms.map Module.outline).flatMap Module.exports = ms.flatMap Module.exports := by
    rw [List.flatMap_map]
    exact congrArg (List.flatMap · ms) (funext Module.exports_outline)
  have hn := he (r'.importedModules m')
  rw [h.importedModules hi, he] at hn
  unfold Registry.rootNames
  rw [← hn, ← m'.ownNames_outline, ho, m.ownNames_outline]

theorem privateOwner? (h : r.Alike r') (hi : m'.resolvedImports = m.resolvedImports)
    (name : String) : r'.privateOwner? m' name = r.privateOwner? m name := by
  have he (ms : List Module) :
      ((ms.map Module.outline).reverse.find? (·.hides name)).map (·.path) =
        (ms.reverse.find? (·.hides name)).map (·.path) := by
    rw [← List.map_reverse, List.find?_map, Option.map_map]
    exact congrArg (fun p => (ms.reverse.find? p).map (·.path))
      (funext fun m => m.hides_outline name)
  have hn := he (r'.importedModules m')
  rw [h.importedModules hi, he] at hn
  exact hn.symm

/-! ### Declarations -/

theorem functionAt? (h : r.Alike r') (path : String) (idx : Nat) :
    ((r'.functionAt? path idx).map FunctionDecl.outline) =
      (r.functionAt? path idx).map FunctionDecl.outline := by
  have hf (r : Registry) : (r.functionAt? path idx).map FunctionDecl.outline =
      ((r.find? path).map Module.outline).bind (·.decls.functions[idx]?) := by
    unfold Registry.functionAt?
    cases r.find? path with
    | none => rfl
    | some m => exact (m.decls.functions_outline idx).symm
  rw [hf, hf, h path]

theorem symbol? (h : r.Alike r') (path name : String) :
    ((r'.find? path).bind (·.symbol? name)).map Symbol.outline =
      ((r.find? path).bind (·.symbol? name)).map Symbol.outline := by
  have hs (r : Registry) : ((r.find? path).bind (·.symbol? name)).map Symbol.outline =
      ((r.find? path).map Module.outline).bind (·.symbol? name) := by
    cases r.find? path with
    | none => rfl
    | some m => exact (m.symbol?_outline name).symm
  rw [hs, hs, h path]

theorem classAt? (h : r.Alike r') (path : String) (idx : Nat) :
    ((r'.classAt? path idx).map ClassDecl.outline) =
      (r.classAt? path idx).map ClassDecl.outline := by
  have hc (r : Registry) : (r.classAt? path idx).map ClassDecl.outline =
      ((r.find? path).map Module.outline).bind (·.decls.classes[idx]?) := by
    unfold Registry.classAt?
    cases r.find? path with
    | none => rfl
    | some m => exact (m.decls.classes_outline idx).symm
  rw [hc, hc, h path]

theorem memberAt? (h : r.Alike r') (path : String) (idx : Nat) (name : String) :
    ((r'.memberAt? path idx name).map Member.outline) =
      (r.memberAt? path idx name).map Member.outline := by
  have hm (r : Registry) : (r.memberAt? path idx name).map Member.outline =
      ((r.classAt? path idx).map ClassDecl.outline).bind (·.member? name) := by
    unfold Registry.memberAt?
    cases r.classAt? path idx with
    | none => rfl
    | some c => exact (c.member?_outline name).symm
  rw [hm, hm, h.classAt?]

theorem searchOrder (h : r.Alike r') {origin : String}
    (hi : (r'.find? origin).map (·.resolvedImports) = (r.find? origin).map (·.resolvedImports)) :
    r'.searchOrder origin = r.searchOrder origin := by
  unfold Registry.searchOrder
  rw [hi, h.paths]

/-- A class, with the module that declares it, as other modules see both. -/
def seen (x : Module × ClassDecl) : Module × ClassDecl :=
  (x.1.outline, x.2.outline)

/-- The class that a name means is found by a search through the outlines. -/
theorem classDecl?_outline (r : Registry) (name origin : String) :
    (r.classDecl? name origin).map seen =
      ((r.searchOrder origin).findSome? fun path =>
        ((r.find? path).map Module.outline).bind fun m =>
          (m.decls.classIdx? name).map fun idx => (m, idx)).bind fun x =>
            (x.1.decls.classes[x.2]?).map fun c => (x.1, c) := by
  have hf : (r.findClass? name origin).map (fun x => (x.1.outline, x.2)) =
      (r.searchOrder origin).findSome? fun path =>
        ((r.find? path).map Module.outline).bind fun m =>
          (m.decls.classIdx? name).map fun idx => (m, idx) := by
    unfold Registry.findClass?
    rw [List.map_findSome?]
    refine congrArg (List.findSome? · _) (funext fun path => ?_)
    show ((r.find? path).bind fun m => (m.decls.classIdx? name).bind fun idx => some (m, idx)).map _ = _
    cases r.find? path with
    | none => rfl
    | some m =>
      have hi : m.outline.decls.classIdx? name = m.decls.classIdx? name :=
        m.decls.classIdx?_outline name
      rw [Option.map_some, Option.bind_some, Option.bind_some, hi]
      cases m.decls.classIdx? name <;> rfl
  rw [← hf]
  unfold Registry.classDecl?
  show ((r.findClass? name origin).bind fun x =>
    (x.1.decls.classes[x.2]?).bind fun decl => some (x.1, decl)).map seen = _
  cases r.findClass? name origin with
  | none => rfl
  | some x =>
    have hc : x.1.outline.decls.classes[x.2]? = (x.1.decls.classes[x.2]?).map ClassDecl.outline :=
      x.1.decls.classes_outline x.2
    rw [Option.map_some, Option.bind_some, Option.bind_some, hc]
    cases x.1.decls.classes[x.2]? <;> rfl

theorem classDecl? (h : r.Alike r') {origin : String}
    (hi : (r'.find? origin).map (·.resolvedImports) = (r.find? origin).map (·.resolvedImports))
    (name : String) :
    (r'.classDecl? name origin).map seen = (r.classDecl? name origin).map seen := by
  rw [classDecl?_outline, classDecl?_outline, h.searchOrder hi]
  refine congrArg (fun f => (List.findSome? f _).bind _) (funext fun path => ?_)
  rw [h path]

end Alike

end Registry

end MgLang
