import Mathlib.Data.List.DropRight
import MgLang.Proofs.Reachable
/-!
# What has been registered

A registry is changed by registering modules, by recording what imports name, and by starting over
(`Registry.Action`). What it then holds under a path can be said without any registry: the modules
that claim the path are the built-in one of that path and those registered there since the last
start, the first of them gives the path its package, and those of the same package are put together
in their order (`Registry.Merged`).

The main statement is `run_holds_merge`. Its step is `Merged.merge`: merging one more module is
putting it behind the others. The symbols that a module keeps are those of its declarations, so they
are the right ones at any time (`symbols_eq_mapIdx`).
-/

namespace MgLang

/-! ### Additions without repetition -/

section

variable {α β : Type} [DecidableEq β]

/-- Those of a list whose key is neither known nor that of an earlier one. -/
def newBy (key : α → β) (known : List β) : List α → List α
  | [] => []
  | a :: as => if key a ∈ known then newBy key known as else a :: newBy key (known ++ [key a]) as

theorem newBy_append (key : α → β) (as bs : List α) (known : List β) :
    newBy key known (as ++ bs) =
      newBy key known as ++ newBy key (known ++ (newBy key known as).map key) bs := by
  induction as generalizing known with
  | nil => simp [newBy]
  | cons a as ih =>
    rw [List.cons_append, newBy, newBy]
    split
    · exact ih known
    · rw [ih, List.map_cons, List.cons_append, List.append_assoc, List.singleton_append]

/-- None of the additions was known. -/
theorem not_mem_of_newBy {key : α → β} {as : List α} {known : List β} {a : α}
    (h : a ∈ newBy key known as) : key a ∉ known := by
  induction as generalizing known with
  | nil => cases h
  | cons b as ih =>
    rw [newBy] at h
    split at h
    · exact ih h
    · next hnew =>
      rcases List.mem_cons.1 h with rfl | h
      · exact hnew
      · exact fun hk => ih h (List.mem_append_left _ hk)

/-- No addition repeats another. -/
theorem nodup_newBy (key : α → β) (as : List α) (known : List β) :
    ((newBy key known as).map key).Nodup := by
  induction as generalizing known with
  | nil => exact List.nodup_nil
  | cons a as ih =>
    rw [newBy]
    split
    · exact ih known
    · refine List.nodup_cons.2 ⟨fun ha => ?_, ih _⟩
      obtain ⟨b, hb, he⟩ := List.mem_map.1 ha
      exact not_mem_of_newBy hb (by simp [he])

end

namespace Module

theorem addUsings_eq (us known : List Using) :
    addUsings known us = known ++ newBy (·.path) (known.map (·.path)) us := by
  induction us generalizing known with
  | nil => simp [addUsings, newBy]
  | cons u us ih =>
    have hany : known.any (·.path == u.path) = true ↔ u.path ∈ known.map (·.path) := by simp
    rw [addUsings, newBy]
    by_cases hu : u.path ∈ known.map (·.path)
    · rw [if_pos hu, if_pos (hany.2 hu), ih]
    · rw [if_neg hu, if_neg (mt hany.1 hu), ih, List.map_append, List.append_assoc]
      rfl

theorem addFiles_eq (fs known : List String) : addFiles known fs = known ++ newBy id known fs := by
  induction fs generalizing known with
  | nil => simp [addFiles, newBy]
  | cons f fs ih =>
    have hmem : known.contains f = true ↔ id f ∈ known := List.contains_iff_mem
    rw [addFiles, newBy]
    by_cases hf : id f ∈ known
    · rw [if_pos hf, if_pos (hmem.2 hf), ih]
    · rw [if_neg hf, if_neg (mt hmem.1 hf), ih, List.append_assoc]
      rfl

/-- The symbols of a module by place: the names that the built-in library offers, then the
functions, then the classes. -/
theorem symbols_eq_mapIdx (m : Module) :
    m.symbols =
      (if m.package = .builtin then ((Builtin.members? m.path).getD []).map fun name =>
          ⟨name, Builtin.kindOf name, m.path, .builtin, true, .null⟩
        else []) ++
      m.decls.functions.mapIdx (fun i f =>
        ⟨f.name, .function, m.path, .function i, f.isPublic, f.nameSpan⟩) ++
      m.decls.classes.mapIdx (fun i c =>
        ⟨c.name, .classType, m.path, .classAt i, c.isPublic, c.nameSpan⟩) := by
  rw [m.symbols_eq]
  simp only [Declarations.symbols, Builtin.symbols, Declarations.functionSymbols,
    Declarations.classSymbols, List.mapIdx_eq_zipIdx_map]

end Module

namespace Registry

/-! ### Actions -/

/-- What can be done to a registry. -/
inductive Action where
  /-- Adds a module, or what it declares to one that is there. -/
  | register (m : Module)
  /-- Records what the imports of a module name, and the first that names nothing. -/
  | setImports (path : String) (imports : List String) (failed : Option String)
  /-- Drops everything but the built-in library. -/
  | clear

namespace Action

/-- The action starts over. -/
def isClear : Action → Bool
  | clear => true
  | _ => false

/-- The module that the action adds. -/
def module? : Action → Option Module
  | register m => some m
  | _ => none

end Action

/-- The registry after an action. What is refused changes nothing. -/
def step (r : Registry) : Action → Registry
  | .register m => (r.register m).toOption.getD r
  | .setImports path imports failed => r.setImports path imports failed
  | .clear => initial

/-- The registry after actions, one after the other. -/
def run (r : Registry) (actions : List Action) : Registry :=
  actions.foldl step r

theorem run_nil (r : Registry) : r.run [] = r := rfl

theorem run_append (r : Registry) (actions : List Action) (a : Action) :
    r.run (actions ++ [a]) = (r.run actions).step a := by
  simp [run]

/-! ### Claims to a path -/

/-- The modules that were to be registered since the registry was started, in their order. -/
def registered (actions : List Action) : List Module :=
  (actions.rtakeWhile (!·.isClear)).filterMap Action.module?

/-- The modules that claim a path, the first claim first. -/
def claims (actions : List Action) (path : String) : List Module :=
  (if Builtin.isNamespace path then [.builtin path] else []) ++
    (registered actions).filter (·.path = path)

/-- What is at a path that `first` was the first to claim, once the modules of `later` are merged
into it. -/
structure Merged (first : Module) (later : List Module) (m : Module) : Prop where
  package : m.package = first.package
  functions : m.decls.functions = (first :: later).flatMap (·.decls.functions)
  classes : m.decls.classes = (first :: later).flatMap (·.decls.classes)
  usings : m.decls.usings = first.decls.usings ++
    newBy (·.path) (first.decls.usings.map (·.path)) (later.flatMap (·.decls.usings))
  files : m.files = first.files ++ newBy id first.files (later.flatMap (·.files))

/-- What is at a path with these claims: nothing, or the modules of the first package together. -/
def Holds (r : Registry) (path : String) : List Module → Prop
  | [] => r.find? path = none
  | first :: later =>
    ∃ m, r.find? path = some m ∧ Merged first (later.filter (·.package = first.package)) m

section

variable {r : Registry} {first m other : Module} {later ms : List Module} {path : String}

theorem Merged.refl (m : Module) : Merged m [] m where
  package := rfl
  functions := by simp
  classes := by simp
  usings := by simp [newBy]
  files := by simp [newBy]

/-- One more module is put behind the others. -/
theorem Merged.merge (h : Merged first later m) (other : Module) :
    Merged first (later ++ [other]) (m.merge other) where
  package := h.package
  functions := by simp [Module.merge, h.functions]
  classes := by simp [Module.merge, h.classes]
  usings := by
    have hu := newBy_append Using.path (later.flatMap (·.decls.usings)) other.decls.usings
      (first.decls.usings.map (·.path))
    show Module.addUsings m.decls.usings other.decls.usings = _
    rw [Module.addUsings_eq, h.usings, List.map_append, List.append_assoc, List.flatMap_append,
      List.flatMap_singleton, hu]
  files := by
    have hf := newBy_append id (later.flatMap (·.files)) other.files first.files
    show Module.addFiles m.files other.files = _
    rw [Module.addFiles_eq, h.files, List.append_assoc, List.flatMap_append,
      List.flatMap_singleton, hf, List.map_id]

/-- What imports name plays no part in what is merged. -/
theorem Merged.setImports (h : Merged first later m) (imports : List String)
    (failed : Option String) :
    Merged first later { m with resolvedImports := imports, failedImport := failed } :=
  ⟨h.package, h.functions, h.classes, h.usings, h.files⟩

theorem Holds.of_find? {r' : Registry} (h : r.Holds path ms) (hf : r'.find? path = r.find? path) :
    r'.Holds path ms := by
  unfold Holds at h ⊢
  rwa [hf]

/-! ### One action -/

theorem step_clear : r.step .clear = initial := rfl

theorem register_of_none (h : r.find? m.path = none) : r.register m = .ok (r.insert m) := by
  rw [register, h]

theorem register_of_same (h : r.find? m.path = some other) (hp : other.package = m.package) :
    r.register m = .ok (r.modify m.path (·.merge m) fun _ => rfl) := by
  rw [register, h]
  exact if_pos hp

/-- A path that another package holds is refused. -/
theorem register_of_other (h : r.find? m.path = some other) (hp : other.package ≠ m.package) :
    r.register m =
      .error ⟨.moduleConflict m.path other.package.text m.package.text,
        (m.files.head?.map Span.fileStart).getD .null⟩ := by
  rw [register, h]
  exact if_neg hp

/-- Only what is registered under a path changes what is there. -/
theorem find?_step_register (hp : path ≠ m.path) :
    (r.step (.register m)).find? path = r.find? path := by
  cases hf : r.find? m.path with
  | none =>
    rw [step, register_of_none hf]
    exact (find?_insert r m path).trans (if_neg hp)
  | some other =>
    by_cases hs : other.package = m.package
    · rw [step, register_of_same hf hs]
      exact (find?_modify r m.path (·.merge m) (fun _ => rfl) path).trans (if_neg hp)
    · rw [step, register_of_other hf hs]
      rfl

/-- Registering a module adds it to the claims. -/
theorem Holds.register (h : r.Holds m.path ms) :
    (r.step (.register m)).Holds m.path (ms ++ [m]) := by
  cases ms with
  | nil =>
    have hf : r.find? m.path = none := h
    refine ⟨m, ?_, Merged.refl m⟩
    rw [step, register_of_none hf]
    exact (find?_insert r m m.path).trans (if_pos rfl)
  | cons first later =>
    obtain ⟨held, hf, hm⟩ := h
    by_cases hs : held.package = m.package
    · have hfirst : m.package = first.package := hs.symm.trans hm.package
      refine ⟨held.merge m, ?_, ?_⟩
      · rw [step, register_of_same hf hs]
        refine (find?_modify r m.path (·.merge m) (fun _ => rfl) m.path).trans ?_
        rw [if_pos rfl, hf, Option.map_some]
      · have hl : (later ++ [m]).filter (·.package = first.package) =
            later.filter (·.package = first.package) ++ [m] := by
          simp [List.filter_append, hfirst]
        exact hl ▸ hm.merge m
    · have hfirst : m.package ≠ first.package := fun he => hs (hm.package.trans he.symm)
      refine ⟨held, ?_, ?_⟩
      · rw [step, register_of_other hf hs]
        exact hf
      · have hl : (later ++ [m]).filter (·.package = first.package) =
            later.filter (·.package = first.package) := by
          simp [List.filter_append, hfirst]
        exact hl ▸ hm

theorem Holds.setImports (h : r.Holds path ms) (p : String) (imports : List String)
    (failed : Option String) : (r.step (.setImports p imports failed)).Holds path ms := by
  have hf := find?_modify r p
    (fun m => { m with resolvedImports := imports, failedImport := failed }) (fun _ => rfl) path
  cases ms with
  | nil =>
    have hn : r.find? path = none := h
    rw [hn] at hf
    exact hf.trans (ite_self none)
  | cons first later =>
    obtain ⟨held, hheld, hm⟩ := h
    rw [hheld] at hf
    by_cases hp : path = p
    · exact ⟨_, hf.trans (if_pos hp), hm.setImports imports failed⟩
    · exact ⟨held, hf.trans (if_neg hp), hm⟩

/-- At first there is the built-in library. -/
theorem find?_initial (path : String) :
    initial.find? path = if Builtin.isNamespace path then some (.builtin path) else none := by
  have hfold (paths : List String) (r : Registry) :
      (paths.foldl (fun r p => r.insert (.builtin p)) r).find? path =
        if path ∈ paths then some (.builtin path) else r.find? path := by
    induction paths generalizing r with
    | nil => rfl
    | cons p paths ih =>
      rw [List.foldl_cons, ih, find?_insert]
      by_cases hs : path ∈ paths
      · simp [hs]
      · by_cases hp : path = p
        · simp [hp, Module.builtin]
        · simp [hs, hp, Module.builtin]
  have hkeys : path ∈ Builtin.namespaces.keys ↔ Builtin.isNamespace path = true := by
    unfold Builtin.isNamespace Builtin.members?
    rw [Option.isSome_iff_exists]
    constructor
    · intro h
      obtain ⟨e, he, rfl⟩ := List.mem_map.1 h
      exact ⟨e.2, Keyed.get?_of_mem he⟩
    · rintro ⟨names, hn⟩
      exact List.mem_map.2 ⟨(path, names), Keyed.mem_of_get? hn, rfl⟩
  exact (hfold _ empty).trans (if_congr hkeys rfl rfl)

theorem holds_initial (path : String) : initial.Holds path (claims [] path) := by
  have hf := find?_initial path
  have hc : claims [] path = if Builtin.isNamespace path then [.builtin path] else [] := by
    simp [claims, registered]
  rw [hc]
  split
  · next hb =>
    rw [if_pos hb] at hf
    exact ⟨_, hf, Merged.refl _⟩
  · next hb =>
    rw [if_neg hb] at hf
    exact hf

end

/-! ### All actions -/

theorem registered_register (actions : List Action) (m : Module) :
    registered (actions ++ [.register m]) = registered actions ++ [m] := by
  simp [registered, Action.isClear, Action.module?]

theorem registered_setImports (actions : List Action) (p : String) (imports : List String)
    (failed : Option String) :
    registered (actions ++ [.setImports p imports failed]) = registered actions := by
  simp [registered, Action.isClear, Action.module?]

theorem registered_clear (actions : List Action) : registered (actions ++ [.clear]) = [] := by
  simp [registered, Action.isClear]

/-- A registration adds to the claims to its own path. -/
theorem claims_register (actions : List Action) (m : Module) (path : String) :
    claims (actions ++ [.register m]) path =
      claims actions path ++ if m.path = path then [m] else [] := by
  rw [claims, claims, registered_register, List.filter_append, List.append_assoc]
  by_cases hp : m.path = path <;> simp [hp]

theorem claims_setImports (actions : List Action) (p : String) (imports : List String)
    (failed : Option String) (path : String) :
    claims (actions ++ [.setImports p imports failed]) path = claims actions path := by
  rw [claims, claims, registered_setImports]

theorem claims_clear (actions : List Action) (path : String) :
    claims (actions ++ [.clear]) path = claims [] path := by
  rw [claims, claims, registered_clear]
  rfl

/-- At any time, what is at a path are the modules that claim it, as far as they are of the package
of the first. -/
theorem run_holds (actions : List Action) (path : String) :
    (initial.run actions).Holds path (claims actions path) := by
  induction actions using List.reverseRecOn with
  | nil =>
    rw [run_nil]
    exact holds_initial path
  | append_singleton actions a ih =>
    rw [run_append]
    cases a with
    | register m =>
      rw [claims_register]
      by_cases hp : m.path = path
      · subst hp
        rw [if_pos rfl]
        exact ih.register
      · rw [if_neg hp, List.append_nil]
        exact ih.of_find? (find?_step_register (Ne.symm hp))
    | setImports p imports failed =>
      rw [claims_setImports]
      exact ih.setImports p imports failed
    | clear =>
      rw [claims_clear, step_clear]
      exact holds_initial path

theorem contains_iff {r : Registry} {path : String} :
    r.contains path = true ↔ ∃ m, r.find? path = some m :=
  Option.isSome_iff_exists

/-- A path is claimed if it is built in or something was to be registered there. -/
theorem claims_eq_nil_iff {actions : List Action} {path : String} :
    claims actions path = [] ↔
      ¬(Builtin.isNamespace path = true ∨ ∃ m ∈ registered actions, m.path = path) := by
  unfold claims
  by_cases hb : Builtin.isNamespace path = true
  · simp [hb]
  · simp [hb]

section

variable {r : Registry} {first m held : Module} {later ms : List Module} {path : String}

/-- The files behind those of the first module are in no place before, and none is there twice. -/
theorem Merged.nodup_files (h : Merged first later m) :
    (m.files.drop first.files.length).Nodup ∧
      ∀ f ∈ m.files.drop first.files.length, f ∉ first.files := by
  rw [h.files, List.drop_left]
  refine ⟨?_, fun f hf => not_mem_of_newBy hf⟩
  have hn := nodup_newBy id (later.flatMap (·.files)) first.files
  rwa [List.map_id] at hn

theorem Holds.exists_iff (h : r.Holds path ms) : (∃ m, r.find? path = some m) ↔ ms ≠ [] := by
  cases ms with
  | nil =>
    have hn : r.find? path = none := h
    simp [hn]
  | cons first later =>
    obtain ⟨m, hm, -⟩ := h
    simp [hm]

/-- What is at a path is merged from the claims to it. -/
theorem Holds.merged (h : r.Holds path ms) (hm : r.find? path = some m) :
    ∃ first later, ms = first :: later ∧
      Merged first (later.filter (·.package = first.package)) m := by
  cases ms with
  | nil => exact absurd ((show r.find? path = none from h).symm.trans hm) (by simp)
  | cons first later =>
    obtain ⟨m', hm', hmerged⟩ := h
    cases hm'.symm.trans hm
    exact ⟨first, later, rfl, hmerged⟩

/-- A module is refused if the first claim to its path has another package, with a fault that names
both. -/
theorem Holds.register_eq_error_iff (h : r.Holds m.path ms) (d : Diagnostic) :
    r.register m = .error d ↔
      ∃ first, ms.head? = some first ∧ m.package ≠ first.package ∧
        d = ⟨.moduleConflict m.path first.package.text m.package.text,
          (m.files.head?.map Span.fileStart).getD .null⟩ := by
  cases ms with
  | nil =>
    rw [register_of_none h]
    simp
  | cons first later =>
    obtain ⟨held, hheld, hmerged⟩ := h
    by_cases hs : held.package = m.package
    · rw [register_of_same hheld hs]
      simp [← hmerged.package, hs]
    · rw [register_of_other hheld hs, hmerged.package]
      have hne : m.package ≠ first.package := fun he => hs (hmerged.package.trans he.symm)
      simp [hne, eq_comm]

end

/-- **A registry is the ordered merge of what was registered.** After any actions there is a module
at a path if the path is built in or a module was to be registered there since the last start. The
module at a path has the package of the first claim, and the declarations and files of the claims of
that package, in their order; its symbols are those of its declarations. A module is refused if the
first claim to its path has another package, and the registry stays as it was. -/
theorem run_holds_merge (actions : List Action) (path : String) :
    ((initial.run actions).contains path = true ↔
        Builtin.isNamespace path = true ∨ ∃ m ∈ registered actions, m.path = path) ∧
      (∀ m, (initial.run actions).find? path = some m →
        m.path = path ∧
        (∃ first later, claims actions path = first :: later ∧
          Merged first (later.filter (·.package = first.package)) m ∧
          (m.files.drop first.files.length).Nodup ∧
          ∀ f ∈ m.files.drop first.files.length, f ∉ first.files) ∧
        m.symbols =
          (if m.package = .builtin then ((Builtin.members? path).getD []).map fun name =>
              ⟨name, Builtin.kindOf name, path, .builtin, true, .null⟩
            else []) ++
          m.decls.functions.mapIdx (fun i f =>
            ⟨f.name, .function, path, .function i, f.isPublic, f.nameSpan⟩) ++
          m.decls.classes.mapIdx (fun i c =>
            ⟨c.name, .classType, path, .classAt i, c.isPublic, c.nameSpan⟩)) ∧
      ∀ m, m.path = path →
        (∀ d, (initial.run actions).register m = .error d ↔
          ∃ first, (claims actions path).head? = some first ∧ m.package ≠ first.package ∧
            d = ⟨.moduleConflict path first.package.text m.package.text,
              (m.files.head?.map Span.fileStart).getD .null⟩) ∧
        ∀ d, (initial.run actions).register m = .error d →
          initial.run (actions ++ [.register m]) = initial.run actions := by
  have hholds := run_holds actions path
  refine ⟨?_, fun m hm => ?_, ?_⟩
  · rw [contains_iff, hholds.exists_iff, ne_eq, claims_eq_nil_iff, not_not]
  · have hpath := path_of_find? hm
    obtain ⟨first, later, hc, hmerged⟩ := hholds.merged hm
    refine ⟨hpath, ⟨first, later, hc, hmerged, hmerged.nodup_files⟩, ?_⟩
    rw [m.symbols_eq_mapIdx, hpath]
  · rintro m rfl
    refine ⟨hholds.register_eq_error_iff, fun d hd => ?_⟩
    rw [run_append, step, hd]
    rfl

end Registry

end MgLang
