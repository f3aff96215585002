import MgLang.Compilation
import MgLang.Proofs.ClassNames
import MgLang.Proofs.Numbering
/-!
# Compilations that can be reached

A compilation is made by adding files and by checking. All that holds of its registry by then comes
from the reader (`Reachable.sound`) and from the resolution of imports, which changes nothing that
another resolution looks at (`importsOf_recordImports`).

`exists_module_of_clean` says what a report without a fault is about: a module whose imports all
hold, with what the checks of names and types have found in it.
-/

namespace MgLang

/-! ### Tables -/

namespace Keyed

variable {α : Type}

theorem mem_of_get? {t : Keyed α} {key : String} {value : α} (h : t.get? key = some value) :
    (key, value) ∈ t.entries := by
  obtain ⟨before, behind, he, -⟩ := List.lookup_eq_some_iff.1 h
  simp [he]

theorem get?_of_mem {t : Keyed α} {e : String × α} (h : e ∈ t.entries) : t.get? e.1 = some e.2 := by
  obtain ⟨es, hs⟩ := t
  replace h : e ∈ es := h
  show es.lookup e.1 = some e.2
  induction es with
  | nil => cases h
  | cons d es ih =>
    obtain ⟨hlt, hs⟩ := List.pairwise_cons.1 hs
    rw [lookup_cons]
    rcases List.mem_cons.1 h with rfl | h
    · rw [if_pos rfl]
    · have hne : e.1 ≠ d.1 := fun he => String.lt_irrefl d.1 (he ▸ hlt e h)
      rw [if_neg hne]
      exact ih hs h

theorem mem_keys_ofList {es : List (String × α)} {key : String} (h : key ∈ (ofList es).keys) :
    key ∈ es.map (·.1) := by
  suffices ∀ (es : List (String × α)) (t : Keyed α),
      key ∈ (es.foldl (fun t e => t.insert e.1 e.2) t).keys → key ∈ t.keys ∨ key ∈ es.map (·.1) by
    rcases this es ∅ h with h | h
    · cases h
    · exact h
  intro es
  induction es with
  | nil => exact fun t h => .inl h
  | cons e es ih =>
    intro t h
    rcases ih _ h with h | h
    · obtain ⟨x, hx, rfl⟩ := List.mem_map.1 h
      rcases key_mem_insertEntry hx with rfl | hx
      · exact .inr List.mem_cons_self
      · exact .inl (List.mem_map_of_mem hx)
    · exact .inr (List.mem_cons_of_mem _ h)

end Keyed

/-! ### What the registry holds -/

namespace Registry

variable {r r' : Registry} {m : Module} {path : String} {n n' : Nat}

@[simp] theorem find?_insert (r : Registry) (m : Module) (path : String) :
    (r.insert m).find? path = if path = m.path then some m else r.find? path :=
  Keyed.get?_insert _ _ _ _

@[simp] theorem find?_modify (r : Registry) (key : String) (f : Module → Module) (hf) (path : String) :
    (r.modify key f hf).find? path = if path = key then (r.find? path).map f else r.find? path :=
  Keyed.get?_modify _ _ _ _

/-- The declarations of all modules satisfy `P`. -/
def Each (r : Registry) (P : Declarations → Prop) : Prop :=
  ∀ path m, r.find? path = some m → P m.decls

section

variable {P Q : Declarations → Prop}

theorem Each.mono (h : r.Each P) (hPQ : ∀ d, P d → Q d) : r.Each Q :=
  fun path m hm => hPQ _ (h path m hm)

theorem Each.insert (h : r.Each P) (hm : P m.decls) : (r.insert m).Each P := by
  intro path m' hm'
  rw [find?_insert] at hm'
  split at hm'
  · cases hm'
    exact hm
  · exact h path m' hm'

theorem Each.modify {f : Module → Module} {hf} (h : r.Each P)
    (hm : ∀ m, P m.decls → Q (f m).decls) (hPQ : ∀ d, P d → Q d) :
    (r.modify path f hf).Each Q := by
  intro q m' hm'
  rw [find?_modify] at hm'
  split at hm'
  · obtain ⟨m, hfind, rfl⟩ := Option.map_eq_some_iff.1 hm'
    exact hm m (h q m hfind)
  · exact hPQ _ (h q m' hm')

theorem each_initial (h : P {}) : initial.Each P := by
  suffices ∀ (paths : List String) (r : Registry), r.Each P →
      (paths.foldl (fun r path => r.insert (.builtin path)) r).Each P by
    exact this _ empty fun _ _ h => nomatch h
  intro paths
  induction paths with
  | nil => exact fun r hr => hr
  | cons path paths ih => exact fun r hr => ih _ (hr.insert h)

/-- What a file declares is put behind what was there. -/
theorem Each.register (h : r.Each P) (hm : Q m.decls)
    (hmerge : ∀ m' : Module, P m'.decls → Q (m'.merge m).decls) (hPQ : ∀ d, P d → Q d)
    (hr : r.register m = .ok r') : r'.Each Q := by
  unfold Registry.register at hr
  split at hr
  · cases hr
    exact (h.mono hPQ).insert hm
  · split at hr
    · cases hr
      exact h.modify hmerge hPQ
    · cases hr

end

/-- Every module was read while counting up to `n`. -/
def Counted (r : Registry) (n : Nat) : Prop :=
  ∀ path m, r.find? path = some m → m.decls.Made 0 n

theorem Counted.mono (h : r.Counted n) (hn : n ≤ n') : r.Counted n' :=
  Each.mono h fun _ hd => hd.mono (Nat.le_refl 0) hn

theorem counted_initial : initial.Counted 0 :=
  each_initial (.empty 0)

theorem Counted.register (h : r.Counted n) (hm : m.decls.Made n n')
    (hr : r.register m = .ok r') : r'.Counted n' :=
  Each.register h (hm.mono (Nat.zero_le n) (Nat.le_refl n')) (fun _ hm' => hm'.append hm _)
    (fun _ hd => hd.mono (Nat.le_refl 0) hm.bodies.le) hr

/-! ### Imports -/

/-- What the resolution of imports records with a module. -/
def withImports (m : Module) (i : Imports) : Module :=
  { m with resolvedImports := i.resolved, failedImport := i.failed.map (·.path) }

theorem find?_recordImports (r : Registry) (p path : String) :
    (r.recordImports p).find? path =
      if path = p then (r.find? path).map (withImports · (r.importsOf p)) else r.find? path := by
  unfold recordImports setImports
  rw [find?_modify]
  rfl

theorem Each.recordImports {P : Declarations → Prop} (h : r.Each P) (p : String) :
    (r.recordImports p).Each P := by
  unfold Registry.recordImports setImports
  refine h.modify ?_ fun _ hd => hd
  intro m hm
  exact hm

/-- What modules declare stays the same while the imports of several modules are recorded. -/
theorem Each.foldl_recordImports {P : Declarations → Prop} (paths : List String) :
    ∀ {r : Registry}, r.Each P → (paths.foldl Registry.recordImports r).Each P := by
  induction paths with
  | nil => exact fun h => h
  | cons p paths ih => exact fun h => ih (h.recordImports p)

theorem contains_recordImports (r : Registry) (p path : String) :
    (r.recordImports p).contains path = r.contains path := by
  unfold contains
  rw [find?_recordImports]
  split
  · rw [Option.isSome_map]
  · rfl

theorem dependencies_recordImports (r : Registry) (p : String) :
    (r.recordImports p).dependencies = r.dependencies := by
  unfold dependencies Keyed.values
  have he : (r.recordImports p).modules.entries =
      r.modules.entries.map fun e => if e.1 = p then (e.1, withImports e.2 (r.importsOf p)) else e :=
    rfl
  rw [he, List.map_map, List.filterMap_map, List.filterMap_map]
  refine congrArg (fun names => (Keyed.ofList names).keys) (congrArg (List.filterMap · _) ?_)
  funext e
  by_cases h : e.1 = p
  · simp [h, withImports]
  · simp [h]

theorem resolveImport?_recordImports (r : Registry) (p path importer : String) :
    (r.recordImports p).resolveImport? path importer = r.resolveImport? path importer := by
  unfold resolveImport?
  rw [dependencies_recordImports, funext (contains_recordImports r p)]

theorem resolveUsings_recordImports (r : Registry) (p importer : String) (us : List Using) :
    (r.recordImports p).resolveUsings importer us = r.resolveUsings importer us := by
  induction us with
  | nil => rfl
  | cons u us ih =>
    unfold resolveUsings
    rw [resolveImport?_recordImports, ih]

/-- What imports name does not depend on what has been recorded of other imports. -/
theorem importsOf_recordImports (r : Registry) (p path : String) :
    (r.recordImports p).importsOf path = r.importsOf path := by
  unfold importsOf
  rw [find?_recordImports]
  cases r.find? path with
  | none => by_cases hp : path = p <;> simp [hp]
  | some m =>
    have hu := resolveUsings_recordImports r p path m.decls.usings
    by_cases hp : path = p
    · rw [if_pos hp]
      exact hu
    · rw [if_neg hp]
      exact hu

/-- It is recorded with the module what its imports name. -/
def Recorded (r : Registry) (path : String) : Prop :=
  ∀ m, r.find? path = some m → m = withImports m (r.importsOf path)

theorem recorded_recordImports (r : Registry) (p : String) : (r.recordImports p).Recorded p := by
  intro m hm
  rw [find?_recordImports, if_pos rfl] at hm
  obtain ⟨m', -, rfl⟩ := Option.map_eq_some_iff.1 hm
  rw [importsOf_recordImports]
  rfl

theorem Recorded.recordImports (h : r.Recorded path) (p : String) :
    (r.recordImports p).Recorded path := by
  by_cases hp : path = p
  · rw [hp]
    exact recorded_recordImports r p
  · intro m hm
    rw [find?_recordImports, if_neg hp] at hm
    rw [importsOf_recordImports]
    exact h m hm

/-- Once the imports of several modules are recorded, each of these modules has its own. -/
theorem recorded_foldl {paths : List String} : ∀ {r : Registry}, path ∈ paths ∨ r.Recorded path →
    (paths.foldl Registry.recordImports r).Recorded path := by
  induction paths with
  | nil => exact fun h => h.resolve_left List.not_mem_nil
  | cons p paths ih =>
    intro r h
    refine ih ?_
    rcases h with h | h
    · rcases List.mem_cons.1 h with rfl | h
      · exact .inr (recorded_recordImports r path)
      · exact .inl h
    · exact .inr (h.recordImports p)

theorem importsOf_foldl (paths : List String) : ∀ r : Registry,
    (paths.foldl Registry.recordImports r).importsOf path = r.importsOf path := by
  induction paths with
  | nil => exact fun _ => rfl
  | cons p paths ih => exact fun r => (ih _).trans (importsOf_recordImports r p path)

/-- After the imports of several modules are recorded, these modules have their own, and nothing else
has changed. -/
theorem find?_foldl_recordImports (paths : List String) : ∀ r : Registry,
    (paths.foldl Registry.recordImports r).find? path =
      if path ∈ paths then (r.find? path).map (withImports · (r.importsOf path))
      else r.find? path := by
  induction paths with
  | nil => exact fun _ => rfl
  | cons p paths ih =>
    intro r
    rw [List.foldl_cons, ih, importsOf_recordImports, find?_recordImports]
    by_cases hp : path = p
    · subst hp
      by_cases hs : path ∈ paths
      · simp [hs, withImports, Function.comp_def]
      · simp [hs]
    · simp [hp]

/-- Recording imports adds no module and changes no package. -/
theorem exists_of_find?_foldl (paths : List String) : ∀ {r : Registry},
    (paths.foldl Registry.recordImports r).find? path = some m →
      ∃ m', r.find? path = some m' ∧ m'.package = m.package := by
  induction paths with
  | nil => exact fun h => ⟨m, h, rfl⟩
  | cons p paths ih =>
    intro r h
    obtain ⟨m', hm', hp⟩ := ih h
    rw [find?_recordImports] at hm'
    split at hm'
    · obtain ⟨m'', hm'', rfl⟩ := Option.map_eq_some_iff.1 hm'
      exact ⟨m'', hm'', hp⟩
    · exact ⟨m', hm', hp⟩

end Registry

/-! ### Runs -/

namespace Compilation

/-- The compilations that adding files and checking lead to. -/
inductive Reachable : Compilation → Prop
  | initial : Reachable {}
  | addAs {c : Compilation} (h : Reachable c) (path file text : String) (package : Package) :
    Reachable (c.addAs path file text package)
  | check {c : Compilation} (h : Reachable c) : Reachable c.check.2

theorem Reachable.add {c : Compilation} (h : Reachable c) (file text : String) (package : Package) :
    Reachable (c.add file text package) :=
  h.addAs _ _ _ _

/-- What holds of a compilation at any time: its modules were read while it was counting, and where
faults are kept there is one. -/
structure Sound (c : Compilation) : Prop where
  counted : c.registry.Counted c.nextId
  failures : ∀ path ds, c.failures.get? path = some ds → ds ≠ []

theorem Sound.addAs {c : Compilation} (h : c.Sound) (path file text : String) (package : Package) :
    (c.addAs path file text package).Sound := by
  obtain ⟨hle, hmade⟩ := parseSource_made file text c.nextId
  unfold Compilation.addAs
  generalize parseSource file text c.nextId = parsed at hle hmade
  obtain ⟨outcome, nextId⟩ := parsed
  dsimp only
  split
  · next registry hr =>
    refine ⟨?_, h.failures⟩
    cases outcome with
    | error d => cases hr
    | ok decls => exact h.counted.register (m := .ofFile path package decls file) (hmade decls rfl) hr
  · next d hr =>
    refine ⟨h.counted.mono hle, ?_⟩
    intro q ds hq
    rw [Keyed.get?_insert] at hq
    split at hq
    · cases hq
      simp
    · exact h.failures q ds hq

theorem Sound.recordImports {c : Compilation} (h : c.Sound) : c.recordImports.Sound :=
  ⟨Registry.Each.foldl_recordImports _ h.counted, h.failures⟩

/-- Whatever is added and checked, a compilation stays sound. -/
theorem Reachable.sound {c : Compilation} (h : c.Reachable) : c.Sound := by
  induction h with
  | initial => exact ⟨Registry.counted_initial, fun _ _ h => nomatch h⟩
  | addAs _ path file text package ih => exact ih.addAs path file text package
  | check _ ih => exact ih.recordImports

/-! ### Reports -/

variable {c : Compilation}

/-- A module from a source file that the registry has under its path. -/
theorem find?_of_mem_sourceModules {r : Registry} {m : Module} (h : m ∈ r.sourceModules) :
    r.find? m.path = some m ∧ m.isBuiltin = false := by
  obtain ⟨hm, hb⟩ := List.mem_filter.1 h
  obtain ⟨e, he, rfl⟩ := List.mem_map.1 hm
  refine ⟨?_, by simpa using hb⟩
  rw [r.path_eq e he]
  exact Keyed.get?_of_mem he

theorem mem_sourceModules {r : Registry} {m : Module} {path : String} (h : r.find? path = some m)
    (hb : m.isBuiltin = false) : m ∈ r.sourceModules := by
  refine List.mem_filter.2 ⟨?_, by simp [hb]⟩
  exact List.mem_map_of_mem (f := (·.2)) (Keyed.mem_of_get? h)

/-- A run without any fault reports on a module without a fault. -/
theorem moduleReport_of_clean {path : String} (hclean : c.check.1.diagnostics = [])
    (hpath : path ∈ c.check.2.reportedPaths) :
    c.check.2.moduleReport path ∈ c.check.1.modules ∧
      (c.check.2.moduleReport path).diagnostics = [] := by
  have hmem : c.check.2.moduleReport path ∈ c.check.1.modules := List.mem_map_of_mem hpath
  exact ⟨hmem, List.flatMap_eq_nil_iff.1 hclean _ hmem⟩

/-- **What a report without a fault is about**: a module of a source file whose imports all hold,
in a registry that knows what they name. -/
theorem exists_module_of_clean (hc : c.Sound) {rep : ModuleReport} (hrep : rep ∈ c.check.1.modules)
    (hclean : rep.diagnostics = []) :
    ∃ m, c.check.2.registry.find? rep.module = some m ∧ m.importFailed = false ∧
      rep.names = c.check.2.registry.names rep.module ∧ rep.names.errors = #[] ∧
      rep.types = c.check.2.registry.check rep.names ∧ rep.types.errors = [] := by
  obtain ⟨path, hpath, rfl⟩ := List.mem_map.1 hrep
  have hd : ((c.recordImports.failures.get? path).getD [] ++
      (c.recordImports.importFault? path).toList ++
      (c.recordImports.moduleReport path).names.errors.toList ++
      (c.recordImports.moduleReport path).types.errors) = [] := hclean
  obtain ⟨⟨⟨hfailures, himports⟩, hnames⟩, htypes⟩ := by
    simpa only [List.append_eq_nil_iff] using hd
  -- No failure is kept under the path, so a module of a source file stands there.
  have hsource : path ∈ c.recordImports.registry.sourceModules.map (·.path) := by
    have hkey := Keyed.mem_keys_ofList hpath
    rw [List.map_map] at hkey
    simp only [Function.comp_def, List.map_id'] at hkey
    rcases List.mem_append.1 hkey with h | h
    · exact h
    · obtain ⟨e, he, rfl⟩ := List.mem_map.1 h
      have hget := Keyed.get?_of_mem he
      rw [hget, Option.getD_some] at hfailures
      exact absurd hfailures (hc.recordImports.failures _ _ hget)
  obtain ⟨m, hm, rfl⟩ := List.mem_map.1 hsource
  obtain ⟨hfind, hb⟩ := find?_of_mem_sourceModules hm
  refine ⟨m, hfind, ?_, rfl, Array.toList_eq_nil_iff.1 hnames, rfl, htypes⟩
  -- Its imports have been resolved, and none has failed.
  have hrecorded : c.recordImports.registry.Recorded m.path := by
    refine Registry.recorded_foldl (.inl ?_)
    obtain ⟨m', hfind', hpackage⟩ := Registry.exists_of_find?_foldl _ hfind
    have hb' : m'.isBuiltin = false := by
      unfold Module.isBuiltin at hb ⊢
      rw [hpackage]
      exact hb
    refine List.mem_map.2 ⟨m', mem_sourceModules hfind' hb', ?_⟩
    exact Registry.path_of_find? hfind'
  have hfailed : (c.recordImports.registry.importsOf m.path).failed = none := by
    unfold importFault? Registry.importFault? at himports
    rw [hfind, Option.any_some, hb, Bool.not_false, if_pos rfl] at himports
    simpa using himports
  rw [hrecorded m hfind, Module.importFailed, Registry.withImports, hfailed]
  rfl

end Compilation

end MgLang
