import Mathlib.Data.List.Forall2
import MgLang.Proofs.LoadFaults
import MgLang.Proofs.Registrations
/-!
# What an import names

An import is looked up from where it stands: the path as written comes first, then what is below the
importer and below everything above it, the nearest first, and at last what is below a dependency,
in the order of names. `Registry.Means` says which registered module that is, and
`resolveImport?_eq_some_iff` that the look-up finds it.

The main statement is `recordImports_exact`: what is recorded with a module are the modules that its
imports name, up to the first import that names nothing. All of them are registered and name
themselves wherever they are imported, and no later registration leaves an import without a module
(`isSome_resolveImport?_run`), since paths and packages stay (`exists_find?_run`).
-/

namespace MgLang

/-- The first that satisfies `p` in a list in strict order is the least that does. -/
theorem find?_eq_some_iff_of_pairwise {α : Type} {R : α → α → Prop} [Std.Asymm R] {p : α → Bool}
    {xs : List α} (hxs : xs.Pairwise R) {a : α} :
    xs.find? p = some a ↔ a ∈ xs ∧ p a = true ∧ ∀ b ∈ xs, R b a → p b = false := by
  rw [List.find?_eq_some_iff_append]
  constructor
  · rintro ⟨ha, before, behind, rfl, hbefore⟩
    refine ⟨by simp, ha, fun b hb hba => ?_⟩
    obtain ⟨-, hbehind, -⟩ := List.pairwise_append.1 hxs
    rcases List.mem_append.1 hb with hb | hb
    · simpa using hbefore b hb
    · rcases List.mem_cons.1 hb with rfl | hb
      · exact absurd hba (Std.Asymm.asymm _ _ hba)
      · exact absurd hba (Std.Asymm.asymm _ _ ((List.pairwise_cons.1 hbehind).1 b hb))
  · rintro ⟨hmem, ha, hleast⟩
    obtain ⟨before, behind, rfl⟩ := List.append_of_mem hmem
    refine ⟨ha, before, behind, rfl, fun b hb => ?_⟩
    obtain ⟨-, -, hbetween⟩ := List.pairwise_append.1 hxs
    have hba := hbetween b hb a List.mem_cons_self
    simp [hleast b (List.mem_append_left _ hb) hba]

/-- The segments of a path that are not empty. -/
def pathSegments (path : String) : List (List Char) :=
  (splitOn '.' path.toList).filter (!·.isEmpty)

/-- The path that the first `n` segments make. -/
def above (path : String) (n : Nat) : String :=
  .ofList (joinWith '.' ((pathSegments path).take n))

theorem selfAndAncestors_eq (path : String) :
    selfAndAncestors path =
      (List.range (pathSegments path).length).reverse.map fun n => above path (n + 1) :=
  rfl

namespace Registry

variable {r : Registry} {m : Module} {path importer p : String}

/-! ### The module that an import names -/

/-- A module belongs to the dependency of that name. -/
def DependsOn (r : Registry) (name : String) : Prop :=
  ∃ path m, r.find? path = some m ∧ m.package = .dependency name

/-- The registered module that the import `path` names inside `importer`. -/
inductive Means (r : Registry) (importer path : String) : String → Prop
  /-- The one of that path. -/
  | itself (h : r.contains path) : Means r importer path path
  /-- The nearest below the importer or below what stands above it. -/
  | below {n : Nat} (hitself : ¬ r.contains path) (hpos : 0 < n)
    (hle : n ≤ (pathSegments importer).length) (h : r.contains (above importer n ++ "." ++ path))
    (hnearest : ∀ k, n < k → k ≤ (pathSegments importer).length →
      ¬ r.contains (above importer k ++ "." ++ path)) :
    Means r importer path (above importer n ++ "." ++ path)
  /-- The one below the first of the dependencies. -/
  | dependency {name : String} (hitself : ¬ r.contains path)
    (hbelow : ∀ k, 0 < k → k ≤ (pathSegments importer).length →
      ¬ r.contains (above importer k ++ "." ++ path))
    (hname : r.DependsOn name) (h : r.contains (name ++ "." ++ path))
    (hfirst : ∀ other, r.DependsOn other → other < name → ¬ r.contains (other ++ "." ++ path)) :
    Means r importer path (name ++ "." ++ path)

/-- The built-in library is there. -/
def HasBuiltins (r : Registry) : Prop :=
  ∀ path, Builtin.isNamespace path = true → r.contains path = true

theorem hasBuiltins_run (actions : List Action) : (initial.run actions).HasBuiltins := by
  intro path hb
  rw [contains_iff, (run_holds actions path).exists_iff, ne_eq, claims_eq_nil_iff, not_not]
  exact .inl hb

theorem mem_dependencies_iff {name : String} : name ∈ r.dependencies ↔ r.DependsOn name := by
  unfold dependencies
  rw [Keyed.mem_keys_ofList_iff, List.mem_map]
  constructor
  · rintro ⟨e, he, rfl⟩
    obtain ⟨m, hm, he⟩ := List.mem_filterMap.1 he
    obtain ⟨d, hd, rfl⟩ := List.mem_map.1 hm
    split at he
    · next hpackage =>
      cases he
      exact ⟨d.1, d.2, Keyed.get?_of_mem hd, hpackage⟩
    · cases he
  · rintro ⟨path, m, hm, hpackage⟩
    refine ⟨(name, ()), List.mem_filterMap.2 ⟨m, ?_, by simp [hpackage]⟩, rfl⟩
    exact List.mem_map_of_mem (f := (·.2)) (Keyed.mem_of_get? hm)

/-- The paths that an import can mean, in the order in which they are tried. -/
def targets (r : Registry) (path importer : String) : List String :=
  path :: (selfAndAncestors importer).map (· ++ "." ++ path) ++
    r.dependencies.map (· ++ "." ++ path)

theorem resolveImport?_eq_find? (hr : r.HasBuiltins) (path importer : String) :
    r.resolveImport? path importer = (r.targets path importer).find? r.contains := by
  unfold resolveImport? targets importCandidates
  split
  · next hb => rw [List.cons_append, List.find?_cons_of_pos (hr path hb)]
  · rfl

/-- The three places in which an import is looked up, one after the other. -/
theorem resolveImport?_eq_or (hr : r.HasBuiltins) (path importer : String) :
    r.resolveImport? path importer =
      if r.contains path then some path
      else
        (((List.range (pathSegments importer).length).reverse.find? fun n =>
            r.contains (above importer (n + 1) ++ "." ++ path)).map fun n =>
              above importer (n + 1) ++ "." ++ path).or
          ((r.dependencies.find? fun name => r.contains (name ++ "." ++ path)).map
            (· ++ "." ++ path)) := by
  rw [resolveImport?_eq_find? hr, targets, selfAndAncestors_eq, List.map_map, List.cons_append,
    List.find?_cons, List.find?_append, List.find?_map, List.find?_map]
  cases r.contains path <;> rfl

theorem nearest_iff {len n : Nat} {q : Nat → Bool} :
    (List.range len).reverse.find? q = some n ↔
      n < len ∧ q n = true ∧ ∀ k, n < k → k < len → q k = false := by
  have hsorted : (List.range len).reverse.Pairwise (· > ·) :=
    List.pairwise_reverse.2 List.pairwise_lt_range
  have : Std.Asymm (α := Nat) (· > ·) := ⟨fun a b h => by omega⟩
  rw [find?_eq_some_iff_of_pairwise hsorted]
  simp only [List.mem_reverse, List.mem_range]
  exact and_congr_right fun _ => and_congr_right fun _ =>
    ⟨fun h k hn hk => h k hk hn, fun h k hk hn => h k hn hk⟩

theorem first_iff {name : String} {q : String → Bool} :
    r.dependencies.find? q = some name ↔
      r.DependsOn name ∧ q name = true ∧ ∀ other, r.DependsOn other → other < name →
        q other = false := by
  have : Std.Asymm (α := String) (· < ·) := ⟨fun _ _ => String.lt_asymm⟩
  have hsorted : r.dependencies.Pairwise (· < ·) := Keyed.pairwise_keys _
  rw [find?_eq_some_iff_of_pairwise hsorted]
  simp only [mem_dependencies_iff]

/-- **The look-up of an import finds the module that it names.** -/
theorem resolveImport?_eq_some_iff (hr : r.HasBuiltins) :
    r.resolveImport? path importer = some p ↔ r.Means importer path p := by
  rw [resolveImport?_eq_or hr]
  constructor
  · intro h
    split at h
    · next hitself =>
      cases h
      exact .itself hitself
    · next hitself =>
      rcases Option.or_eq_some_iff.1 h with h | ⟨hbelow, h⟩
      · obtain ⟨n, hn, rfl⟩ := Option.map_eq_some_iff.1 h
        obtain ⟨hlt, hcontains, hnearest⟩ := nearest_iff.1 hn
        refine .below hitself (Nat.succ_pos n) hlt hcontains fun k hk hle => ?_
        have := hnearest (k - 1) (by omega) (by omega)
        rw [Nat.sub_add_cancel (by omega)] at this
        simp [this]
      · obtain ⟨name, hname, rfl⟩ := Option.map_eq_some_iff.1 h
        obtain ⟨hdepends, hcontains, hfirst⟩ := first_iff.1 hname
        refine .dependency hitself (fun k hpos hle => ?_) hdepends hcontains fun other ho hlt => ?_
        · have hnone := List.find?_eq_none.1 (Option.map_eq_none_iff.1 hbelow) (k - 1)
            (by simp; omega)
          rwa [Nat.sub_add_cancel hpos] at hnone
        · simp [hfirst other ho hlt]
  · rintro (hitself | ⟨hitself, hpos, hle, hcontains, hnearest⟩ |
      ⟨hitself, hbelow, hdepends, hcontains, hfirst⟩)
    · rw [if_pos hitself]
    · next n =>
      obtain ⟨k, rfl⟩ := Nat.exists_eq_add_of_lt hpos
      rw [Nat.zero_add] at *
      rw [if_neg hitself, nearest_iff.2 ⟨hle, hcontains, fun j hj hlt => ?_⟩]
      · rfl
      · simpa using hnearest (j + 1) (by omega) hlt
    · rw [if_neg hitself, List.find?_eq_none.2 fun k hk => ?_,
        first_iff.2 ⟨hdepends, hcontains, ?_⟩]
      · rfl
      · intro other ho hlt
        simpa using hfirst other ho hlt
      · exact hbelow (k + 1) (Nat.succ_pos k) (by simpa [Nat.succ_le_iff] using hk)

theorem Means.contains (h : r.Means importer path p) : r.contains p = true := by
  cases h <;> assumption

/-- A registered module names itself wherever it is imported. -/
theorem resolveImport?_self (hr : r.HasBuiltins) (h : r.contains p = true) (importer : String) :
    r.resolveImport? p importer = some p :=
  (resolveImport?_eq_some_iff hr).2 (.itself h)

/-! ### Imports in a row -/

/-- Imports are resolved up to the first that names nothing. -/
theorem exists_of_resolveUsings (r : Registry) (importer : String) (us : List Using) :
    ∃ before behind resolved, us = before ++ behind ∧
      List.Forall₂ (fun u p => r.resolveImport? u.path importer = some p) before resolved ∧
      (∀ u ∈ behind.head?, r.resolveImport? u.path importer = none) ∧
      r.resolveUsings importer us = ⟨resolved, behind.head?⟩ := by
  induction us with
  | nil => exact ⟨[], [], [], rfl, .nil, by simp, rfl⟩
  | cons u us ih =>
    cases hu : r.resolveImport? u.path importer with
    | none => exact ⟨[], u :: us, [], rfl, .nil, by simp [hu], by simp [resolveUsings, hu]⟩
    | some p =>
      obtain ⟨before, behind, resolved, rfl, hbefore, hbehind, hus⟩ := ih
      exact ⟨u :: before, behind, p :: resolved, rfl, .cons hu hbefore, hbehind,
        by simp [resolveUsings, hu, hus]⟩

theorem contains_of_resolved (hr : r.HasBuiltins) {us : List Using} {ps : List String}
    (h : List.Forall₂ (fun u p => r.resolveImport? u.path importer = some p) us ps) :
    ∀ p ∈ ps, r.contains p = true := by
  induction h with
  | nil => simp
  | cons hu _ ih =>
    exact List.forall_mem_cons.2 ⟨((resolveImport?_eq_some_iff hr).1 hu).contains, ih⟩

/-- A list of registered paths names as many modules. -/
theorem map_path_filterMap_find? {ps : List String} (h : ∀ p ∈ ps, r.contains p = true) :
    (ps.filterMap r.find?).map (·.path) = ps := by
  induction ps with
  | nil => rfl
  | cons p ps ih =>
    obtain ⟨hp, hps⟩ := List.forall_mem_cons.1 h
    obtain ⟨m, hm⟩ := contains_iff.1 hp
    rw [List.filterMap_cons_some hm, List.map_cons, ih hps, path_of_find? hm]

/-! ### Later registrations -/

/-- What is done to a registry that is not started over leaves every path to its package. -/
theorem exists_find?_step {a : Action} (ha : a.isClear = false) (h : r.find? path = some m) :
    ∃ m', (r.step a).find? path = some m' ∧ m'.package = m.package := by
  cases a with
  | register x =>
    by_cases hp : path = x.path
    · subst hp
      by_cases hs : m.package = x.package
      · rw [step, register_of_same h hs]
        refine ⟨m.merge x, ?_, rfl⟩
        refine (find?_modify r x.path (·.merge x) (fun _ => rfl) x.path).trans ?_
        rw [if_pos rfl, h, Option.map_some]
      · rw [step, register_of_other h hs]
        exact ⟨m, h, rfl⟩
    · exact ⟨m, (find?_step_register hp).trans h, rfl⟩
  | setImports p imports failed =>
    rw [step, setImports, find?_modify, h]
    by_cases hp : path = p
    · exact ⟨_, if_pos hp, rfl⟩
    · exact ⟨m, if_neg hp, rfl⟩
  | clear => cases ha

theorem exists_find?_run {actions : List Action} (ha : ∀ a ∈ actions, a.isClear = false) :
    ∀ {r : Registry} {m : Module}, r.find? path = some m →
      ∃ m', (r.run actions).find? path = some m' ∧ m'.package = m.package := by
  induction actions with
  | nil => exact fun h => ⟨_, h, rfl⟩
  | cons a actions ih =>
    intro r m h
    obtain ⟨ha, hactions⟩ := List.forall_mem_cons.1 ha
    obtain ⟨m', hm', hpackage⟩ := exists_find?_step ha h
    obtain ⟨m'', hm'', hpackage'⟩ := ih hactions hm'
    exact ⟨m'', hm'', hpackage'.trans hpackage⟩

/-- An import that names a module names one for good. -/
theorem isSome_resolveImport?_run {actions : List Action} (hr : r.HasBuiltins)
    (hr' : (r.run actions).HasBuiltins) (ha : ∀ a ∈ actions, a.isClear = false)
    (h : (r.resolveImport? path importer).isSome) :
    ((r.run actions).resolveImport? path importer).isSome := by
  rw [resolveImport?_eq_find? hr, List.find?_isSome] at h
  rw [resolveImport?_eq_find? hr', List.find?_isSome]
  obtain ⟨p, hp, hcontains⟩ := h
  refine ⟨p, ?_, ?_⟩
  · rw [targets, List.mem_append] at hp ⊢
    refine hp.imp_right fun hp => ?_
    obtain ⟨name, hname, rfl⟩ := List.mem_map.1 hp
    obtain ⟨q, m, hm, hpackage⟩ := mem_dependencies_iff.1 hname
    obtain ⟨m', hm', hpackage'⟩ := exists_find?_run ha hm
    have hdepends : (r.run actions).DependsOn name := ⟨q, m', hm', hpackage'.trans hpackage⟩
    exact List.mem_map_of_mem (mem_dependencies_iff.2 hdepends)
  · obtain ⟨m, hm⟩ := contains_iff.1 hcontains
    obtain ⟨m', hm', -⟩ := exists_find?_run ha hm
    exact contains_iff.2 ⟨m', hm'⟩

/-- **What is recorded of imports is exact, in order and for good.** In a registry that any actions
have led to, the modules recorded with a module are those that its imports name, up to the first
that names nothing, which is recorded as failed and reported; asking for all of them gives the same
list or the same fault. What an import names is registered, is the first in the order of the
look-up, and names itself wherever it is imported. Once an import names a module, it names one after
any actions that do not start over. -/
theorem recordImports_exact {actions : List Action} {m : Module}
    (hm : (initial.run actions).find? path = some m) :
    let r := initial.run actions
    (∃ before behind resolved, m.decls.usings = before ++ behind ∧
      List.Forall₂ (fun u p => r.resolveImport? u.path path = some p) before resolved ∧
      (∀ u ∈ behind.head?, r.resolveImport? u.path path = none) ∧
      (r.recordImports path).find? path =
        some { m with
          resolvedImports := resolved
          failedImport := behind.head?.map (·.path) } ∧
      (∀ x, (r.recordImports path).find? path = some x →
        ((r.recordImports path).importedModules x).map (·.path) = resolved) ∧
      (∀ q, q ≠ path → (r.recordImports path).find? q = r.find? q) ∧
      r.importFault? path = behind.head?.map (fun u => ⟨.moduleNotFound u.path, u.span⟩) ∧
      (behind = [] → r.resolveImports path = .ok resolved) ∧
      ∀ u ∈ behind.head?, r.resolveImports path = .error ⟨.moduleNotFound u.path, u.span⟩) ∧
    (∀ u importer p, r.resolveImport? u importer = some p ↔ r.Means importer u p) ∧
    (∀ u importer p, r.resolveImport? u importer = some p →
      (∃ x, r.find? p = some x ∧ x.path = p) ∧ ∀ other, r.resolveImport? p other = some p) ∧
    ∀ later : List Action, (∀ a ∈ later, a.isClear = false) → ∀ u importer,
      (r.resolveImport? u importer).isSome →
      ((initial.run (actions ++ later)).resolveImport? u importer).isSome := by
  intro r
  have hr : r.HasBuiltins := hasBuiltins_run actions
  have hcontains {u importer p : String} (h : r.resolveImport? u importer = some p) :
      r.contains p = true :=
    ((resolveImport?_eq_some_iff hr).1 h).contains
  refine ⟨?_, fun u importer p => resolveImport?_eq_some_iff hr, fun u importer p h => ?_, ?_⟩
  · obtain ⟨before, behind, resolved, husings, hbefore, hbehind, hus⟩ :=
      r.exists_of_resolveUsings path m.decls.usings
    have himports : r.importsOf path = ⟨resolved, behind.head?⟩ := by
      rw [importsOf, hm]
      exact hus
    have hrecorded : (r.recordImports path).find? path =
        some (withImports m ⟨resolved, behind.head?⟩) := by
      rw [find?_recordImports, if_pos rfl, hm, himports, Option.map_some]
    refine ⟨before, behind, resolved, husings, hbefore, hbehind, hrecorded, fun x hx => ?_,
      fun q hq => ?_, ?_, fun hnil => ?_, fun u hu => ?_⟩
    · cases hrecorded.symm.trans hx
      refine map_path_filterMap_find? fun p hp => ?_
      rw [contains_recordImports]
      exact contains_of_resolved hr hbefore p hp
    · rw [find?_recordImports, if_neg hq]
    · rw [importFault?, himports]
      rfl
    · simp [resolveImports, himports, hnil]
    · have hhead : behind.head? = some u := hu
      simp [resolveImports, himports, hhead, notFound]
  · obtain ⟨x, hx⟩ := contains_iff.1 (hcontains h)
    exact ⟨⟨x, hx, path_of_find? hx⟩, resolveImport?_self hr (hcontains h)⟩
  · intro later hlater u importer h
    have hrun : initial.run (actions ++ later) = r.run later := List.foldl_append
    have hr' := hasBuiltins_run (actions ++ later)
    rw [hrun] at hr' ⊢
    exact isSome_resolveImport?_run hr hr' hlater h

/-- A module with imports that name a module beside it, one of a dependency, a built-in namespace
and nothing. -/
def layered : List Action :=
  [.register { path := "a.c", package := .root "app", decls := {} },
   .register { path := "dep.lib", package := .dependency "dep", decls := {} },
   .register
     { path := "a.b"
       package := .root "app"
       decls := { usings := ["c", "lib", "Std.IO", "gone", "a.c"].map (⟨·, .null⟩) } }]

theorem layered_run :
    let r := initial.run layered
    (((r.recordImports "a.b").find? "a.b").map fun m => (m.resolvedImports, m.failedImport)) =
        some (["a.c", "dep.lib", "Std.IO"], some "gone") ∧
      (r.find? "a.b").isSome ∧ r.resolveImport? "lib" "a.b" = some "dep.lib" := by
  decide +kernel

/-- The import behind the one that names nothing is not recorded, although it names a module. -/
theorem recordImports_exact_layered :
    let r := initial.run layered
    (∃ m, (r.recordImports "a.b").find? "a.b" = some m ∧
      m.resolvedImports = ["a.c", "dep.lib", "Std.IO"] ∧ m.failedImport = some "gone" ∧
      ((r.recordImports "a.b").importedModules m).map (·.path) = m.resolvedImports) ∧
    (∃ span, r.resolveImports "a.b" = .error ⟨.moduleNotFound "gone", span⟩) ∧
    r.Means "a.b" "lib" "dep.lib" ∧ r.resolveImport? "dep.lib" "b.dep" = some "dep.lib" := by
  intro r
  obtain ⟨hrecorded, hsome, hlib⟩ := layered_run
  obtain ⟨m, hm⟩ := Option.isSome_iff_exists.1 hsome
  obtain ⟨hrecords, hmeans, hself, -⟩ := recordImports_exact hm
  obtain ⟨before, behind, resolved, -, -, -, hfind, himported, -, -, -, herror⟩ := hrecords
  obtain ⟨x, hx, hpair⟩ := Option.map_eq_some_iff.1 hrecorded
  obtain ⟨hresolved, hfailed⟩ := Prod.mk.inj hpair
  cases hfind.symm.trans hx
  obtain ⟨u, hu, hpath⟩ := Option.map_eq_some_iff.1 hfailed
  refine ⟨⟨_, hx, hresolved, hfailed, himported _ hx⟩, ⟨u.span, ?_⟩, (hmeans _ _ _).1 hlib,
    (hself _ _ _ hlib).2 _⟩
  rw [herror u hu, hpath]

end Registry

end MgLang
