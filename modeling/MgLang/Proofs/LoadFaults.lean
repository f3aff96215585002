import Mathlib.Data.List.Perm.Basic
import MgLang.Command
import MgLang.Proofs.History
/-!
# Every fault has its place in a report

The faults from adding files are kept by the path they were added for, those of imports, names and
types are found anew by each check, and a report joins them by path. Of a history alone it can be
said which files were refused, and why (`loadFaults`): a compilation keeps these faults in their
order, whatever else succeeds or fails under the same path (`Filed.performAll`), and a refused file
leaves the modules as they were (`registry_apply_of_fault`).

The main statement is `check_accounts_for_faults`.
-/

namespace MgLang

namespace Keyed

variable {α : Type}

theorem mem_keys_iff {t : Keyed α} {key : String} : key ∈ t.keys ↔ (t.get? key).isSome := by
  constructor
  · intro h
    obtain ⟨e, he, rfl⟩ := List.mem_map.1 h
    rw [get?_of_mem he, Option.isSome_some]
  · intro h
    obtain ⟨value, hv⟩ := Option.isSome_iff_exists.1 h
    exact List.mem_map_of_mem (f := (·.1)) (mem_of_get? hv)

theorem mem_keys_ofList_iff {es : List (String × α)} {key : String} :
    key ∈ (ofList es).keys ↔ key ∈ es.map (·.1) := by
  refine ⟨mem_keys_ofList, ?_⟩
  suffices ∀ (es : List (String × α)) (t : Keyed α), key ∈ t.keys ∨ key ∈ es.map (·.1) →
      key ∈ (es.foldl (fun t e => t.insert e.1 e.2) t).keys from fun h => this es ∅ (.inr h)
  intro es
  induction es with
  | nil => exact fun t h => h.resolve_right List.not_mem_nil
  | cons e es ih =>
    intro t h
    refine ih _ ?_
    rw [mem_keys_iff, get?_insert]
    by_cases he : key = e.1
    · exact .inl (by rw [if_pos he, Option.isSome_some])
    · rw [if_neg he, ← mem_keys_iff]
      exact h.imp_right fun h => (List.mem_cons.1 h).resolve_left he

theorem pairwise_keys (t : Keyed α) : t.keys.Pairwise (· < ·) :=
  List.pairwise_map.2 t.sorted

end Keyed

namespace Compilation

/-! ### Faults from adding files -/

/-- The fault in a file, if it cannot be added: it cannot be read, or the module that it is to be
part of belongs to another package. -/
def loadFault? (c : Compilation) (a : Addition) : Option Diagnostic :=
  match (parseSource a.file a.text c.nextId).1 with
  | .error d => some d
  | .ok _ =>
    match c.registry.find? a.path with
    | none => none
    | some m =>
      if m.package = a.package then none
      else some ⟨.moduleConflict a.path m.package.text a.package.text, .fileStart a.file⟩

/-- The faults from adding files in the course of a history, each with the path of the module that
the file was to be part of. -/
def loadFaults (c : Compilation) : List Action → List (String × Diagnostic)
  | [] => []
  | .add a :: actions =>
    ((c.loadFault? a).map fun d => (a.path, d)).toList ++ (c.apply a).loadFaults actions
  | .check :: actions => c.check.2.loadFaults actions

theorem loadFaults_append (before behind : List Action) : ∀ c : Compilation,
    c.loadFaults (before ++ behind) =
      c.loadFaults before ++ (c.performAll before).loadFaults behind := by
  induction before with
  | nil => exact fun _ => rfl
  | cons action before ih =>
    intro c
    cases action with
    | check => exact ih c.check.2
    | add a =>
      simp only [List.cons_append, loadFaults, ih, List.append_assoc]
      rfl

/-- The faults that are filed under a path. -/
def filedUnder (path : String) (faults : List (String × Diagnostic)) : List Diagnostic :=
  (faults.filter (·.1 == path)).map (·.2)

theorem filedUnder_append (path : String) (faults more : List (String × Diagnostic)) :
    filedUnder path (faults ++ more) = filedUnder path faults ++ filedUnder path more := by
  unfold filedUnder
  rw [List.filter_append, List.map_append]

theorem filedUnder_singleton (path : String) (fault : String × Diagnostic) :
    filedUnder path [fault] = if path = fault.1 then [fault.2] else [] := by
  unfold filedUnder
  by_cases h : path = fault.1
  · simp [h]
  · simp [h, Ne.symm h]

theorem filedUnder_ne_nil {path : String} {faults : List (String × Diagnostic)} :
    filedUnder path faults ≠ [] ↔ path ∈ faults.map (·.1) := by
  simp [filedUnder, List.filter_eq_nil_iff]

/-! ### One file -/

/-- What comes of a file that is read and registered. -/
theorem loadFault?_eq (c : Compilation) (a : Addition) :
    c.loadFault? a =
      match (parseSource a.file a.text c.nextId).1.bind fun decls =>
        c.registry.register (.ofFile a.path a.package decls a.file) with
      | .ok _ => none
      | .error d => some d := by
  unfold loadFault?
  cases (parseSource a.file a.text c.nextId).1 with
  | error d => rfl
  | ok decls =>
    show _ = match c.registry.register (.ofFile a.path a.package decls a.file) with
      | .ok _ => none
      | .error d => some d
    unfold Registry.register
    have hpath : (Module.ofFile a.path a.package decls a.file).path = a.path := rfl
    rw [hpath]
    cases c.registry.find? a.path with
    | none => rfl
    | some m =>
      have hpackage : (Module.ofFile a.path a.package decls a.file).package = a.package := rfl
      dsimp only
      rw [hpackage]
      split <;> rfl

/-- A file that is refused leaves the modules as they were. Its fault is put behind the others of
its path. -/
theorem apply_of_fault {c : Compilation} {a : Addition} {d : Diagnostic}
    (h : c.loadFault? a = some d) :
    (c.apply a).registry = c.registry ∧
      (c.apply a).failures =
        c.failures.insert a.path ((c.failures.get? a.path).getD [] ++ [d]) := by
  rw [loadFault?_eq] at h
  unfold apply addAs
  generalize parseSource a.file a.text c.nextId = parsed at h ⊢
  dsimp only
  generalize (parsed.1.bind fun decls =>
    c.registry.register (.ofFile a.path a.package decls a.file)) = outcome at h ⊢
  cases outcome with
  | ok registry => cases h
  | error d' =>
    cases h
    exact ⟨rfl, rfl⟩

/-- A file that is not refused adds no fault. -/
theorem apply_of_no_fault {c : Compilation} {a : Addition} (h : c.loadFault? a = none) :
    (c.apply a).failures = c.failures := by
  rw [loadFault?_eq] at h
  unfold apply addAs
  generalize parseSource a.file a.text c.nextId = parsed at h ⊢
  dsimp only
  generalize (parsed.1.bind fun decls =>
    c.registry.register (.ofFile a.path a.package decls a.file)) = outcome at h ⊢
  cases outcome with
  | ok registry => rfl
  | error d => cases h

/-! ### A history -/

/-- The faults are those that the compilation keeps, in their order. -/
def Filed (faults : List (String × Diagnostic)) (c : Compilation) : Prop :=
  ∀ path, (c.failures.get? path).getD [] = filedUnder path faults

theorem Filed.apply {faults : List (String × Diagnostic)} {c : Compilation} (h : Filed faults c)
    (a : Addition) :
    Filed (faults ++ ((c.loadFault? a).map fun d => (a.path, d)).toList) (c.apply a) := by
  intro path
  rw [filedUnder_append]
  cases hd : c.loadFault? a with
  | none =>
    rw [apply_of_no_fault hd, h path]
    exact (List.append_nil _).symm
  | some d =>
    rw [(apply_of_fault hd).2, Keyed.get?_insert]
    show _ = _ ++ filedUnder path [(a.path, d)]
    rw [filedUnder_singleton]
    by_cases hp : path = a.path
    · rw [if_pos hp, if_pos hp, hp, h a.path, Option.getD_some]
    · rw [if_neg hp, if_neg hp, h path, List.append_nil]

/-- **The faults of a history are kept**, whatever is added and checked. -/
theorem Filed.performAll {actions : List Action} : ∀ {faults : List (String × Diagnostic)}
    {c : Compilation}, Filed faults c →
    Filed (faults ++ c.loadFaults actions) (c.performAll actions) := by
  induction actions with
  | nil =>
    intro faults c h
    rw [loadFaults, List.append_nil]
    exact h
  | cons action actions ih =>
    intro faults c h
    cases action with
    | check => exact ih (c := c.check.2) h
    | add a =>
      rw [loadFaults, ← List.append_assoc]
      exact ih (h.apply a)

theorem filed_fresh (n : Nat) (actions : List Action) :
    Filed ((fresh n).loadFaults actions) ((fresh n).performAll actions) := by
  have hnone : Filed [] (fresh n) := fun _ => rfl
  exact hnone.performAll

theorem Sound.performAll {actions : List Action} {c : Compilation} (h : c.Sound) :
    (c.performAll actions).Sound :=
  performAll_holds (P := fun _ c => c.Sound) (fun _ _ a h => h.apply a)
    (fun _ _ h => h.recordImports) [] h

/-! ### The report -/

section

variable {faults : List (String × Diagnostic)} {c : Compilation}

theorem Filed.mem_keys_iff (h : Filed faults c) (hc : c.Sound) {path : String} :
    path ∈ c.failures.keys ↔ path ∈ faults.map (·.1) := by
  rw [Keyed.mem_keys_iff, ← filedUnder_ne_nil, ← h path]
  cases hf : c.failures.get? path with
  | none => simp
  | some ds => simpa using hc.failures path ds hf

theorem modules_check (c : Compilation) :
    c.check.1.modules = c.check.2.reportedPaths.map c.check.2.moduleReport :=
  rfl

theorem paths_check (c : Compilation) :
    c.check.1.modules.map (·.module) = c.check.2.reportedPaths := by
  rw [modules_check, List.map_map]
  exact List.map_id' _

theorem mem_reportedPaths_iff {path : String} :
    path ∈ c.reportedPaths ↔
      path ∈ c.registry.sourceModules.map (·.path) ∨ path ∈ c.failures.keys := by
  unfold reportedPaths
  rw [Keyed.mem_keys_ofList_iff, List.map_map]
  simp only [Function.comp_def, List.map_id']
  exact List.mem_append

/-- Recording imports neither adds nor takes away a module from source files. -/
theorem mem_sourcePaths_check {path : String} :
    path ∈ c.check.2.registry.sourceModules.map (·.path) ↔
      path ∈ c.registry.sourceModules.map (·.path) := by
  have hfind : c.check.2.registry.find? path = _ := find?_recordImports c path
  have hb (m : Module) : (resolved (c.registry.importsOf path) m).isBuiltin = m.isBuiltin := by
    unfold resolved
    split <;> rfl
  rw [mem_sourcePaths_iff, mem_sourcePaths_iff, hfind]
  simp [hb]

/-- The faults filed under several paths, as they are reported there, are all faults if no path is
left out. -/
theorem flatMap_filedUnder_perm {paths : List String} : ∀ {faults : List (String × Diagnostic)},
    paths.Nodup → (∀ fault ∈ faults, fault.1 ∈ paths) →
    (paths.flatMap (filedUnder · faults)).Perm (faults.map (·.2)) := by
  induction paths with
  | nil =>
    intro faults _ h
    rw [List.eq_nil_iff_forall_not_mem.2 fun fault hf => List.not_mem_nil (h fault hf)]
    exact .refl _
  | cons path paths ih =>
    intro faults hnodup h
    obtain ⟨hpath, hnodup⟩ := List.nodup_cons.1 hnodup
    have hrest : paths.flatMap (filedUnder · faults) =
        paths.flatMap (filedUnder · (faults.filter fun fault => !(fault.1 == path))) := by
      refine List.flatMap_congr fun q hq => ?_
      unfold filedUnder
      rw [List.filter_filter]
      refine congrArg _ (List.filter_congr fun fault _ => ?_)
      have hne : q ≠ path := fun he => hpath (he ▸ hq)
      by_cases hf : fault.1 = q
      · simp [hf, hne]
      · simp [hf]
    rw [List.flatMap_cons, hrest]
    refine List.Perm.trans (.append_left _ (ih hnodup fun fault hf => ?_)) ?_
    · obtain ⟨hf, hne⟩ := List.mem_filter.1 hf
      exact (List.mem_cons.1 (h fault hf)).resolve_left (by simpa using hne)
    · unfold filedUnder
      rw [← List.map_append]
      exact (List.filter_append_perm _ faults).map _

end

/-- **No fault is lost, counted twice or filed under another path.** In the course of a history, a
file that is refused leaves the registry as it is and puts one fault behind the load faults so far;
a file that is not refused puts none there. A report lists each source module and each path under
which a file was refused once, by name. It shows there the load faults of that path in their order,
then the import fault, if there is one, then those of names and of types, and it shows no others.
There are faults just if their number is positive, and just then the exit code says so. -/
theorem check_accounts_for_faults (n : Nat) (actions : List Action) :
    let c := (fresh n).performAll actions
    let faults := (fresh n).loadFaults actions
    let report := c.check.1
    (∀ before a behind, actions = before ++ .add a :: behind →
      let earlier := (fresh n).performAll before
      let fault? := earlier.loadFault? a
      (fault?.isSome → (earlier.apply a).registry = earlier.registry) ∧
      faults = (fresh n).loadFaults before ++ (fault?.map fun d => (a.path, d)).toList ++
        (earlier.apply a).loadFaults behind) ∧
    (report.modules.map (·.module)).Pairwise (· < ·) ∧
    (∀ path, path ∈ report.modules.map (·.module) ↔
      path ∈ c.registry.sourceModules.map (·.path) ∨ path ∈ faults.map (·.1)) ∧
    (∀ rep ∈ report.modules,
      rep.names = c.check.2.registry.names rep.module ∧
      rep.types = c.check.2.registry.check rep.names ∧
      rep.diagnostics =
        filedUnder rep.module faults ++ (c.check.2.importFault? rep.module).toList ++
          rep.names.errors.toList ++ rep.types.errors) ∧
    report.diagnostics.Perm
      (faults.map (·.2) ++ report.modules.flatMap fun rep =>
        (c.check.2.importFault? rep.module).toList ++ rep.names.errors.toList ++
          rep.types.errors) ∧
    report.errorCount = report.diagnostics.length ∧
    (report.hasErrors = true ↔ 0 < report.errorCount) ∧
    ((Command.reportOutcome c.check.2 report).exitCode ≠ 0 ↔ 0 < report.errorCount) := by
  intro c faults report
  have hfiled : Filed faults c.check.2 := filed_fresh n actions
  have hsound : c.check.2.Sound := (Sound.performAll (Sound.fresh n)).recordImports
  have hpaths : report.modules.map (·.module) = c.check.2.reportedPaths := paths_check c
  have hascending : (report.modules.map (·.module)).Pairwise (· < ·) := by
    rw [hpaths]
    exact Keyed.pairwise_keys _
  have hmem (path : String) : path ∈ report.modules.map (·.module) ↔
      path ∈ c.registry.sourceModules.map (·.path) ∨ path ∈ faults.map (·.1) := by
    rw [hpaths, mem_reportedPaths_iff, mem_sourcePaths_check, hfiled.mem_keys_iff hsound]
  have hentry : ∀ rep ∈ report.modules,
      rep.names = c.check.2.registry.names rep.module ∧
      rep.types = c.check.2.registry.check rep.names ∧
      rep.diagnostics =
        filedUnder rep.module faults ++ (c.check.2.importFault? rep.module).toList ++
          rep.names.errors.toList ++ rep.types.errors := by
    intro rep hrep
    obtain ⟨path, -, rfl⟩ := List.mem_map.1 hrep
    refine ⟨rfl, rfl, ?_⟩
    rw [← hfiled]
    rfl
  have herrors : report.hasErrors = true ↔ 0 < report.errorCount := by
    rw [report.hasErrors_iff, report.errorCount_eq, List.length_pos_iff]
  refine ⟨?_, hascending, hmem, hentry, ?_, report.errorCount_eq, herrors, ?_⟩
  · rintro before a behind rfl earlier fault?
    refine ⟨fun hfault => ?_, ?_⟩
    · obtain ⟨d, hd⟩ := Option.isSome_iff_exists.1 hfault
      exact (apply_of_fault hd).1
    · rw [List.append_assoc]
      exact loadFaults_append before (.add a :: behind) (fresh n)
  · have hnodup : (report.modules.map (·.module)).Nodup := hascending.imp String.ne_of_lt
    have hall : ∀ fault ∈ faults, fault.1 ∈ report.modules.map (·.module) :=
      fun fault hf => (hmem _).2 (.inr (List.mem_map_of_mem hf))
    have hload := flatMap_filedUnder_perm hnodup hall
    rw [List.flatMap_map] at hload
    have hsplit : report.diagnostics = report.modules.flatMap fun rep =>
        filedUnder rep.module faults ++ ((c.check.2.importFault? rep.module).toList ++
          rep.names.errors.toList ++ rep.types.errors) := by
      refine List.flatMap_congr fun rep hrep => ?_
      rw [(hentry rep hrep).2.2]
      simp only [List.append_assoc]
    rw [hsplit]
    exact (List.flatMap_append_perm _ _ _).symm.trans (hload.append_right _)
  · rw [← herrors]
    unfold Command.reportOutcome
    split
    · next h => simp [h]
    · next h => simp [h]

/-- A file that cannot be read, under the path of one that can. -/
def broken : Addition :=
  ⟨"lib", "broken.mg", "fn", .root "app"⟩

/-- A file of another package under that path. -/
def foreign : Addition :=
  ⟨"lib", "foreign.mg", "fn h() \x7b \x7d", .dependency "app"⟩

/-- Both are refused, and the first is before a check and the other behind it. -/
def refusals : List Action :=
  [.add callee, .add broken, .check, .add foreign, .add caller]

theorem refusals_run :
    ((fresh 0).loadFaults refusals).map (fun fault => (fault.1, fault.2.cause)) =
        [("lib", .unexpectedTokenDetailed "EOF" "expected function name"),
          ("lib", .moduleConflict "lib" "package app" "dependency app")] ∧
      ((fresh 0).performAll refusals).check.1.errorCount = 3 ∧
      (((fresh 0).performAll [.add callee]).loadFault? broken).isSome = true := by
  decide +kernel

/-- Both faults are reported, next to one in the types of another module, and neither file has left
anything in the registry. -/
theorem check_accounts_for_faults_refusals :
    let c := (fresh 0).performAll refusals
    (∀ path, path ∈ c.check.1.modules.map (·.module) ↔
      path ∈ c.registry.sourceModules.map (·.path) ∨ path ∈ ["lib", "lib"]) ∧
    (((fresh 0).performAll [.add callee]).apply broken).registry =
      ((fresh 0).performAll [.add callee]).registry ∧
    (Command.reportOutcome c.check.2 c.check.1).exitCode ≠ 0 := by
  intro c
  obtain ⟨hfaults, hcount, hbroken⟩ := refusals_run
  obtain ⟨hsteps, -, hpaths, -, -, -, -, hexit⟩ := check_accounts_for_faults 0 refusals
  have hlib : ((fresh 0).loadFaults refusals).map (·.1) = ["lib", "lib"] := by
    have h := congrArg (List.map (·.1)) hfaults
    rwa [List.map_map] at h
  refine ⟨fun path => ?_, ?_, ?_⟩
  · rw [← hlib]
    exact hpaths path
  · exact (hsteps [.add callee] broken [.check, .add foreign, .add caller] rfl).1 hbroken
  · refine hexit.2 ?_
    rw [hcount]
    decide

end Compilation

end MgLang
