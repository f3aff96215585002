import MgLang.Proofs.Moving
import MgLang.Proofs.TypesAlike
/-!
# What a compilation keeps under a path

Adding a file changes what is kept under one path, and what it does there depends on what is kept
there alone (`entry_addAs`). What an earlier check recorded of the imports does not count as kept: it
is recorded anew by the next (`entry_recordImports`). Everything else that a check looks at does, so
compilations that keep the same give the same report (`Renumbered.check`).

All of this is up to the numbers of expressions, which a compilation hands out as it comes to them.
-/

namespace MgLang

/-! ### Joining the files of a module -/

namespace Module

/-- The module that the next file makes of what stands under its path. -/
def join (existing : Option Module) (m : Module) : Except Diagnostic Module :=
  match existing with
  | none => .ok m
  | some e =>
    if e.package = m.package then .ok (e.merge m)
    else
      .error
        ⟨.moduleConflict m.path e.package.text m.package.text,
          (m.files.head?.map Span.fileStart).getD .null⟩

theorem join_renumber (ρ : Nat → Nat) (existing : Option Module) (m : Module) :
    join (existing.map (·.renumber ρ)) (m.renumber ρ) =
      (join existing m).map (·.renumber ρ) := by
  cases existing with
  | none => rfl
  | some e =>
    have hm : (e.renumber ρ).merge (m.renumber ρ) = (e.merge m).renumber ρ :=
      (renumber_merge e m).symm
    show (if e.package = m.package then _ else _) = Except.map _ (if _ then _ else _)
    split
    · exact congrArg Except.ok hm
    · rfl

/-- The module without what has been recorded of its imports. Of a built-in module nothing is ever
recorded. -/
def unresolved (m : Module) : Module :=
  if m.isBuiltin then m else { m with resolvedImports := [], failedImport := none }

theorem unresolved_of_builtin {m : Module} (h : m.isBuiltin = true) : m.unresolved = m :=
  if_pos h

theorem unresolved_of_source {m : Module} (h : m.isBuiltin = false) :
    m.unresolved = { m with resolvedImports := [], failedImport := none } :=
  if_neg (by simp [h])

@[simp] theorem isBuiltin_unresolved (m : Module) : m.unresolved.isBuiltin = m.isBuiltin := by
  unfold unresolved
  split <;> rfl

@[simp] theorem outline_unresolved (m : Module) : m.unresolved.outline = m.outline := by
  unfold unresolved
  split <;> rfl

@[simp] theorem decls_unresolved (m : Module) : m.unresolved.decls = m.decls := by
  unfold unresolved
  split <;> rfl

theorem unresolved_ofFile (path file : String) (package : Package) (decls : Declarations) :
    (ofFile path package decls file).unresolved = ofFile path package decls file := by
  unfold unresolved
  split <;> rfl

/-- What is recorded of the imports plays no part when another file is joined. -/
theorem join_unresolved (existing : Option Module) {m : Module} (hm : m.unresolved = m) :
    join (existing.map unresolved) m = (join existing m).map unresolved := by
  cases existing with
  | none => exact congrArg Except.ok hm.symm
  | some e =>
    have hp : e.unresolved.package = e.package := by
      unfold unresolved
      split <;> rfl
    have he : e.unresolved.merge m = (e.merge m).unresolved := by
      unfold unresolved
      show _ = if e.isBuiltin then _ else _
      split <;> rfl
    show (if e.unresolved.package = m.package then _ else _) = Except.map _ (if _ then _ else _)
    rw [hp, he]
    split <;> rfl

end Module

namespace Registry

theorem register_of_error {r : Registry} {m : Module} {d : Diagnostic}
    (h : Module.join (r.find? m.path) m = .error d) : r.register m = .error d := by
  unfold Module.join at h
  unfold register
  cases hm : r.find? m.path with
  | none =>
    rw [hm] at h
    cases h
  | some e =>
    rw [hm] at h
    dsimp only at h ⊢
    split at h
    · cases h
    · next hp =>
      cases h
      rw [if_neg hp]

theorem register_of_ok {r : Registry} {m joined : Module}
    (h : Module.join (r.find? m.path) m = .ok joined) :
    ∃ r', r.register m = .ok r' ∧
      ∀ q, r'.find? q = if q = m.path then some joined else r.find? q := by
  unfold Module.join at h
  unfold register
  cases hm : r.find? m.path with
  | none =>
    rw [hm] at h
    cases h
    exact ⟨_, rfl, find?_insert r m⟩
  | some e =>
    rw [hm] at h
    dsimp only at h ⊢
    split at h
    · next hp =>
      cases h
      refine ⟨_, if_pos hp, fun q => (find?_modify r _ _ _ q).trans ?_⟩
      by_cases hq : q = m.path
      · rw [if_pos hq, if_pos hq, hq, hm]
        rfl
      · rw [if_neg hq, if_neg hq]
    · cases h

end Registry

/-! ### Entries -/

namespace Compilation

/-- What is kept under one path. -/
structure Entry where
  /-- The module, apart from what is recorded of its imports. -/
  module : Option Module
  /-- The faults from adding files. -/
  failures : Option (List Diagnostic)

/-- What a compilation keeps under a path. -/
def entry (c : Compilation) (path : String) : Entry :=
  ⟨(c.registry.find? path).map Module.unresolved, c.failures.get? path⟩

namespace Entry

/-- What is kept after a file was added that was read with that outcome. -/
def add (e : Entry) (path file : String) (package : Package)
    (parsed : Except Diagnostic Declarations) : Entry :=
  match parsed.bind fun decls => Module.join e.module (.ofFile path package decls file) with
  | .ok m => { e with module := some m }
  | .error d => { e with failures := some (e.failures.getD [] ++ [d]) }

/-- The same with other numbers. -/
def renumber (ρ : Nat → Nat) (e : Entry) : Entry :=
  { e with module := e.module.map (·.renumber ρ) }

theorem add_renumber (ρ : Nat → Nat) (e : Entry) (path file : String) (package : Package)
    (parsed : Except Diagnostic Declarations) :
    (e.renumber ρ).add path file package (parsed.map (·.renumber ρ)) =
      (e.add path file package parsed).renumber ρ := by
  cases parsed with
  | error d => rfl
  | ok decls =>
    have hj := Module.join_renumber ρ e.module (.ofFile path package decls file)
    rw [Module.renumber_ofFile] at hj
    unfold add
    show (match Module.join (e.module.map (·.renumber ρ))
        (Module.ofFile path package (decls.renumber ρ) file) with
      | .ok m => _
      | .error d => _) = renumber ρ (match Module.join e.module _ with
      | .ok m => _
      | .error d => _)
    rw [hj]
    cases Module.join e.module (.ofFile path package decls file) <;> rfl

end Entry

variable {c : Compilation}

@[simp] theorem nextId_addAs (c : Compilation) (path file text : String) (package : Package) :
    (c.addAs path file text package).nextId = (parseSource file text c.nextId).2 := by
  unfold addAs
  dsimp only
  split <;> rfl

/-- Where a file was refused, a fault is kept. -/
theorem entry_failed (c : Compilation) (path : String) (d : Diagnostic) (sources : Keyed String)
    (nextId : Nat) (q : String) :
    entry ⟨c.registry, sources,
        c.failures.insert path ((c.failures.get? path).getD [] ++ [d]), nextId⟩ q =
      if q = path then { c.entry q with failures := some ((c.entry q).failures.getD [] ++ [d]) }
      else c.entry q := by
  unfold entry
  rw [Keyed.get?_insert]
  by_cases hq : q = path
  · rw [if_pos hq, if_pos hq, hq]
  · rw [if_neg hq, if_neg hq]

/-- What was read is joined to the module, whatever is recorded of the module's imports. -/
theorem entry_add_ok (c : Compilation) (path file : String) (package : Package)
    (decls : Declarations) :
    (c.entry path).add path file package (.ok decls) =
      match Module.join (c.registry.find? path) (.ofFile path package decls file) with
      | .ok m => { c.entry path with module := some m.unresolved }
      | .error d =>
        { c.entry path with failures := some ((c.entry path).failures.getD [] ++ [d]) } := by
  have hu := Module.join_unresolved (c.registry.find? path)
    (Module.unresolved_ofFile path file package decls)
  unfold Entry.add
  show (match Module.join ((c.registry.find? path).map Module.unresolved) _ with
    | .ok m => _
    | .error d => _) = _
  rw [hu]
  cases Module.join (c.registry.find? path) (.ofFile path package decls file) <;> rfl

/-- **Adding a file** changes what is kept under its path, and nothing else. -/
theorem entry_addAs (c : Compilation) (path file text : String) (package : Package) (q : String) :
    (c.addAs path file text package).entry q =
      if q = path then
        (c.entry q).add path file package (parseSource file text c.nextId).1
      else c.entry q := by
  unfold addAs
  generalize parseSource file text c.nextId = parsed
  obtain ⟨outcome, nextId⟩ := parsed
  cases outcome with
  | error d => exact entry_failed c path d _ _ q
  | ok decls =>
    have hb : (Except.ok decls).bind (fun decls =>
        c.registry.register (.ofFile path package decls file)) =
          c.registry.register (.ofFile path package decls file) := rfl
    dsimp only
    rw [hb]
    cases hj : Module.join (c.registry.find? path) (.ofFile path package decls file) with
    | error d =>
      have hr := Registry.register_of_error (m := .ofFile path package decls file) hj
      rw [hr]
      refine (entry_failed c path d _ _ q).trans ?_
      by_cases hq : q = path
      · rw [if_pos hq, if_pos hq, hq, entry_add_ok, hj]
      · rw [if_neg hq, if_neg hq]
    | ok joined =>
      obtain ⟨registry, hr, hfind⟩ :=
        Registry.register_of_ok (m := .ofFile path package decls file) hj
      rw [hr]
      show Entry.mk ((registry.find? q).map _) _ = _
      rw [hfind]
      by_cases hq : q = path
      · refine (congrArg (Entry.mk · _) (congrArg _ (if_pos hq))).trans ?_
        rw [if_pos hq, hq, entry_add_ok, hj]
        rfl
      · rw [if_neg hq]
        exact congrArg (Entry.mk · _) (congrArg _ (if_neg hq))

/-! ### Recording imports -/

theorem mem_sourcePaths_iff {r : Registry} {path : String} :
    path ∈ r.sourceModules.map (·.path) ↔ ∃ m, r.find? path = some m ∧ m.isBuiltin = false := by
  constructor
  · intro h
    obtain ⟨m, hm, rfl⟩ := List.mem_map.1 h
    exact ⟨m, find?_of_mem_sourceModules hm⟩
  · rintro ⟨m, hm, hb⟩
    exact List.mem_map.2 ⟨m, mem_sourceModules hm hb, Registry.path_of_find? hm⟩

/-- The module with these imports recorded, unless it is built in. -/
def resolved (i : Registry.Imports) (m : Module) : Module :=
  if m.isBuiltin then m else Registry.withImports m i

theorem resolved_unresolved (i : Registry.Imports) (m : Module) :
    resolved i m.unresolved = resolved i m := by
  unfold resolved
  rw [Module.isBuiltin_unresolved]
  cases hb : m.isBuiltin with
  | true => rw [Module.unresolved_of_builtin hb]
  | false =>
    rw [Module.unresolved_of_source hb]
    rfl

theorem unresolved_resolved (i : Registry.Imports) (m : Module) :
    (resolved i m).unresolved = m.unresolved := by
  unfold resolved
  cases hb : m.isBuiltin with
  | true => rfl
  | false =>
    have hw : (Registry.withImports m i).isBuiltin = false := hb
    rw [if_neg Bool.false_ne_true, Module.unresolved_of_source hw, Module.unresolved_of_source hb]
    rfl

theorem resolved_renumber (i : Registry.Imports) (ρ : Nat → Nat) (m : Module) :
    resolved i (m.renumber ρ) = (resolved i m).renumber ρ := by
  unfold resolved
  show (if m.isBuiltin then _ else _) = _
  split <;> rfl

/-- Recording imports records those of every module that a source file began. -/
theorem find?_recordImports (c : Compilation) (path : String) :
    c.recordImports.registry.find? path =
      (c.registry.find? path).map (resolved (c.registry.importsOf path)) := by
  refine (Registry.find?_foldl_recordImports _ _).trans ?_
  cases hm : c.registry.find? path with
  | none =>
    split <;> rfl
  | some m =>
    unfold resolved
    cases hb : m.isBuiltin with
    | true =>
      have hp : path ∉ c.registry.sourceModules.map (·.path) := by
        intro hp
        obtain ⟨m', hm', hb'⟩ := mem_sourcePaths_iff.1 hp
        rw [hm, Option.some.injEq] at hm'
        rw [← hm', hb] at hb'
        cases hb'
      rw [if_neg hp, Option.map_some, hb, if_pos rfl]
    | false =>
      rw [if_pos (mem_sourcePaths_iff.2 ⟨m, hm, hb⟩), Option.map_some, Option.map_some, hb]
      rfl

theorem importsOf_recordImports (c : Compilation) (path : String) :
    c.recordImports.registry.importsOf path = c.registry.importsOf path :=
  Registry.importsOf_foldl _ _

/-- What is recorded of imports is not kept. -/
theorem entry_recordImports (c : Compilation) (path : String) :
    c.recordImports.entry path = c.entry path := by
  unfold entry
  rw [find?_recordImports, Option.map_map]
  exact congrArg (Entry.mk · _) (congrArg (Option.map · _) (funext (unresolved_resolved _)))

/-! ### Compilations that keep the same -/

/-- The compilations keep the same under every path, up to the numbers of expressions. -/
def Renumbered (ρ : Nat → Nat) (c c' : Compilation) : Prop :=
  ∀ path, c'.entry path = (c.entry path).renumber ρ

namespace Renumbered

variable {ρ σ : Nat → Nat} {c c' c'' : Compilation}

theorem refl (c : Compilation) : c.Renumbered id c := by
  intro path
  have hm : (c.entry path).module.map (Module.renumber id) = (c.entry path).module := by
    rw [funext Module.renumber_id, Option.map_id']
  exact congrArg (Entry.mk · _) hm.symm

theorem trans (h : c.Renumbered ρ c') (h' : c'.Renumbered σ c'') : c.Renumbered (σ ∘ ρ) c'' := by
  intro path
  rw [h' path, h path]
  refine congrArg (Entry.mk · _) ?_
  show Option.map _ (Option.map _ _) = _
  rw [Option.map_map]
  refine congrArg (Option.map · _) (funext fun m => ?_)
  exact Module.renumber_renumber fun _ _ => rfl

/-- Both compilations are given the same file. -/
theorem addAs {file text : String} (h : c.Renumbered ρ c')
    (hn : ∀ i < exprCount file text, ρ (i + c.nextId) = i + c'.nextId) (path : String)
    (package : Package) :
    (c.addAs path file text package).Renumbered ρ (c'.addAs path file text package) := by
  intro q
  rw [entry_addAs, entry_addAs]
  split
  · rw [h q, parseSource_renumber hn, Entry.add_renumber]
  · exact h q

/-- A module on one side stands on the other, with other numbers and perhaps with other imports
recorded. -/
theorem unresolved (h : c.Renumbered ρ c') (path : String) :
    (c'.registry.find? path).map Module.unresolved =
      ((c.registry.find? path).map Module.unresolved).map (Module.renumber ρ) :=
  congrArg Entry.module (h path)

theorem failures (h : c.Renumbered ρ c') : c'.failures = c.failures :=
  Keyed.ext_get? fun path => congrArg Entry.failures (h path)

theorem alike (h : c.Renumbered ρ c') : c.registry.Alike c'.registry := by
  intro path
  have ho := congrArg (Option.map Module.outline) (h.unresolved path)
  simpa [Function.comp_def] using ho

theorem importsOf (h : c.Renumbered ρ c') (path : String) :
    c'.registry.importsOf path = c.registry.importsOf path := by
  refine h.alike.importsOf ?_
  have hu := congrArg (Option.map (·.decls.usings)) (h.unresolved path)
  have hr (m : Module) : (m.renumber ρ).decls.usings = m.decls.usings := rfl
  simpa [Function.comp_def, hr] using hu

/-- Once imports are recorded, both sides have the same modules. -/
theorem find?_recordImports (h : c.Renumbered ρ c') (path : String) :
    c'.recordImports.registry.find? path =
      (c.recordImports.registry.find? path).map (Module.renumber ρ) := by
  have hr := congrArg (Option.map (resolved (c.registry.importsOf path))) (h.unresolved path)
  simp only [Option.map_map, Function.comp_def, resolved_unresolved, resolved_renumber] at hr
  rw [Compilation.find?_recordImports, Compilation.find?_recordImports, h.importsOf, Option.map_map]
  exact hr

/-- **What a compilation keeps decides what a check says.** -/
theorem check (h : c.Renumbered ρ c') (hρ : Function.Injective ρ) :
    c'.check.1 = c.check.1.renumber ρ := by
  have hfind := h.find?_recordImports
  have hfailures : c'.recordImports.failures = c.recordImports.failures := h.failures
  have halike : c.recordImports.registry.Alike c'.recordImports.registry := by
    intro path
    rw [hfind, Option.map_map]
    exact congrArg (Option.map · _) (funext (Module.outline_renumber ρ))
  have hpaths : c'.recordImports.reportedPaths = c.recordImports.reportedPaths := by
    unfold reportedPaths
    rw [halike.sourcePaths, hfailures]
  have himports (path : String) :
      c'.recordImports.registry.importsOf path = c.recordImports.registry.importsOf path := by
    rw [importsOf_recordImports, importsOf_recordImports, h.importsOf]
  have hfault (path : String) :
      c'.recordImports.importFault? path = c.recordImports.importFault? path := by
    unfold importFault? Registry.importFault?
    rw [himports, hfind, Option.any_map]
    rfl
  have hmodule (path : String) : c'.recordImports.moduleReport path =
      (c.recordImports.moduleReport path).renumber ρ := by
    unfold moduleReport
    dsimp only
    rw [halike.check hρ (hfind path), halike.names (hfind path), hfailures, hfault]
    rfl
  show Report.mk (List.map _ _) = Report.mk (List.map _ (List.map _ _))
  rw [hpaths, List.map_map]
  exact congrArg Report.mk (congrArg (List.map · _) (funext hmodule))

end Renumbered

/-! ### Adding several files -/

/-- A file that is to be added. -/
structure Addition where
  path : String
  file : String
  text : String
  package : Package

/-- The number of expressions in the file. -/
def Addition.count (a : Addition) : Nat :=
  exprCount a.file a.text

/-- Adds one of several files. -/
def apply (c : Compilation) (a : Addition) : Compilation :=
  c.addAs a.path a.file a.text a.package

/-- Adds files one after another. -/
def addAll (c : Compilation) (adds : List Addition) : Compilation :=
  adds.foldl apply c

/-- The compilation without any file, which counts on from `n`. -/
def fresh (n : Nat) : Compilation := { nextId := n }

theorem registry_fresh (n : Nat) : (fresh n).registry = .initial := by
  rw [fresh]

theorem nextId_apply (c : Compilation) (a : Addition) :
    (c.apply a).nextId = a.count + c.nextId := by
  unfold apply
  rw [nextId_addAs, parseSource_eq]
  rfl

theorem le_nextId_addAll (adds : List Addition) : ∀ c : Compilation,
    c.nextId ≤ (c.addAll adds).nextId := by
  induction adds with
  | nil => exact fun c => Nat.le_refl c.nextId
  | cons a adds ih =>
    intro c
    refine Nat.le_trans ?_ (ih (c.apply a))
    rw [nextId_apply]
    exact Nat.le_add_left _ _

theorem entry_apply (c : Compilation) (a : Addition) (q : String) :
    (c.apply a).entry q =
      if q = a.path then
        (c.entry q).add a.path a.file a.package (parseSource a.file a.text c.nextId).1
      else c.entry q :=
  entry_addAs c _ _ _ _ q

theorem Sound.fresh (n : Nat) : (fresh n).Sound :=
  ⟨Registry.counted_initial.mono (Nat.zero_le n), fun _ _ h => nomatch h⟩

theorem Sound.apply (h : c.Sound) (a : Addition) : (c.apply a).Sound :=
  h.addAs _ _ _ _

/-- A renumbering of numbers that have not been handed out changes nothing. -/
theorem entry_renumber_of_counted {n : Nat} (h : c.registry.Counted n) {ρ : Nat → Nat}
    (hρ : ∀ i < n, ρ i = i) (path : String) : (c.entry path).renumber ρ = c.entry path := by
  unfold Entry.renumber entry
  rw [Option.map_map]
  refine congrArg (Entry.mk · _) ?_
  cases hm : c.registry.find? path with
  | none => rfl
  | some m =>
    refine congrArg some (Module.renumber_eq_self fun e he => hρ e.id ?_)
    have hd : m.unresolved.exprs = m.decls.exprs := by
      unfold Module.exprs
      rw [Module.decls_unresolved]
      rfl
    rw [hd] at he
    exact ((h path m hm).bodies.range e he).2

namespace Renumbered

variable {ρ : Nat → Nat} {c c' : Compilation}

/-- Both compilations are given the same files. -/
theorem addAll {adds : List Addition} : ∀ {c c' : Compilation}, c.Renumbered ρ c' →
    (∀ i, i + c.nextId < (c.addAll adds).nextId → ρ (i + c.nextId) = i + c'.nextId) →
    (c.addAll adds).Renumbered ρ (c'.addAll adds) := by
  induction adds with
  | nil => exact fun h _ => h
  | cons a adds ih =>
    intro c c' h hn
    have hle : (c.apply a).nextId ≤ (c.addAll (a :: adds)).nextId := le_nextId_addAll adds _
    have ha := nextId_apply c a
    refine ih (h.addAs (fun i hi => hn i ?_) a.path a.package) fun i hi => ?_
    · exact Nat.lt_of_lt_of_le (by rw [ha]; exact Nat.add_lt_add_right hi _) hle
    · show ρ (i + (c.apply a).nextId) = i + (c'.apply a).nextId
      rw [ha, ← Nat.add_assoc] at hi
      rw [ha, nextId_apply, ← Nat.add_assoc, ← Nat.add_assoc]
      exact hn (i + a.count) hi

end Renumbered

/-! ### Compilations that go on alike -/

/-- The compilations have counted equally far, and keep the same but for the numbers that they have
handed out. -/
structure Interchangeable (c c' : Compilation) : Prop where
  nextId : c'.nextId = c.nextId
  renumbered : ∃ ρ, Function.Injective ρ ∧ (∀ i, c.nextId ≤ i → ρ i = i) ∧ c.Renumbered ρ c'

namespace Interchangeable

variable {c c' c'' : Compilation}

theorem refl (c : Compilation) : c.Interchangeable c :=
  ⟨rfl, id, fun _ _ h => h, fun _ _ => rfl, .refl c⟩

theorem trans (h : c.Interchangeable c') (h' : c'.Interchangeable c'') :
    c.Interchangeable c'' := by
  obtain ⟨hn, ρ, hρ, hid, hr⟩ := h
  obtain ⟨hn', σ, hσ, hid', hr'⟩ := h'
  refine ⟨hn'.trans hn, σ ∘ ρ, hσ.comp hρ, fun i hi => ?_, hr.trans hr'⟩
  rw [Function.comp_apply, hid i hi]
  exact hid' i (hn ▸ hi)

theorem apply (h : c.Interchangeable c') (a : Addition) :
    (c.apply a).Interchangeable (c'.apply a) := by
  obtain ⟨hn, ρ, hρ, hid, hr⟩ := h
  refine ⟨by rw [nextId_apply, nextId_apply, hn], ρ, hρ, fun i hi => ?_, ?_⟩
  · rw [nextId_apply] at hi
    exact hid i (by omega)
  · refine hr.addAs (fun i _ => ?_) a.path a.package
    rw [hn]
    exact hid _ (Nat.le_add_left _ _)

theorem addAll (adds : List Addition) : ∀ {c c' : Compilation}, c.Interchangeable c' →
    (c.addAll adds).Interchangeable (c'.addAll adds) := by
  induction adds with
  | nil => exact fun h => h
  | cons a adds ih => exact fun h => ih (h.apply a)

end Interchangeable

/-! ### Where counting begins -/

/-- Takes `k` numbers from `n` on to those from `n'` on, and all others out of their way. -/
def rebase (n n' k i : Nat) : Nat :=
  if n ≤ i ∧ i < n + k then i - n + n' else i + n' + k

theorem rebase_injective (n n' k : Nat) : Function.Injective (rebase n n' k) := by
  intro i j h
  unfold rebase at h
  split at h <;> split at h <;> omega

/-- The number at which a compilation begins to count plays no part. -/
theorem exists_renumbered_fresh (n n' : Nat) (adds : List Addition) :
    ∃ ρ, Function.Injective ρ ∧
      ((fresh n).addAll adds).Renumbered ρ ((fresh n').addAll adds) := by
  let k := ((fresh n).addAll adds).nextId
  refine ⟨_, rebase_injective n n' k, Renumbered.addAll ?_ ?_⟩
  · intro path
    have h0 : (fresh n).registry.Counted 0 := by
      rw [registry_fresh]
      exact Registry.counted_initial
    exact (entry_renumber_of_counted h0 (fun _ hi => nomatch hi) path).symm
  · intro i hi
    show rebase n n' k (i + n) = i + n'
    have hk : i + n < n + k := Nat.lt_of_lt_of_le hi (Nat.le_add_left _ _)
    rw [rebase, if_pos ⟨Nat.le_add_left n i, hk⟩, Nat.add_sub_cancel]

end Compilation

end MgLang
