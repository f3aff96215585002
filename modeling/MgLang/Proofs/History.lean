import MgLang.Proofs.Entries
/-!
# What a history leaves behind

A compilation is given files and is checked, in any order. Of this history a report shows which files
each module was given, in which order, and no more.

Files of different modules can be given in any order (`check_of_sameByPath`). Two neighbours change
places (`interchangeable_swap`), so a file moves in front of all files of other modules
(`interchangeable_front`), and so any order in which each module gets its files in turn can be made
from any other (`interchangeable_addAll`). What changes are the numbers that expressions get.

A check in between leaves no trace either (`check_of_history`): what it has recorded is recorded anew
by the next (`interchangeable_check`).
-/

namespace MgLang.Compilation

variable {c : Compilation}

/-! ### Neighbours -/

/-- Lets the `k` numbers from `n` on change places with the `l` numbers behind them. -/
def swapBlocks (n k l i : Nat) : Nat :=
  if i < n then i else if i < n + k then i + l else if i < n + k + l then i - k else i

section

variable {n k l i : Nat}

theorem swapBlocks_injective (n k l : Nat) : Function.Injective (swapBlocks n k l) := by
  intro i j h
  unfold swapBlocks at h
  grind

theorem swapBlocks_before (h : i < n) : swapBlocks n k l i = i :=
  if_pos h

theorem swapBlocks_behind (h : n + k + l ≤ i) : swapBlocks n k l i = i := by
  rw [swapBlocks, if_neg (by omega), if_neg (by omega), if_neg (by omega)]

theorem swapBlocks_first (h : i < k) : swapBlocks n k l (i + n) = i + (l + n) := by
  rw [swapBlocks, if_neg (by omega), if_pos (by omega)]
  omega

theorem swapBlocks_second (h : i < l) : swapBlocks n k l (i + (k + n)) = i + n := by
  rw [swapBlocks, if_neg (by omega), if_neg (by omega), if_pos (by omega)]
  omega

end

/-- Two neighbours of different modules change places. -/
theorem interchangeable_swap (hc : c.Sound) {a b : Addition} (hne : a.path ≠ b.path) :
    ((c.apply a).apply b).Interchangeable ((c.apply b).apply a) := by
  refine ⟨?_, swapBlocks c.nextId a.count b.count, swapBlocks_injective _ _ _, ?_, ?_⟩
  · simp only [nextId_apply]
    omega
  · intro i hi
    simp only [nextId_apply] at hi
    exact swapBlocks_behind (by omega)
  · have hkept (q : String) := entry_renumber_of_counted hc.counted
      (ρ := swapBlocks c.nextId a.count b.count) (fun _ hi => swapBlocks_before hi) q
    intro q
    simp only [entry_apply, nextId_apply]
    by_cases ha : q = a.path
    · have hb : q ≠ b.path := fun h => hne (ha.symm.trans h)
      rw [if_pos ha, if_neg hb, if_neg hb, if_pos ha, ← Entry.add_renumber, hkept]
      exact congrArg _ (parseSource_renumber fun _ hi => swapBlocks_first hi)
    · rw [if_neg ha, if_neg ha]
      by_cases hb : q = b.path
      · rw [if_pos hb, if_pos hb, ← Entry.add_renumber, hkept]
        exact congrArg _ (parseSource_renumber fun _ hi => swapBlocks_second hi)
      · rw [if_neg hb, if_neg hb, hkept]

/-- A file goes in front of all files of other modules. -/
theorem interchangeable_front {a : Addition} {before : List Addition}
    (hne : ∀ b ∈ before, b.path ≠ a.path) : ∀ {c : Compilation}, c.Sound →
    ((c.apply a).addAll before).Interchangeable ((c.addAll before).apply a) := by
  induction before with
  | nil => exact fun _ => .refl _
  | cons b before ih =>
    intro c hc
    obtain ⟨hb, hbefore⟩ := List.forall_mem_cons.1 hne
    have hswap := (interchangeable_swap hc (Ne.symm hb)).addAll before
    exact hswap.trans (ih hbefore (hc.apply b))

/-! ### Any order -/

/-- Each module gets the same files in the same order. -/
def SameByPath (adds adds' : List Addition) : Prop :=
  ∀ path, adds.filter (·.path == path) = adds'.filter (·.path == path)

/-- What is added first on one side is added on the other behind files of other modules only. -/
theorem SameByPath.exists_of_cons {a : Addition} {adds adds' : List Addition}
    (h : SameByPath (a :: adds) adds') :
    ∃ before behind, adds' = before ++ a :: behind ∧ (∀ b ∈ before, b.path ≠ a.path) ∧
      SameByPath adds (before ++ behind) := by
  have ha := h a.path
  rw [List.filter_cons_of_pos (by simp)] at ha
  obtain ⟨before, behind, rfl, hbefore, -, hbehind⟩ := List.filter_eq_cons_iff.1 ha.symm
  refine ⟨before, behind, rfl, fun b hb => by simpa using hbefore b hb, fun path => ?_⟩
  by_cases hp : a.path = path
  · subst hp
    rw [List.filter_append, List.filter_eq_nil_iff.2 hbefore, hbehind]
    rfl
  · have hskip (as : List Addition) :
        (a :: as).filter (·.path == path) = as.filter (·.path == path) :=
      List.filter_cons_of_neg (by simpa using hp)
    have hpath := h path
    rw [hskip, List.filter_append, hskip, ← List.filter_append] at hpath
    exact hpath

theorem interchangeable_addAll {adds : List Addition} : ∀ {adds' : List Addition},
    SameByPath adds adds' → ∀ {c : Compilation}, c.Sound →
    (c.addAll adds).Interchangeable (c.addAll adds') := by
  induction adds with
  | nil =>
    intro adds' h c _
    cases adds' with
    | nil => exact .refl c
    | cons a adds' =>
      have ha := h a.path
      rw [List.filter_cons_of_pos (by simp)] at ha
      cases ha
  | cons a adds ih =>
    intro adds' h c hc
    obtain ⟨before, behind, rfl, hne, hrest⟩ := h.exists_of_cons
    have hfront := (interchangeable_front hne hc).addAll behind
    have hrest := ih hrest (hc.apply a)
    unfold Compilation.addAll at *
    rw [List.foldl_append] at hrest ⊢
    exact hrest.trans hfront

/-- **The order in which modules are loaded does not matter.** If each module gets the same files in
the same order, a check gives the same report: the same modules in the same order, with the same
faults in the same order, the same references and the same types. It does not matter either how many
expressions have been numbered before. -/
theorem check_of_sameByPath {adds adds' : List Addition} (h : SameByPath adds adds') (n n' : Nat) :
    ∃ ρ, Function.Injective ρ ∧
      ((fresh n').addAll adds').check.1 = (((fresh n).addAll adds).check.1).renumber ρ := by
  obtain ⟨-, ρ, hρ, -, hr⟩ := interchangeable_addAll h (Sound.fresh n)
  obtain ⟨σ, hσ, hs⟩ := exists_renumbered_fresh n n' adds'
  exact ⟨σ ∘ ρ, hσ.comp hρ, (hr.trans hs).check (hσ.comp hρ)⟩

/-- A file that calls a function of another module. -/
def caller : Addition :=
  ⟨"main", "main.mg", "using lib; fn f() \x7b g(1); \x7d", .root "app"⟩

/-- The file with that function. -/
def callee : Addition :=
  ⟨"lib", "lib.mg", "fn g(b: bool) \x7b \x7d", .root "app"⟩

theorem caller_run :
    (((fresh 0).apply caller).check.1).diagnostics.map (·.cause) = [.moduleNotFound "lib"] ∧
      (((fresh 0).addAll [caller, callee]).check.1).diagnostics.map (·.cause) =
        [.typeMismatch "bool" "int"] := by
  decide +kernel

/-- The file that is called can be given before the one that calls it or after. -/
theorem check_of_sameByPath_caller :
    SameByPath [caller, callee] [callee, caller] ∧
      (((fresh 1024).addAll [callee, caller]).check.1).diagnostics.map (·.cause) =
        [.typeMismatch "bool" "int"] := by
  have hsame : SameByPath [caller, callee] [callee, caller] := by
    intro path
    by_cases hcaller : "main" = path
    · subst hcaller
      rfl
    · have hn : (caller.path == path) = false := beq_eq_false_iff_ne.2 hcaller
      simp only [List.filter_cons, hn, Bool.false_eq_true, if_false]
  obtain ⟨ρ, -, h⟩ := check_of_sameByPath hsame 0 1024
  refine ⟨hsame, ?_⟩
  rw [h, Report.diagnostics_renumber]
  exact caller_run.2

/-! ### Checks in between -/

/-- What is done with a compilation. -/
inductive Action where
  | add (a : Addition)
  | check

/-- Does one thing. -/
def perform (c : Compilation) : Action → Compilation
  | .add a => c.apply a
  | .check => c.check.2

/-- Does one thing after another. -/
def performAll (c : Compilation) (actions : List Action) : Compilation :=
  actions.foldl perform c

/-- The files that are given, without the checks. -/
def additions : List Action → List Addition
  | [] => []
  | .add a :: actions => a :: additions actions
  | .check :: actions => additions actions

/-- What is true of the files so far and the compilation, and stays true when a file is added and
with each check, is true after everything that is done. -/
theorem performAll_holds {P : List Addition → Compilation → Prop}
    (hadd : ∀ adds c a, P adds c → P (adds ++ [a]) (c.apply a))
    (hcheck : ∀ adds c, P adds c → P adds c.check.2) {actions : List Action} :
    ∀ (adds : List Addition) {c : Compilation}, P adds c →
      P (adds ++ additions actions) (c.performAll actions) := by
  induction actions with
  | nil =>
    intro adds c h
    rw [additions, List.append_nil]
    exact h
  | cons action actions ih =>
    intro adds c h
    cases action with
    | check => exact ih adds (hcheck adds c h)
    | add a =>
      rw [additions, List.append_cons]
      exact ih (adds ++ [a]) (hadd adds c a h)

/-- A check changes nothing that is kept. -/
theorem renumbered_check (c : Compilation) : c.Renumbered id c.check.2 :=
  fun path => (entry_recordImports c path).trans (Renumbered.refl c path)

theorem interchangeable_check (c : Compilation) : c.Interchangeable c.check.2 :=
  ⟨rfl, id, fun _ _ h => h, fun _ _ => rfl, renumbered_check c⟩

theorem interchangeable_performAll {actions : List Action} : ∀ {c c' : Compilation},
    c.Interchangeable c' → (c.addAll (additions actions)).Interchangeable (c'.performAll actions) := by
  induction actions with
  | nil => exact fun h => h
  | cons action actions ih =>
    intro c c' h
    cases action with
    | add a => exact ih (h.apply a)
    | check => exact ih (h.trans (interchangeable_check c'))

theorem failed_resolveUsings_eq_none {r : Registry} {importer : String} {us : List Using} :
    (r.resolveUsings importer us).failed = none ↔
      ∀ u ∈ us, (r.resolveImport? u.path importer).isSome := by
  induction us with
  | nil => simp [Registry.resolveUsings]
  | cons u us ih =>
    unfold Registry.resolveUsings
    cases hu : r.resolveImport? u.path importer with
    | none => simp [hu]
    | some path => simp [hu, ih]

/-- A module has no failed import after a check just if all of its imports name a module by then. -/
theorem importFailed_check {c : Compilation} {path : String} {m : Module}
    (hm : c.check.2.registry.find? path = some m) (hb : m.isBuiltin = false) :
    m.importFailed = false ↔
      ∀ u ∈ m.decls.usings, (c.registry.resolveImport? u.path path).isSome := by
  replace hm := (find?_recordImports c path).symm.trans hm
  obtain ⟨m₀, hm₀, rfl⟩ := Option.map_eq_some_iff.1 hm
  unfold resolved at hb ⊢
  cases hb₀ : m₀.isBuiltin with
  | true =>
    rw [if_pos hb₀, hb₀] at hb
    cases hb
  | false =>
    have hi : c.registry.importsOf path = c.registry.resolveUsings path m₀.decls.usings := by
      unfold Registry.importsOf
      rw [hm₀]
    rw [if_neg Bool.false_ne_true, hi]
    refine Iff.trans ?_ failed_resolveUsings_eq_none
    unfold Module.importFailed Registry.withImports
    simp

/-- **A check leaves no stale state behind.** Whatever files have been given and whatever checks
have been made in between, a check reports what it reports on a compilation that has been given the
same files and has never been checked, and it leaves the same modules. To check again gives the same
report. An import has failed after a check just if it names no module by then, whatever earlier
checks have found. -/
theorem check_of_history (n n' : Nat) (actions : List Action) :
    let c := (fresh n).performAll actions
    let once := (fresh n').addAll (additions actions)
    (∃ ρ, Function.Injective ρ ∧ c.check.1 = once.check.1.renumber ρ ∧
      ∀ path, c.check.2.registry.find? path =
        (once.check.2.registry.find? path).map (Module.renumber ρ)) ∧
    c.check.2.check.1 = c.check.1 ∧
    ∀ path m, c.check.2.registry.find? path = some m → m.isBuiltin = false →
      (m.importFailed = false ↔
        ∀ u ∈ m.decls.usings, (once.registry.resolveImport? u.path path).isSome) := by
  intro c once
  obtain ⟨ρ, hρ, hr⟩ : ∃ ρ, Function.Injective ρ ∧ once.Renumbered ρ c := by
    obtain ⟨σ, hσ, hs⟩ := exists_renumbered_fresh n' n (additions actions)
    have hp : ((fresh n).addAll (additions actions)).Interchangeable c :=
      interchangeable_performAll (.refl (fresh n))
    obtain ⟨-, τ, hτ, -, ht⟩ := hp
    exact ⟨τ ∘ σ, hτ.comp hσ, hs.trans ht⟩
  refine ⟨⟨ρ, hρ, hr.check hρ, hr.find?_recordImports⟩, ?_, fun path m hm hb => ?_⟩
  · rw [(renumbered_check c).check (fun _ _ h => h), Report.renumber_id]
  · rw [importFailed_check hm hb]
    simp only [hr.alike.resolveImport?]

/-- An import that names nothing when it is first checked is no fault any more once its module has
been added, and what is behind it comes to light. -/
theorem check_of_history_caller :
    (((fresh 0).perform (.add caller)).check.1).diagnostics.map (·.cause) =
        [.moduleNotFound "lib"] ∧
      (((fresh 0).performAll [.add caller, .check, .add callee]).check.1).diagnostics.map (·.cause) =
        [.typeMismatch "bool" "int"] := by
  refine ⟨caller_run.1, ?_⟩
  obtain ⟨⟨ρ, -, h, -⟩, -, -⟩ := check_of_history 0 0 [.add caller, .check, .add callee]
  rw [h, Report.diagnostics_renumber]
  exact caller_run.2

end MgLang.Compilation
