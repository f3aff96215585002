import MgLang.Proofs.CursorLookup
import MgLang.Proofs.Staying
/-!
# Faults can be found

Whatever a check reports can be found in a file: the main statement is `diagnostics_located`. When
files with different names have been added, the place of a fault is in a file that was added to the
module for which it is reported, and the fault is shown with a line of that file.

The places of what the files of a module declare and the faults from adding them are kept by path
(`Entry.places`), and each is in one of the files (`Located`). A report shows faults at these places
only (`moduleReport_places`). That a place in a file has a line is `exists_lineAt?`.
-/

namespace MgLang

/-! ### Lines -/

namespace Line

/-- The line is part of the text, and the offset leads to the given byte of it, or, where the text
ends, to somewhere in the line or its end. -/
structure StandsIn (line : Line) (text : List Char) (position : Nat) : Prop where
  part : ∃ front behind, text = front ++ (line.text ++ behind) ∧
    (byteLength front + line.offset = position ∨ position = byteLength text)
  offset_le : line.offset ≤ byteLength line.text

/-- How much of the line is left out where it is shown. It is counted in characters. -/
def indent (line : Line) : Nat :=
  (line.text.takeWhile Diagnostic.isIndent).length

theorem byteLength_takeWhile_isIndent (cs : List Char) :
    byteLength (cs.takeWhile Diagnostic.isIndent) = (cs.takeWhile Diagnostic.isIndent).length := by
  induction cs with
  | nil => rfl
  | cons c cs ih =>
    rw [List.takeWhile_cons]
    split
    · next hc =>
      have hsize : c.utf8Size = 1 := by
        unfold Diagnostic.isIndent at hc
        rcases Bool.or_eq_true_iff.1 hc with hc | hc
        · rw [eq_of_beq hc]
          rfl
        · rw [eq_of_beq hc]
          rfl
      rw [byteLength_cons, List.length_cons, ih, hsize, Nat.add_comm]
    · rfl

/-- What is left out takes one byte for each character, so the rest begins at a byte of that
number. -/
theorem slice_indent (line : Line) :
    Slice line.text line.indent (byteLength line.text) (line.text.drop line.indent) [] := by
  have hcut : line.text.takeWhile Diagnostic.isIndent ++ line.text.drop line.indent =
      line.text := by
    have htake : line.text.take line.indent = line.text.takeWhile Diagnostic.isIndent :=
      (List.prefix_iff_eq_take.1 (List.takeWhile_prefix _)).symm
    rw [← htake, List.take_append_drop]
  have hindent := byteLength_takeWhile_isIndent line.text
  refine ⟨line.text.takeWhile Diagnostic.isIndent, ?_, hindent, ?_⟩
  · rw [List.append_nil, hcut]
  · have hlength := congrArg byteLength hcut
    rw [byteLength_append, hindent] at hlength
    exact hlength

end Line

theorem lineWithin?_standsIn {lines : List (List Char)} {number position : Nat} {line : Line}
    (h : lineWithin? number position lines = some line) :
    line.StandsIn lines.flatten position := by
  induction lines generalizing number position with
  | nil => cases h
  | cons l ls ih =>
    unfold lineWithin? at h
    split at h
    · next hlt =>
      cases h
      exact ⟨⟨[], ls.flatten, rfl, .inl (Nat.zero_add _)⟩, Nat.le_of_lt hlt⟩
    · next hge =>
      obtain ⟨⟨front, behind, htext, hoffset⟩, hle⟩ := ih h
      refine ⟨⟨l ++ front, behind, ?_, ?_⟩, hle⟩
      · rw [List.flatten_cons, htext, List.append_assoc]
      · rw [List.flatten_cons, byteLength_append, byteLength_append]
        omega

/-- A byte that is in none of the lines is behind them. -/
theorem le_of_lineWithin?_eq_none {lines : List (List Char)} {number position : Nat}
    (h : lineWithin? number position lines = none) : byteLength lines.flatten ≤ position := by
  induction lines generalizing number position with
  | nil => exact Nat.zero_le _
  | cons l ls ih =>
    unfold lineWithin? at h
    split at h
    · cases h
    · have := ih h
      rw [List.flatten_cons, byteLength_append]
      omega

theorem withoutEnding_prefix (line : List Char) : withoutEnding line <+: line := by
  unfold withoutEnding
  split
  · next r h =>
    exact ⟨['\r', '\n'], by rw [← List.reverse_reverse line, h]; simp⟩
  · next r _ h =>
    exact ⟨['\n'], by rw [← List.reverse_reverse line, h]; simp⟩
  · exact List.prefix_refl _

theorem lastLine_standsIn (lines : List (List Char)) :
    (lastLine lines).StandsIn lines.flatten (byteLength lines.flatten) := by
  refine ⟨?_, Nat.le_refl _⟩
  rcases List.eq_nil_or_concat lines with rfl | ⟨before, last, rfl⟩
  · exact ⟨[], [], rfl, .inr rfl⟩
  · obtain ⟨ending, hlast⟩ := withoutEnding_prefix last
    refine ⟨before.flatten, ending, ?_, .inr rfl⟩
    simp [lastLine, hlast]

/-- Up to the end of a text, every byte has a line. -/
theorem exists_lineAt? {text : List Char} {position : Nat} (h : position ≤ byteLength text) :
    ∃ line, lineAt? text position = some line ∧ line.StandsIn text position := by
  unfold lineAt?
  rw [if_neg (Nat.not_lt.2 h)]
  refine ⟨_, rfl, ?_⟩
  have hflatten := flatten_segments text
  cases hl : lineWithin? 1 position (segments text) with
  | some line =>
    have hline := lineWithin?_standsIn hl
    rwa [hflatten] at hline
  | none =>
    have hend := le_of_lineWithin?_eq_none hl
    have hline := lastLine_standsIn (segments text)
    rw [hflatten] at hend hline
    rw [Nat.le_antisymm h hend]
    exact hline

/-! ### Places that are kept -/

namespace Module

theorem mem_addUsings {known us : List Using} {u : Using} (h : u ∈ addUsings known us) :
    u ∈ known ∨ u ∈ us := by
  induction us generalizing known with
  | nil => exact .inl h
  | cons v us ih =>
    unfold addUsings at h
    split at h
    · exact (ih h).imp_right (List.mem_cons_of_mem v)
    · have := ih h
      grind

theorem places_unresolved (m : Module) : m.unresolved.places = m.places := by
  rw [places, decls_unresolved]
  rfl

/-- A merged module has the places of both. -/
theorem mem_places_merge {m other : Module} {p : Span} (h : p ∈ (m.merge other).places) :
    p ∈ m.places ∨ p ∈ other.places := by
  unfold places Declarations.places merge at h
  simp only [List.flatMap_append, List.mem_append, List.mem_map] at h
  unfold places Declarations.places
  simp only [List.mem_append, List.mem_map]
  rcases h with ⟨u, hu, rfl⟩ | h
  · have := mem_addUsings hu
    grind
  · grind

end Module

namespace Compilation

/-- The places of the module that is kept under a path, and of the faults that are. -/
def Entry.places (e : Entry) : List Span :=
  (e.module.map Module.places).getD [] ++ (e.failures.getD []).map (·.span)

/-- With a file come the places that it declares something at, or the place of what is wrong with
it. -/
theorem Entry.mem_places_add {e : Entry} {path file : String} {package : Package}
    {parsed : Except Diagnostic Declarations} {p : Span}
    (h : p ∈ (e.add path file package parsed).places) :
    p ∈ e.places ∨ (∃ d, parsed = .error d ∧ p = d.span) ∨
      (∃ d, parsed = .ok d ∧ p ∈ d.places) ∨ p = .fileStart file := by
  have hfault (d : Diagnostic)
      (h : p ∈ Entry.places { e with failures := some (e.failures.getD [] ++ [d]) }) :
      p ∈ e.places ∨ p = d.span := by
    simpa [places, or_assoc] using h
  cases parsed with
  | error d => exact (hfault d h).imp_right fun h => .inl ⟨d, rfl, h⟩
  | ok decls =>
    obtain ⟨existing, failures⟩ := e
    cases existing with
    | none =>
      rcases List.mem_append.1 h with h | h
      · exact .inr (.inr (.inl ⟨decls, rfl, h⟩))
      · exact .inl h
    | some m =>
      unfold Entry.add Except.bind Module.join at h
      have hpackage : (Module.ofFile path package decls file).package = package := rfl
      simp only [hpackage] at h
      by_cases hp : m.package = package
      · rw [if_pos hp] at h
        rcases List.mem_append.1 h with h | h
        · rcases Module.mem_places_merge h with h | h
          · exact .inl (List.mem_append_left _ h)
          · exact .inr (.inr (.inl ⟨decls, rfl, h⟩))
        · exact .inl (List.mem_append_right _ h)
      · rw [if_neg hp] at h
        exact (hfault _ h).imp_right fun h => .inr (.inr h)

/-- The file as an extent. -/
def Addition.extent (a : Addition) : Extent :=
  ⟨a.file, byteLength a.text.toList⟩

/-- All that is kept under a path is in files that were added there. -/
def Located (adds : List Addition) (c : Compilation) : Prop :=
  ∀ path, ∀ p ∈ (c.entry path).places, ∃ a ∈ adds, a.path = path ∧ a.extent.Holds p

namespace Located

variable {adds : List Addition} {c : Compilation}

theorem fresh (n : Nat) : Located [] (fresh n) := by
  intro path p hp
  have hplaces : ((Compilation.fresh n).entry path).places = [] := by
    unfold Entry.places entry
    rw [registry_fresh, Registry.find?_initial]
    split <;> rfl
  rw [hplaces] at hp
  cases hp

theorem apply (h : Located adds c) (a : Addition) : Located (adds ++ [a]) (c.apply a) := by
  have hold (path : String) (p : Span) (hp : p ∈ (c.entry path).places) :
      ∃ b ∈ adds ++ [a], b.path = path ∧ b.extent.Holds p := by
    obtain ⟨b, hb, hpath, hp⟩ := h path p hp
    exact ⟨b, List.mem_append_left _ hb, hpath, hp⟩
  intro path p hp
  rw [entry_apply] at hp
  split at hp
  · next hpath =>
    obtain ⟨herror, hok⟩ := parseSource_stays a.file a.text c.nextId
    have hnew : a.extent.Holds p → ∃ b ∈ adds ++ [a], b.path = path ∧ b.extent.Holds p :=
      fun hp => ⟨a, by simp, hpath.symm, hp⟩
    rcases Entry.mem_places_add hp with hp | ⟨d, hd, rfl⟩ | ⟨d, hd, hp⟩ | rfl
    · exact hold path p hp
    · exact hnew (herror d hd)
    · exact hnew (hok d hd p hp)
    · exact hnew ⟨rfl, Nat.le_refl _, Nat.zero_le _⟩
  · exact hold path p hp

theorem check (h : Located adds c) : Located adds c.check.2 := by
  intro path p hp
  have he : c.check.2.entry path = c.entry path := entry_recordImports c path
  rw [he] at hp
  exact h path p hp

/-- Whatever is added and checked, it stays so. -/
theorem performAll (n : Nat) (actions : List Action) :
    Located (additions actions) ((Compilation.fresh n).performAll actions) :=
  performAll_holds (P := Located) (fun _ _ a h => h.apply a) (fun _ _ h => h.check) [] (fresh n)

end Located

/-- The faults that are reported under a path are at places that are kept there. -/
theorem moduleReport_places (c : Compilation) (path : String) :
    ∀ d ∈ (c.moduleReport path).diagnostics, d.span ∈ (c.entry path).places := by
  have hload : ∀ d ∈ (c.failures.get? path).getD [], d.span ∈ (c.entry path).places :=
    fun d hd => List.mem_append_right _ (List.mem_map_of_mem hd)
  have hrest : (∀ d ∈ (c.importFault? path).toList, d.span ∈ (c.entry path).places) ∧
      (∀ d ∈ (c.registry.names path).errors.toList, d.span ∈ (c.entry path).places) ∧
      ∀ d ∈ (c.registry.check (c.registry.names path)).errors, d.span ∈ (c.entry path).places := by
    cases hm : c.registry.find? path with
    | none =>
      have himports : c.importFault? path = none := by simp [importFault?, hm]
      have hnames : c.registry.names path = { module := path } := by simp [Registry.names, hm]
      have htypes : c.registry.check { module := path } = {} := by simp [Registry.check, hm]
      rw [himports, hnames, htypes]
      exact ⟨List.forall_mem_nil _, List.forall_mem_nil _, List.forall_mem_nil _⟩
    | some m =>
      have hkept : m.places ⊆ (c.entry path).places := by
        unfold Entry.places entry
        rw [hm, Option.map_some, Option.map_some, Module.places_unresolved]
        exact List.subset_append_left _ _
      refine ⟨fun d hd => hkept ?_, fun d hd => hkept (Registry.names_places hm d hd),
        fun d hd => hkept (Registry.check_places hm d hd)⟩
      unfold importFault? at hd
      split at hd
      · exact Registry.importFault?_places hm d (Option.mem_toList.1 hd)
      · cases hd
  exact List.forall_mem_append.2 ⟨List.forall_mem_append.2 ⟨List.forall_mem_append.2
    ⟨hload, hrest.1⟩, hrest.2.1⟩, hrest.2.2⟩

/-- **Every fault can be found.** When files with different names have been added, in any order and
with checks in between, each fault that a check reports is at a place in one of the files that were
added to the module for which it is reported. That file is at hand when the fault is shown, and so
is a line of it that the place begins in. What is left out before the line is a whole number of its
characters. -/
theorem diagnostics_located (n : Nat) (actions : List Action)
    (hfiles : ((additions actions).map (·.file)).Nodup) :
    let c := (fresh n).performAll actions
    ∀ rep ∈ c.check.1.modules, ∀ d ∈ rep.diagnostics,
      ∃ a ∈ additions actions, a.path = rep.module ∧
        (d.span.file = a.file ∧ d.span.start ≤ d.span.stop ∧
          d.span.stop ≤ byteLength a.text.toList) ∧
        c.sources.get? d.span.file = some a.text ∧
        ∃ line, lineAt? a.text.toList d.span.start = some line ∧
          line.StandsIn a.text.toList d.span.start ∧
          Slice line.text line.indent (byteLength line.text) (line.text.drop line.indent) [] ∧
          c.check.2.render d = s!"{d.heading}\n-> {d.span.file}\n{Diagnostic.excerpt line}" := by
  intro c rep hrep d hd
  have hlocated : Located (additions actions) c.check.2 := (Located.performAll n actions).check
  have hkept : Kept (additions actions) c := (kept_fresh n).performAll hfiles
  obtain ⟨path, -, rfl⟩ := List.mem_map.1 hrep
  obtain ⟨a, ha, hpath, hd⟩ := hlocated path _ (moduleReport_places _ path d hd)
  have hsource : c.sources.get? d.span.file = some a.text := by
    rw [hd.file]
    exact hkept.sources a ha
  obtain ⟨line, hline, hstands⟩ := exists_lineAt? (Nat.le_trans hd.ordered hd.within)
  refine ⟨a, ha, hpath, ⟨hd.file, hd.ordered, hd.within⟩, hsource, line, hline, hstands,
    line.slice_indent, ?_⟩
  have hsource' : c.check.2.sources.get? d.span.file = some a.text := hsource
  unfold render Diagnostic.render
  rw [hsource', Option.getD_some, hline]

/-- A file that ends before its function does. -/
def unfinished : Addition :=
  ⟨"main", "rest.mg", "fn g() \x7b\n  let b: bool = f(1);\n", .root "app"⟩

/-- What is missing at the end is shown behind the last line. -/
theorem diagnostics_located_unfinished :
    let c := (fresh 0).performAll [.add holes, .check, .add unfinished]
    ((additions [.add holes, .check, .add unfinished]).map (·.file)).Nodup ∧
      ∃ rep ∈ c.check.1.modules, ∃ d ∈ rep.diagnostics, d.span = ⟨"rest.mg", 31, 31⟩ ∧
        ∃ line, lineAt? unfinished.text.toList 31 = some line ∧
          line.text.drop line.indent = "let b: bool = f(1);".toList ∧
          c.check.2.render d = s!"{d.heading}\n-> {d.span.file}\n{Diagnostic.excerpt line}" := by
  intro c
  have hfiles : ((additions [.add holes, .check, .add unfinished]).map (·.file)).Nodup := by decide
  have hrun : (c.check.1.modules.any fun rep =>
      rep.diagnostics.any fun d => decide (d.span = ⟨"rest.mg", 31, 31⟩)) = true := by
    decide +kernel
  obtain ⟨rep, hrep, hd⟩ := List.any_eq_true.1 hrun
  obtain ⟨d, hd, hspan⟩ := List.any_eq_true.1 hd
  have hspan : d.span = ⟨"rest.mg", 31, 31⟩ := of_decide_eq_true hspan
  obtain ⟨a, ha, -, ⟨hfile, -, -⟩, -, line, hline, -, -, hrender⟩ :=
    diagnostics_located 0 _ hfiles rep hrep d hd
  have ha : a = unfinished := by
    rcases List.mem_cons.1 ha with rfl | ha
    · rw [hspan] at hfile
      exact absurd hfile (by decide)
    · exact List.mem_singleton.1 ha
  rw [ha, hspan] at hline
  have hat : lineAt? unfinished.text.toList 31 = some ⟨2, "  let b: bool = f(1);".toList, 21⟩ := by
    decide +kernel
  have htext : line = ⟨2, "  let b: bool = f(1);".toList, 21⟩ :=
    Option.some.inj (hline.symm.trans hat)
  refine ⟨hfiles, rep, hrep, d, hd, hspan, line, hline, ?_, hrender⟩
  rw [htext]
  decide +kernel

end Compilation

end MgLang
