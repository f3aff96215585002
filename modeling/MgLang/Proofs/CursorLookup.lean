import Mathlib.Data.List.Nodup
import MgLang.Proofs.Finding
import MgLang.Proofs.History
import MgLang.Proofs.Layout
import MgLang.Proofs.Lexical
import MgLang.Proofs.Registrations
/-!
# Which name a cursor is on

Each name that a module uses is written in one of its files (`Kept`), and two of them in one file do
not touch (`Spot.Apart`). Every file that is added keeps this up, as long as no two have the same
name (`Kept.apply`), and a check does not change it. So a cursor touches at most one name.

Main statement: `referenceAt?_exact`. The references of a module stand where their names are
written, and the answer at a place is the one reference that is touched there.
-/

namespace MgLang

/-! ### Names that do not touch -/

/-- The two names stand in different files or have something between them. -/
def Spot.Apart (x y : Spot) : Prop :=
  x.span.file = y.span.file → x.span.stop < y.span.start ∨ y.span.stop < x.span.start

theorem Spot.Apart.symm {x y : Spot} (h : x.Apart y) : y.Apart x :=
  fun hf => (h hf.symm).symm

/-- Where no two names touch, none of those among them do, in whatever order they are listed. -/
theorem apart_of_subperm {xs ys : List Spot} (h : xs.Subperm ys) (hy : ys.Pairwise Spot.Apart) :
    xs.Pairwise Spot.Apart := by
  obtain ⟨zs, hperm, hsub⟩ := h
  exact hperm.pairwise (hy.sublist hsub) Spot.Apart.symm

/-- The names in a source text stand where it has them, and no two touch. -/
theorem placed_of_parseSource {file text : String} {n : Nat} {d : Declarations}
    (h : (parseSource file text n).1 = .ok d) :
    (∀ x ∈ spots d.exprs, x.Stands file text.toList 0 (byteLength text.toList)) ∧
      (spots d.exprs).Pairwise Spot.Apart := by
  obtain ⟨xs, hsub, hp⟩ := exists_placed_of_parseSource h
  exact ⟨fun x hx => hp.stands x (hsub.subset hx),
    apart_of_subperm hsub (hp.apart.imp fun h _ => .inl h)⟩

/-! ### The site of a reference -/

/-- The name of a reference, where it stands. -/
def Reference.spot (ref : Reference) : Spot :=
  ⟨ref.name, ref.span⟩

theorem Site.spot_of_reference? {s : Site} {ref : Reference} (h : s.reference? = some ref) :
    s.expr.spot? = some ref.spot := by
  unfold Site.reference? at h
  split at h
  · next node name he =>
    obtain ⟨b, -, rfl⟩ := Option.map_eq_some_iff.1 h
    rw [he]
    rfl
  · next node className classSpan args he =>
    split at h
    · cases h
      rw [he]
      rfl
    · cases h
  · cases h

/-- The names of the references of a module are names that its expressions use. -/
theorem references_subperm {r : Registry} {path : String} {m : Module}
    (hm : r.find? path = some m) :
    ((r.names path).references.toList.map Reference.spot).Subperm (spots m.exprs) := by
  rw [references_eq_sites hm]
  have hsub (ss : List Site) : ((ss.filterMap Site.reference?).map Reference.spot).Sublist
      (spots (ss.map (·.expr))) := by
    induction ss with
    | nil => exact .slnil
    | cons s ss ih =>
      rw [List.map_cons]
      cases hr : s.reference? with
      | some ref =>
        have he : spots (s.expr :: ss.map (·.expr)) = ref.spot :: spots (ss.map (·.expr)) :=
          List.filterMap_cons_some (Site.spot_of_reference? hr)
        rw [List.filterMap_cons_some hr, List.map_cons, he]
        exact ih.cons_cons _
      | none =>
        rw [List.filterMap_cons_none hr]
        exact ih.trans ((List.sublist_cons_self _ _).filterMap _)
  exact (hsub _).subperm.trans ((sites_perm_exprs r m).filterMap _).subperm

/-! ### The reference at a place -/

/-- Of names that do not touch, a cursor touches one at most. -/
theorem filter_touches {refs : List Reference} (h : (refs.map Reference.spot).Pairwise Spot.Apart)
    (file : String) (offset : Nat) :
    refs.filter (·.span.Touches file offset) = [] ∨
      ∃ ref, refs.filter (·.span.Touches file offset) = [ref] := by
  have hone : (refs.filter (·.span.Touches file offset)).Pairwise fun _ _ => False := by
    refine ((List.pairwise_map.1 h).filter _).imp_of_mem fun {a b} ha hb hab => ?_
    have hta : a.span.Touches file offset := by simpa using (List.mem_filter.1 ha).2
    have htb : b.span.Touches file offset := by simpa using (List.mem_filter.1 hb).2
    obtain ⟨hfa, hsa, hea⟩ := hta
    obtain ⟨hfb, hsb, heb⟩ := htb
    rcases hab (hfa.trans hfb.symm) with hlt | hlt
    · have hlt : a.span.stop < b.span.start := hlt
      omega
    · have hlt : b.span.stop < a.span.start := hlt
      omega
  generalize refs.filter (·.span.Touches file offset) = touched at hone ⊢
  match touched with
  | [] => exact .inl rfl
  | [ref] => exact .inr ⟨ref, rfl⟩
  | a :: b :: _ => exact absurd (List.rel_of_pairwise_cons hone List.mem_cons_self) id

/-- The reference at a place is the one that is touched there. -/
theorem Names.referenceAt?_eq_some_iff {names : Names}
    (h : (names.references.toList.map Reference.spot).Pairwise Spot.Apart) {file : String}
    {offset : Nat} {ref : Reference} :
    names.referenceAt? file offset = some ref ↔
      ref ∈ names.references.toList ∧ ref.span.Touches file offset := by
  have hmem : ref ∈ names.references.toList ∧ ref.span.Touches file offset ↔
      ref ∈ names.references.toList.filter (·.span.Touches file offset) := by
    simp [List.mem_filter]
  rw [hmem, referenceAt?]
  rcases filter_touches h file offset with he | ⟨r, he⟩
  · rw [he]
    simp
  · rw [he, List.mem_singleton]
    exact ⟨fun hr => (Option.some.inj hr).symm, fun hr => congrArg some hr.symm⟩

/-! ### Names in a compilation -/

namespace Compilation

/-- The expressions of the module that is kept under a path. -/
def Entry.exprs (e : Entry) : List Expr :=
  (e.module.map Module.exprs).getD []

/-- A file adds its expressions to those of its module, or none if it is refused. -/
theorem Entry.exprs_add (e : Entry) (path file : String) (package : Package)
    (parsed : Except Diagnostic Declarations) :
    (e.add path file package parsed).exprs = e.exprs ∨
      ∃ d, parsed = .ok d ∧ (e.exprs ++ d.exprs).Perm (e.add path file package parsed).exprs := by
  cases parsed with
  | error d => exact .inl rfl
  | ok d =>
    obtain ⟨existing, failures⟩ := e
    cases existing with
    | none => exact .inr ⟨d, rfl, .refl _⟩
    | some m =>
      unfold Entry.add Except.bind Module.join
      by_cases hp : m.package = package
      · refine .inr ⟨d, rfl, ?_⟩
        have hjoin : (Module.ofFile path package d file).package = package := rfl
        simp only [hjoin, if_pos hp]
        exact Declarations.exprs_append_perm m.decls d _
      · refine .inl ?_
        have hjoin : (Module.ofFile path package d file).package = package := rfl
        simp only [hjoin, if_neg hp]
        rfl

theorem exprs_entry {c : Compilation} {path : String} {m : Module}
    (hm : c.registry.find? path = some m) : (c.entry path).exprs = m.exprs := by
  unfold Entry.exprs entry Module.exprs
  rw [hm, Option.map_some, Option.map_some, Module.decls_unresolved]
  rfl

/-- The name stands in one of the files that were added to the module at `path`. -/
def StandsIn (adds : List Addition) (path : String) (x : Spot) : Prop :=
  ∃ a ∈ adds, a.path = path ∧ x.Stands a.file a.text.toList 0 (byteLength a.text.toList)

/-- The files are there, and the names of each module stand in its files and do not touch. -/
structure Kept (adds : List Addition) (c : Compilation) : Prop where
  sources : ∀ a ∈ adds, c.sources.get? a.file = some a.text
  stand : ∀ path, ∀ x ∈ spots (c.entry path).exprs, StandsIn adds path x
  apart : ∀ path, (spots (c.entry path).exprs).Pairwise Spot.Apart

theorem kept_fresh (n : Nat) : Kept [] (fresh n) := by
  have hexprs (path : String) : ((fresh n).entry path).exprs = [] := by
    unfold Entry.exprs entry
    rw [registry_fresh, Registry.find?_initial]
    split <;> rfl
  refine ⟨List.forall_mem_nil _, fun path => ?_, fun path => ?_⟩
  · rw [hexprs]
    exact List.forall_mem_nil _
  · rw [hexprs]
    exact .nil

theorem sources_apply (c : Compilation) (a : Addition) :
    (c.apply a).sources = c.sources.insert a.file a.text := by
  unfold apply addAs
  dsimp only
  split <;> rfl

theorem StandsIn.mono {adds adds' : List Addition} {path : String} {x : Spot}
    (h : StandsIn adds path x) (hsub : adds ⊆ adds') : StandsIn adds' path x := by
  obtain ⟨a, ha, hpath, hx⟩ := h
  exact ⟨a, hsub ha, hpath, hx⟩

/-- A file with a name of its own keeps all names apart. -/
theorem Kept.apply {adds : List Addition} {c : Compilation} (h : Kept adds c) {a : Addition}
    (hnew : a.file ∉ adds.map (·.file)) : Kept (adds ++ [a]) (c.apply a) := by
  have hold (path : String) : ∀ x ∈ spots (c.entry path).exprs, StandsIn (adds ++ [a]) path x :=
    fun x hx => (h.stand path x hx).mono (List.subset_append_left _ _)
  -- What becomes of a module is what it was, or that with the names of the file behind it.
  have hcases (path : String) : ((c.apply a).entry path).exprs = (c.entry path).exprs ∨
      path = a.path ∧ ∃ d, (parseSource a.file a.text c.nextId).1 = .ok d ∧
        (spots (c.entry path).exprs ++ spots d.exprs).Perm
          (spots ((c.apply a).entry path).exprs) := by
    rw [entry_apply]
    split
    · next hp =>
      rcases (c.entry path).exprs_add a.path a.file a.package
          (parseSource a.file a.text c.nextId).1 with he | ⟨d, hd, hperm⟩
      · exact .inl he
      · refine .inr ⟨hp, d, hd, ?_⟩
        rw [← spots_append]
        exact hperm.filterMap _
    · exact .inl rfl
  refine ⟨?_, fun path => ?_, fun path => ?_⟩
  · intro b hb
    rw [sources_apply, Keyed.get?_insert]
    rcases List.mem_append.1 hb with hb | hb
    · have hne : b.file ≠ a.file := fun he => hnew (he ▸ List.mem_map_of_mem hb)
      rw [if_neg hne]
      exact h.sources b hb
    · rw [List.mem_singleton.1 hb, if_pos rfl]
  · rcases hcases path with he | ⟨rfl, d, hd, hperm⟩
    · rw [he]
      exact hold path
    · intro x hx
      rcases List.mem_append.1 (hperm.mem_iff.2 hx) with hx | hx
      · exact hold _ x hx
      · refine ⟨a, by simp, rfl, (placed_of_parseSource hd).1 x hx⟩
  · rcases hcases path with he | ⟨rfl, d, hd, hperm⟩
    · rw [he]
      exact h.apart path
    · obtain ⟨hstand, hapart⟩ := placed_of_parseSource hd
      refine apart_of_subperm hperm.symm.subperm ?_
      refine List.pairwise_append.2 ⟨h.apart _, hapart, fun x hx y hy hfile => ?_⟩
      obtain ⟨b, hb, -, hxb⟩ := h.stand _ x hx
      have he : b.file = a.file := by rw [← hxb.file, hfile, (hstand y hy).file]
      exact absurd (he ▸ List.mem_map_of_mem hb) hnew

theorem Kept.check {adds : List Addition} {c : Compilation} (h : Kept adds c) :
    Kept adds c.check.2 := by
  have he (path : String) : c.check.2.entry path = c.entry path := entry_recordImports c path
  refine ⟨h.sources, fun path => ?_, fun path => ?_⟩
  · rw [he]
    exact h.stand path
  · rw [he]
    exact h.apart path

theorem Kept.performAll {actions : List Action} : ∀ {adds : List Addition} {c : Compilation},
    Kept adds c → ((adds ++ additions actions).map (·.file)).Nodup →
    Kept (adds ++ additions actions) (c.performAll actions) := by
  induction actions with
  | nil =>
    intro adds c h _
    rw [additions, List.append_nil]
    exact h
  | cons action actions ih =>
    intro adds c h hnodup
    cases action with
    | check => exact ih h.check hnodup
    | add a =>
      have hassoc : adds ++ a :: additions actions = (adds ++ [a]) ++ additions actions := by simp
      rw [additions, hassoc] at hnodup ⊢
      refine ih (h.apply fun hmem => ?_) hnodup
      rw [List.map_append, List.map_append, List.append_assoc] at hnodup
      exact (List.nodup_append.1 hnodup).2.2 _ hmem a.file (by simp) rfl

/-- The references of a module stand in its files and do not touch. -/
theorem Kept.references {adds : List Addition} {c : Compilation} (h : Kept adds c) (path : String) :
    (∀ ref ∈ (c.registry.names path).references.toList, StandsIn adds path ref.spot) ∧
      ((c.registry.names path).references.toList.map Reference.spot).Pairwise Spot.Apart := by
  cases hm : c.registry.find? path with
  | none =>
    have he : (c.registry.names path).references.toList = [] := by simp [Registry.names, hm]
    rw [he]
    exact ⟨List.forall_mem_nil _, .nil⟩
  | some m =>
    have hsub := references_subperm hm
    rw [← exprs_entry hm] at hsub
    refine ⟨fun ref href => ?_, apart_of_subperm hsub (h.apart path)⟩
    exact h.stand path _ (hsub.subset (List.mem_map_of_mem href))

/-- **A cursor is on one name at most, and it is the name that is looked up.** When files with
different names have been added, each of less than 2^32 bytes, in any order and with checks in
between, a check finds references that stand where the text of their file has their names, and are
kept there. In one file, two of them have a byte between them, and they are of one module. So a
cursor touches one reference of a module at most, and that is the answer to where the cursor is. -/
theorem referenceAt?_exact (n : Nat) (actions : List Action)
    (hfiles : ((additions actions).map (·.file)).Nodup)
    (hsizes : ∀ a ∈ additions actions, byteLength a.text.toList < UInt32.size) :
    let c := (fresh n).performAll actions
    (∀ rep ∈ c.check.1.modules,
      (∀ ref ∈ rep.names.references.toList, ref.span.stored = ref.span ∧
        ref.span.start < ref.span.stop ∧ ∃ text behind, c.sources.get? ref.span.file = some text ∧
          Slice text.toList ref.span.start ref.span.stop ref.name.toList behind) ∧
      (rep.names.references.toList.Pairwise fun a b => a.span.file = b.span.file →
        a.span.stop < b.span.start ∨ b.span.stop < a.span.start) ∧
      ∀ file offset,
        (∀ a ∈ rep.names.references.toList, ∀ b ∈ rep.names.references.toList,
          a.span.Touches file offset → b.span.Touches file offset → a = b) ∧
        ∀ ref, rep.names.referenceAt? file offset = some ref ↔
          ref ∈ rep.names.references.toList ∧ ref.span.Touches file offset) ∧
    ∀ rep ∈ c.check.1.modules, ∀ rep' ∈ c.check.1.modules,
      ∀ ref ∈ rep.names.references.toList, ∀ ref' ∈ rep'.names.references.toList,
        ref.span.file = ref'.span.file → rep.module = rep'.module := by
  intro c
  have hkept : Kept (additions actions) c := (kept_fresh n).performAll hfiles
  have hnames : ∀ rep ∈ c.check.1.modules, rep.names = c.check.2.registry.names rep.module := by
    intro rep hrep
    obtain ⟨path, -, rfl⟩ := List.mem_map.1 hrep
    rfl
  have hrefs (path : String) := hkept.check.references path
  refine ⟨fun rep hrep => ?_, fun rep hrep rep' hrep' ref href ref' href' hfile => ?_⟩
  · rw [hnames rep hrep]
    obtain ⟨hstand, hapart⟩ := hrefs rep.module
    refine ⟨fun ref href => ?_, List.pairwise_map.1 hapart, fun file offset => ?_⟩
    · obtain ⟨a, ha, -, hspot⟩ := hstand ref href
      obtain ⟨behind, hslice⟩ := hspot.slice
      have hstop : ref.span.stop < UInt32.size := Nat.lt_of_le_of_lt hspot.le_hi (hsizes a ha)
      have hstored := Span.stored_eq_self (Nat.lt_trans hspot.lt hstop) hstop
      exact ⟨hstored, hspot.lt, a.text, behind, hspot.file ▸ hkept.sources a ha, hslice⟩
    · have hat (ref : Reference) : (c.check.2.registry.names rep.module).referenceAt? file offset =
          some ref ↔ _ := Names.referenceAt?_eq_some_iff hapart
      refine ⟨fun a ha b hb hta htb => ?_, hat⟩
      exact Option.some.inj (((hat a).2 ⟨ha, hta⟩).symm.trans ((hat b).2 ⟨hb, htb⟩))
  · rw [hnames rep hrep] at href
    rw [hnames rep' hrep'] at href'
    obtain ⟨a, ha, hpath, hspot⟩ := (hrefs rep.module).1 ref href
    obtain ⟨a', ha', hpath', hspot'⟩ := (hrefs rep'.module).1 ref' href'
    have he : a.file = a'.file := hspot.file.symm.trans (hfile.trans hspot'.file)
    rw [← hpath, ← hpath', List.inj_on_of_nodup_map hfiles ha ha' he]

/-- A file with a name in two holes that meet, and a class. -/
def holes : Addition :=
  ⟨"main", "main.mg", "class C \x7b \x7d fn f(x: int) \x7b $\"\x7bx\x7d\x7bx\x7d\"; new C(); \x7d",
    .root "app"⟩

/-- A cursor right behind the name in the second hole is on that name. -/
theorem referenceAt?_exact_holes :
    ((additions [.add holes, .check, .add callee]).map (·.file)).Nodup ∧
      (∀ a ∈ additions [.add holes, .check, .add callee],
        byteLength a.text.toList < UInt32.size) ∧
      ∃ rep ∈ ((fresh 0).performAll [.add holes, .check, .add callee]).check.1.modules,
        rep.names.referenceAt? "main.mg" 34 =
          some ⟨"x", 1, ⟨"main.mg", 33, 34⟩, .variable "x" ⟨"main.mg", 17, 23⟩⟩ := by
  have hfiles : ((additions [.add holes, .check, .add callee]).map (·.file)).Nodup := by decide
  have hsizes : ∀ a ∈ additions [.add holes, .check, .add callee],
      byteLength a.text.toList < UInt32.size := by decide
  have hrun : (((fresh 0).performAll [.add holes, .check, .add callee]).check.1.modules.any
      fun rep => decide (⟨"x", 1, ⟨"main.mg", 33, 34⟩, .variable "x" ⟨"main.mg", 17, 23⟩⟩ ∈
        rep.names.references.toList)) = true := by
    decide +kernel
  obtain ⟨rep, hrep, href⟩ := List.any_eq_true.1 hrun
  obtain ⟨-, -, hat⟩ := (referenceAt?_exact 0 _ hfiles hsizes).1 rep hrep
  exact ⟨hfiles, hsizes, rep, hrep, ((hat "main.mg" 34).2 _).2 ⟨of_decide_eq_true href, by decide⟩⟩

/-- What a check says does not depend on the texts of the files, once they are registered. -/
theorem modules_check_apply {c : Compilation} {a : Addition} {d : Declarations} {r : Registry}
    (hd : (parseSource a.file a.text c.nextId).1 = .ok d)
    (hr : c.registry.register (.ofFile a.path a.package d a.file) = .ok r) :
    (c.apply a).check.1 = ({ c with registry := r } : Compilation).check.1 := by
  have happly : c.apply a = { c with
      registry := r, sources := c.sources.insert a.file a.text,
      nextId := (parseSource a.file a.text c.nextId).2 } := by
    unfold apply addAs
    simp only [hd, Except.bind, hr]
  rw [happly]
  rfl

/-- A function behind 2^32 blanks that uses its parameter. -/
def behindBlanks : Addition :=
  ⟨"main", "main.mg", .ofList (blanks UInt32.size ++ "fn f(a: int) \x7b a; \x7d".toList),
    .root "app"⟩

/-- The name behind 2^32 blanks is kept as one over a blank. -/
theorem referenceAt?_behind_blanks :
    ∃ rep ∈ ((fresh 0).performAll [.add behindBlanks]).check.1.modules,
      ∃ ref ∈ rep.names.references.toList, ref.name = "a" ∧ ref.span.file = behindBlanks.file ∧
        ∃ behind, Slice behindBlanks.text.toList ref.span.stored.start ref.span.stored.stop [' ']
          behind := by
  let register (d : Declarations) :=
    (fresh 0).registry.register (.ofFile "main" (.root "app") d "main.mg")
  have hrun : (tokensFrom "main.mg" UInt32.size "fn f(a: int) \x7b a; \x7d".toList).toOption.any
      (fun tokens =>
        let c := Cursor.ofStream ⟨"main.mg", tokens, UInt32.size + 19⟩ 0
        (readItems c {}).outcome.toOption.any fun d => (register d).toOption.any fun r =>
          ({ fresh 0 with registry := r } : Compilation).check.1.modules.any fun rep =>
            rep.names.references.toList.any fun ref => decide
              (ref.name = "a" ∧ ref.span.stored = ⟨"main.mg", 15, 16⟩)) = true := by
    decide +kernel
  obtain ⟨d, hparsed, hregister⟩ := exists_parseSource_behind_blanks hrun
  obtain ⟨r, hr, hcheck⟩ := (Option.any_eq_true _ _).1 hregister
  obtain ⟨rep, hrep, hrefs⟩ := List.any_eq_true.1 hcheck
  obtain ⟨ref, href, hspan⟩ := List.any_eq_true.1 hrefs
  obtain ⟨hname, hspan⟩ := of_decide_eq_true hspan
  have hmodules : ((fresh 0).apply behindBlanks).check.1 = _ :=
    modules_check_apply hparsed (eq_ok_of_toOption hr)
  have hfile : ref.span.file = "main.mg" := congrArg Span.file hspan
  have htext : behindBlanks.text.toList = _ := String.toList_ofList
  have hslice : ∃ behind, Slice behindBlanks.text.toList 15 16 [' '] behind := by
    rw [htext]
    exact exists_slice_blanks (by decide) _
  rw [performAll, List.foldl_cons, List.foldl_nil, perform, hmodules]
  exact ⟨rep, hrep, ref, href, hname, hfile, by rwa [hspan]⟩

end Compilation

end MgLang
