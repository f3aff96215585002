import Mathlib.Data.List.Pairwise
import MgLang.Proofs.Parses
import MgLang.Proofs.Rereading
/-!
# Identifiers that are bound to nothing

Where names are resolved, an identifier that is bound to nothing is reported once, or not at all if
an import has failed. The check of types leaves it at that: it takes the type to be unknown, and
reports nothing at the identifier. The main statement is `unbound_reported_once`.

The check reports at places of expressions and at marks (`checkModule_confined`), so what remains is
that an identifier has its place to itself (`IdentifiersAlone`). In one text that is so because the
text under its place is one token (`ReadFrom.alone`), and places in two files differ. Places are
compared as they are kept (`Span.stored`), which is why texts must be shorter than 2^32 bytes.
-/

namespace MgLang

/-! ### The text of an identifier -/

/-- An identifier is one token. -/
theorem tokens_of_identifier {file value : String} {piece : List Char} {s : TokenStream}
    (h : Spelled piece .identifier value) (hs : tokenize file piece = .ok s) :
    ∃ t, s.tokens = [t] ∧ t.kind = .identifier := by
  obtain ⟨p, hfirst, htoken⟩ := h.first?_append Pattern.breaks_nil
  have hpiece : tokensFrom file 0 (piece ++ []) = _ := tokensFrom_piece hfirst
  rw [List.append_nil, tokensFrom] at hpiece
  unfold tokenize at hs
  rw [hpiece] at hs
  cases hs
  exact ⟨⟨.identifier, value, ⟨file, 0, 0 + byteLength piece⟩⟩, by simp [Pattern.tokenAt?, htoken],
    rfl⟩

theorem leaf?_renumber (e : Expr) (ρ : Nat → Nat) : (e.renumber ρ).leaf? = e.leaf? := by
  cases e <;> rfl

/-- What differs from an identifier in its number only is an identifier in the same place. -/
theorem Expr.Alike.leaf? {e e' : Expr} (h : e.Alike e') : e.leaf? = e'.leaf? := by
  rw [← leaf?_renumber e, ← leaf?_renumber e' fun _ => 0]
  exact congrArg Expr.leaf? h

/-! ### In one file -/

/-- The declarations were read from a text of less than 2^32 bytes in a file of that name. -/
def Declarations.ReadFrom (d : Declarations) (file : String) : Prop :=
  ∃ text n, byteLength text.toList < UInt32.size ∧ (parseSource file text n).1 = .ok d

namespace Declarations.ReadFrom

variable {d : Declarations} {file : String} {node : Node} {name : String}

/-- All places of the declarations are in the file, and kept as they are. -/
theorem places (h : d.ReadFrom file) : ∀ p ∈ d.places, p.file = file ∧ p.stored = p := by
  obtain ⟨text, n, hsize, h⟩ := h
  obtain ⟨rs, hfills, hrow⟩ := (parseSource_rows file text n).2 d h
  intro p hp
  obtain ⟨hfile, -, hlt, hstop⟩ := hrow.forall_spans p (hfills.places_among hp)
  exact ⟨hfile, Span.stored_eq_self (by omega) (by omega)⟩

/-- An expression that has the place of an identifier is an identifier, and nothing wide has that
place. -/
theorem alone (h : d.ReadFrom file) (he : .ident node name ∈ d.exprs) :
    (∀ e ∈ d.exprs, e.span = node.span → e.leaf? = some node.span) ∧
      ∀ span, .whole span ∈ d.marks → span ≠ node.span := by
  obtain ⟨text, n, -, h⟩ := h
  have hread := parseSource_allReread h
  obtain ⟨xs, hsub, hplaced⟩ := exists_placed_of_parseSource h
  have hspot : ⟨name, node.span⟩ ∈ xs := hsub.subset (List.mem_filterMap.2 ⟨_, he, rfl⟩)
  have hword : Spelled name.toList .identifier name := hplaced.words _ hspot
  obtain ⟨after, hname⟩ := (hplaced.stands _ hspot).slice
  have hone {piece behind : List Char} {s : TokenStream}
      (hslice : Slice text.toList node.span.start node.span.stop piece behind)
      (hs : tokenize file piece = .ok s) : ∃ t, s.tokens = [t] ∧ t.kind = .identifier := by
    rw [hslice.unique hname] at hs
    exact tokens_of_identifier hword hs
  constructor
  · intro e he' hspan
    obtain ⟨-, piece, behind, s, hslice, hs, hread'⟩ := (hread.exprs e he').exists_alone
    obtain ⟨-, piece', behind', s', hslice', hs', hread⟩ := (hread.exprs _ he).exists_alone
    rw [hspan] at hslice hread'
    rw [← hslice.unique hslice', hs] at hs'
    cases hs'
    obtain ⟨t, htokens, hkind⟩ := hone hslice hs
    have hmatched : Matched s.tokens := by
      rw [htokens]
      exact matched_singleton (hkind ▸ rfl)
    obtain ⟨e₁, hparse, halike⟩ := hread hmatched 0
    obtain ⟨e₂, hparse', halike'⟩ := hread' hmatched 0
    cases Except.ok.inj (hparse.symm.trans hparse')
    rw [← halike'.leaf?, halike.leaf?]
    rfl
  · rintro span hmark rfl
    obtain ⟨ts, hextract, hspan, hlength⟩ := hread.marks _ hmark
    obtain ⟨piece, behind, s, hslice, hs, -, rfl⟩ := tokenize_extract hextract hspan
    obtain ⟨t, htokens, -⟩ := hone hslice hs
    have htokens' : (s.shift node.span.start).tokens = [t.shift node.span.start] := by
      rw [TokenStream.shift, htokens]
      rfl
    rw [htokens', List.length_singleton] at hlength
    exact Nat.not_succ_le_self 1 hlength

end Declarations.ReadFrom

/-! ### In the files of a module -/

theorem exists_readFrom {ds : List Declarations} {files : List String} {d : Declarations}
    (h : List.Forall₂ Declarations.ReadFrom ds files) (hd : d ∈ ds) :
    ∃ file ∈ files, d.ReadFrom file := by
  induction h with
  | nil => cases hd
  | cons hread _ ih =>
    rcases List.mem_cons.1 hd with rfl | hd
    · exact ⟨_, List.mem_cons_self, hread⟩
    · obtain ⟨file, hfile, hread⟩ := ih hd
      exact ⟨file, List.mem_cons_of_mem _ hfile, hread⟩

/-- Declarations that were read from files of different names have no place in common. -/
theorem pairwise_of_readFrom {ds : List Declarations} {files : List String}
    (h : List.Forall₂ Declarations.ReadFrom ds files) (hfiles : files.Nodup) :
    ds.Pairwise fun d d' => ∀ p ∈ d.places, ∀ p' ∈ d'.places, p.file ≠ p'.file := by
  induction h with
  | nil => exact .nil
  | @cons d file ds files hd hds ih =>
    obtain ⟨hnew, hfiles⟩ := List.nodup_cons.1 hfiles
    refine List.pairwise_cons.2 ⟨fun d' hd' p hp p' hp' hsame => ?_, ih hfiles⟩
    obtain ⟨file', hfile', hread⟩ := exists_readFrom hds hd'
    rw [(hd.places p hp).1, (hread.places p' hp').1] at hsame
    exact hnew (hsame ▸ hfile')

/-- So declarations are known by any place in them. -/
theorem eq_of_mem_places {ds : List Declarations} {files : List String}
    (h : List.Forall₂ Declarations.ReadFrom ds files) (hfiles : files.Nodup) {d d' : Declarations}
    (hd : d ∈ ds) (hd' : d' ∈ ds) {p : Span} (hp : p ∈ d.places) (hp' : p ∈ d'.places) :
    d = d' := by
  have : Std.Symm fun d d' : Declarations => ∀ p ∈ d.places, ∀ p' ∈ d'.places, p.file ≠ p'.file :=
    ⟨fun _ _ hne p hp p' hp' => (hne p' hp' p hp).symm⟩
  by_contra hne
  exact (pairwise_of_readFrom h hfiles).forall hd hd' hne p hp p hp' rfl

/-- An identifier is known by its place if no two have one place. -/
theorem eq_of_leaf? {es : List Expr} (h : (es.filterMap Expr.leaf?).Nodup) {e e' : Expr}
    (he : e ∈ es) (he' : e' ∈ es) {span : Span} (hs : e.leaf? = some span)
    (hs' : e'.leaf? = some span) : e = e' := by
  have : Std.Symm fun e e' : Expr =>
      ∀ s, e.leaf? = some s → ∀ s', e'.leaf? = some s' → s ≠ s' :=
    ⟨fun _ _ hne s hs s' hs' => (hne s' hs' s hs).symm⟩
  by_contra hne
  exact (List.pairwise_filterMap.1 h).forall he he' hne span hs span hs' rfl

/-- Identifiers among the expressions have their places to themselves, as these are kept. -/
structure IdentifiersAlone (es : List Expr) (ms : List Mark) : Prop where
  exprs : ∀ node name, .ident node name ∈ es →
    ∀ e ∈ es, e.span.stored = node.span.stored → e = .ident node name
  marks : ∀ node name, .ident node name ∈ es → ∀ k ∈ ms, k.span.stored ≠ node.span.stored
  nodup : ((es.filterMap Expr.leaf?).map Span.stored).Nodup

namespace Module

/-- The marks of a module are those of the files that it was merged from. -/
theorem MergedFrom.marks_perm {m : Module} {ds : List Declarations} (h : m.MergedFrom ds) :
    m.marks.Perm (ds.flatMap Declarations.marks) := by
  induction h with
  | file path package d file =>
    rw [List.flatMap_singleton]
    exact .refl _
  | @merge m m' ds ds' _ _ ih ih' =>
    rw [List.flatMap_append]
    exact (Declarations.marks_append_perm m.decls m'.decls _).symm.trans (ih.append ih')

theorem MergedFrom.leaves_perm {m : Module} {ds : List Declarations} (h : m.MergedFrom ds) :
    (leavesOf m.exprs m.marks).Perm (ds.flatMap fun d => leavesOf d.exprs d.marks) := by
  induction h with
  | file path package d file =>
    rw [List.flatMap_singleton]
    exact .refl _
  | @merge m m' ds ds' _ _ ih ih' =>
    have hexprs := Declarations.exprs_append_perm m.decls m'.decls (m.merge m').decls.usings
    have hmarks := Declarations.marks_append_perm m.decls m'.decls (m.merge m').decls.usings
    rw [List.flatMap_append]
    refine (leavesOf_perm hexprs hmarks).symm.trans ?_
    exact (leavesOf_append_perm _ _ _ _).trans (ih.append ih')

section

variable {m : Module} {ds : List Declarations} {files : List String}

theorem MergedFrom.leaves_nodup (h : m.MergedFrom ds)
    (hread : List.Forall₂ Declarations.ReadFrom ds files) (hfiles : files.Nodup) :
    (leavesOf m.exprs m.marks).Nodup := by
  refine h.leaves_perm.nodup_iff.2 (List.nodup_flatMap.2 ⟨fun d hd => ?_, ?_⟩)
  · obtain ⟨file, -, text, n, -, hd⟩ := exists_readFrom hread hd
    exact parseSource_leaves hd
  · refine (pairwise_of_readFrom hread hfiles).imp fun {d d'} hne => ?_
    refine List.disjoint_left.2 fun p hp hp' => ?_
    have hp := (declarations_covered d).leavesOf_subset hp
    exact hne p hp p ((declarations_covered d').leavesOf_subset hp') rfl

/-- An identifier has its place to itself in all declarations that the place is in. -/
theorem MergedFrom.alone (h : m.MergedFrom ds)
    (hread : List.Forall₂ Declarations.ReadFrom ds files) (hfiles : files.Nodup) {node : Node}
    {name : String} (he : .ident node name ∈ m.exprs) {d : Declarations} (hd : d ∈ ds)
    (hp : node.span ∈ d.places) :
    (∀ e ∈ d.exprs, e.span = node.span → e.leaf? = some node.span) ∧
      ∀ span, .whole span ∈ d.marks → span ≠ node.span := by
  obtain ⟨d', hd', he⟩ := List.mem_flatMap.1 (h.exprs_perm.mem_iff.1 he)
  have hp' := (declarations_covered d').exprs (List.mem_map_of_mem he)
  obtain rfl := eq_of_mem_places hread hfiles hd hd' hp hp'
  obtain ⟨file, -, hread⟩ := exists_readFrom hread hd
  exact hread.alone he

/-- The places of expressions and marks are kept as they are. -/
theorem MergedFrom.stored (h : m.MergedFrom ds)
    (hread : List.Forall₂ Declarations.ReadFrom ds files) :
    (∀ e ∈ m.exprs, e.span.stored = e.span) ∧ ∀ k ∈ m.marks, k.span.stored = k.span := by
  refine ⟨fun e he => ?_, fun k hk => ?_⟩
  · obtain ⟨d, hd, he⟩ := List.mem_flatMap.1 (h.exprs_perm.mem_iff.1 he)
    obtain ⟨file, -, hread⟩ := exists_readFrom hread hd
    exact (hread.places _ ((declarations_covered d).exprs (List.mem_map_of_mem he))).2
  · obtain ⟨d, hd, hk⟩ := List.mem_flatMap.1 (h.marks_perm.mem_iff.1 hk)
    obtain ⟨file, -, hread⟩ := exists_readFrom hread hd
    exact (hread.places _ ((declarations_covered d).marks (List.mem_map_of_mem hk))).2

/-- In a module that was read from files of different names, identifiers have their places to
themselves. -/
theorem MergedFrom.identifiersAlone (h : m.MergedFrom ds)
    (hread : List.Forall₂ Declarations.ReadFrom ds files) (hfiles : files.Nodup) :
    IdentifiersAlone m.exprs m.marks := by
  obtain ⟨hexprs, hmarks⟩ := h.stored hread
  obtain ⟨hidents, -, hdisjoint⟩ := List.nodup_append'.1 (h.leaves_nodup hread hfiles)
  refine ⟨fun node name he e he' hspan => ?_, fun node name he k hk hspan => ?_, ?_⟩
  · have hkept : node.span.stored = node.span := hexprs _ he
    rw [hexprs e he', hkept] at hspan
    obtain ⟨d, hd, hed⟩ := List.mem_flatMap.1 (h.exprs_perm.mem_iff.1 he')
    have hp := hspan ▸ (declarations_covered d).exprs (List.mem_map_of_mem hed)
    obtain ⟨hleaf, -⟩ := h.alone hread hfiles he hd hp
    exact eq_of_leaf? hidents he' he (hleaf e hed hspan) rfl
  · have hkept : node.span.stored = node.span := hexprs _ he
    rw [hmarks k hk, hkept] at hspan
    cases k with
    | leaf span =>
      have hspan : span = node.span := hspan
      subst hspan
      exact hdisjoint (List.mem_filterMap.2 ⟨_, he, rfl⟩) (List.mem_filterMap.2 ⟨_, hk, rfl⟩)
    | whole span =>
      obtain ⟨d, hd, hkd⟩ := List.mem_flatMap.1 (h.marks_perm.mem_iff.1 hk)
      have hp := hspan ▸ (declarations_covered d).marks (List.mem_map_of_mem hkd)
      obtain ⟨-, hwhole⟩ := h.alone hread hfiles he hd hp
      exact hwhole span hkd hspan
  · have hkept : ∀ s ∈ m.exprs.filterMap Expr.leaf?, s.stored = s := by
      intro s hs
      obtain ⟨e, he, hleaf⟩ := List.mem_filterMap.1 hs
      rw [← Expr.span_of_leaf? hleaf]
      exact hexprs e he
    rwa [List.map_congr_left hkept, List.map_id']

end

end Module

/-! ### What is reported of an identifier -/

namespace Registry

variable {r : Registry} {path : String} {m : Module}

/-- Faults of names are met at identifiers, at each once at most. -/
theorem names_spans_subperm (hm : r.find? path = some m) :
    ((r.names path).errors.toList.map (·.span)).Subperm (m.exprs.filterMap Expr.leaf?) := by
  have hsub := map_filterMap_sublist (f := Site.fault? ⟨r, m⟩) (g := (·.span))
    (k := fun s => s.expr.leaf?) (fun _ _ hd => Site.leaf?_of_fault? hd) (r.sites m)
  have hperm := (sites_perm_exprs r m).filterMap Expr.leaf?
  rw [List.filterMap_map] at hperm
  rw [errors_eq_sites hm]
  exact hsub.subperm.trans hperm.subperm

/-- What is said of the identifier is said where names are resolved, once at most. Places are
compared as they are kept. -/
structure ReportsOnce (r : Registry) (path : String) (node : Node) : Prop where
  names : ((r.names path).errors.toList.map (·.span.stored)).count node.span.stored ≤ 1
  check : ∀ d ∈ (r.check (r.names path)).errors, d.span.stored ≠ node.span.stored
  types : ∀ t ∈ (r.check (r.names path)).nodes, t.node.id = node.id → t.ty = .unknown

/-- An identifier that is bound to nothing is reported once at most, if numbers tell expressions
apart and identifiers have their places to themselves. -/
theorem reportsOnce_of_unbound (hm : r.find? path = some m) (hn : m.Numbered)
    (halone : IdentifiersAlone m.exprs m.marks) {node : Node} {name : String}
    (he : .ident node name ∈ m.exprs) (hb : (r.names path).binding? node.id = none) :
    r.ReportsOnce path node := by
  have hmisses : (r.names path).misses (.ident node name) = true :=
    Option.isNone_iff_eq_none.2 hb
  have hother {e : Expr} (hf : (r.names path).misses e = false) : e ≠ .ident node name := by
    rintro rfl
    cases hmisses.symm.trans hf
  have hpermits : Permits (r.names path) (·.stored ≠ node.span.stored)
      (fun t => t.node.id = node.id → t.ty = .unknown) m.exprs m.marks := by
    refine ⟨fun _ _ _ _ => rfl, fun e he' hf => ⟨fun hspan => ?_, fun ty hid => ?_⟩,
      halone.marks node name he⟩
    · exact hother hf (halone.exprs node name he e he' hspan)
    · exact absurd (List.inj_on_of_nodup_map hn he' he hid) (hother hf)
  obtain ⟨hcheck, htypes⟩ := checkModule_confined (r.checkContext path m) hpermits {}
  refine ⟨?_, ?_, ?_⟩
  · have hspans := nodup_map_of_subperm (names_spans_subperm hm) halone.nodup
    rw [List.map_map] at hspans
    exact List.nodup_iff_count_le_one.1 hspans node.span.stored
  · intro d hd
    rw [check_eq hm] at hd
    exact (hcheck d (Array.mem_toList_iff.1 hd)).resolve_left (Array.not_mem_empty d)
  · intro t ht
    rw [check_eq hm] at ht
    exact (htypes t (Array.mem_toList_iff.1 ht)).resolve_left (Array.not_mem_empty t)

end Registry

/-- **What is bound to nothing is reported once.** A module has been merged from texts in files of
different names, each of less than 2^32 bytes, which were parsed in a row, with or without others in
between. In any registry, of an identifier of the module that is bound to nothing no more is
reported where types are checked than where names are resolved, and its type is taken to be
unknown. -/
theorem unbound_reported_once (ps : List Parse) (n : Nat) {m : Module} {ds : List Declarations}
    (hm : m.MergedFrom ds) (hds : ds.Subperm ((Parse.runAll ps n).1.filterMap Parsed.program?))
    {files : List String} (hread : List.Forall₂ Declarations.ReadFrom ds files)
    (hfiles : files.Nodup) {r : Registry} {path : String} {m' : Module}
    (hfind : r.find? path = some m') (hdecls : m'.decls = m.decls) {node : Node} {name : String}
    (he : .ident node name ∈ m.exprs) (hb : (r.names path).binding? node.id = none) :
    r.ReportsOnce path node := by
  have hexprs : m'.exprs = m.exprs := by rw [Module.exprs, Module.exprs, hdecls]
  have hmarks : m'.marks = m.marks := by rw [Module.marks, Module.marks, hdecls]
  have hn : m'.Numbered := by
    rw [Module.Numbered, hexprs]
    exact hm.numbered hds
  have halone : IdentifiersAlone m'.exprs m'.marks := by
    rw [hexprs, hmarks]
    exact hm.identifiersAlone hread hfiles
  exact Registry.reportsOnce_of_unbound hfind hn halone (hexprs ▸ he) hb

/-- The module of two files, which refer to nothing by the same name and at the same byte. -/
def twoFiles (d d' : Declarations) : Module :=
  (Module.ofFile "main" (.root "app") d "a.mg").merge (.ofFile "main" (.root "app") d' "b.mg")

/-- The first is called where it is, and the second is an operand. -/
theorem unbound_reported_once_twoFiles :
    let sources := [Parse.source "a.mg" "fn f() \x7b x(1); \x7d",
      .source "b.mg" "fn g() \x7b x + 1; \x7d"]
    ∃ d d', (Parse.runAll sources 0).1 = [.program d, .program d'] ∧
      let m := twoFiles d d'
      let r := Registry.initial.insert m
      ∃ node name, .ident node name ∈ m.exprs ∧ node.span = ⟨"a.mg", 9, 10⟩ ∧
        (r.names "main").binding? node.id = none ∧ r.ReportsOnce "main" node := by
  intro sources
  have hfirst : (parseSource "a.mg" "fn f() \x7b x(1); \x7d" 0).2 = 3 := by decide +kernel
  have hrun : ((parseSource "a.mg" "fn f() \x7b x(1); \x7d" 0).1.toOption.bind fun d =>
      (parseSource "b.mg" "fn g() \x7b x + 1; \x7d" 3).1.toOption.bind fun d' =>
        ((twoFiles d d').exprs.find? (·.leaf? == some ⟨"a.mg", 9, 10⟩)).map fun e =>
          ((Registry.initial.insert (twoFiles d d')).names "main").binding? e.id) = some none := by
    decide +kernel
  obtain ⟨d, hd, hrun⟩ := Option.bind_eq_some_iff.1 hrun
  obtain ⟨d', hd', hrun⟩ := Option.bind_eq_some_iff.1 hrun
  obtain ⟨e, he, hb⟩ := Option.map_eq_some_iff.1 hrun
  have hleaf : e.leaf? = some ⟨"a.mg", 9, 10⟩ := by simpa using List.find?_some he
  have hmem := List.mem_of_find?_eq_some he
  obtain ⟨node, name, rfl⟩ : ∃ node name, e = .ident node name := by
    cases e <;> first | exact ⟨_, _, rfl⟩ | cases hleaf
  have hprograms : (Parse.runAll sources 0).1 = [.program d, .program d'] := by
    simp [sources, Parse.runAll, Parse.run, hfirst, hd, hd']
  have hmerged : (twoFiles d d').MergedFrom [d, d'] := .merge (.file ..) (.file ..)
  have hread : List.Forall₂ Declarations.ReadFrom [d, d'] ["a.mg", "b.mg"] :=
    .cons ⟨_, _, by decide, eq_ok_of_toOption hd⟩
      (.cons ⟨_, _, by decide, eq_ok_of_toOption hd'⟩ .nil)
  refine ⟨d, d', hprograms, node, name, hmem, Option.some.inj hleaf, hb, ?_⟩
  refine unbound_reported_once sources 0 hmerged ?_ hread (by decide) ?_ rfl hmem hb
  · rw [hprograms]
    exact .refl _
  · rw [Registry.find?_insert]
    rfl

/-- The start of a function, whose statement is bound to nothing. -/
def unboundFront : Pieces :=
  [(.word, ['f', 'n']), (.blank, [' ']), (.word, ['f']), (.mark .openParen ['('], ['(']),
    (.mark .closeParen [')'], [')']), (.blank, [' ']), (.mark .openCurly ['\x7b'], ['\x7b']),
    (.blank, [' ']), (.word, ['x']), (.mark .semicolon [';'], [';'])]

theorem scan_unboundFront (behind : List Char) :
    Scan behind ("fn f() \x7b x;".toList ++ behind) unboundFront := by
  have hstatement := @Scan.piece behind .word ['x'] _ _ rfl
    (@Scan.piece behind (.mark .semicolon [';']) [';'] _ _ rfl .here)
  have hbody := @Scan.piece _ (.mark .openCurly ['\x7b']) ['\x7b'] _ _ rfl
    (@Scan.piece _ .blank [' '] _ _ rfl hstatement)
  have hgap := @Scan.piece _ .blank [' '] _ _ rfl hbody
  have hparams := @Scan.piece _ (.mark .openParen ['(']) ['('] _ _ rfl
    (@Scan.piece _ (.mark .closeParen [')']) [')'] _ _ rfl hgap)
  exact @Scan.piece _ .word ['f', 'n'] _ _ rfl (@Scan.piece _ .blank [' '] _ _ rfl
    (@Scan.piece _ .word ['f'] _ _ rfl hparams))

/-- What is reported of a condition 2^32 bytes behind a name is reported where the name is kept. -/
theorem unbound_reported_once_farBehind :
    let text := "fn f() \x7b x;".toList ++
      (blanks (UInt32.size - 5) ++ "if 1 \x7b \x7d \x7d".toList)
    ∃ d, (parseSource "a" (.ofList text) 0).1 = .ok d ∧
      let m := Module.ofFile "main" (.root "app") d "a"
      let r := Registry.initial.insert m
      ∃ node name, .ident node name ∈ m.exprs ∧ (r.names "main").binding? node.id = none ∧
        ∃ fault ∈ (r.check (r.names "main")).errors, fault.span.stored = node.span.stored := by
  intro text
  let module (d : Declarations) := Module.ofFile "main" (.root "app") d "a"
  let registry (d : Declarations) := Registry.initial.insert (module d)
  have hrun : (tokensFrom "a" (11 + (UInt32.size - 5)) "if 1 \x7b \x7d \x7d".toList).toOption.any
      (fun tokens =>
        let c := Cursor.ofStream ⟨"a", unboundFront.tokens "a" 0 ++ tokens, UInt32.size + 16⟩ 0
        (readItems c {}).outcome.toOption.any fun d => (module d).exprs.any fun e =>
          e.leaf? == some ⟨"a", 9, 10⟩ && ((registry d).names "main").binding? e.id == none &&
            ((registry d).check ((registry d).names "main")).errors.any
              (·.span.stored == ⟨"a", 9, 10⟩)) = true := by
    decide +kernel
  obtain ⟨tokens, htokens, hread⟩ := (Option.any_eq_true _ _).1 hrun
  obtain ⟨d, hd, hany⟩ := (Option.any_eq_true _ _).1 hread
  obtain ⟨e, he, hany⟩ := List.any_eq_true.1 hany
  simp only [Bool.and_eq_true, beq_iff_eq] at hany
  obtain ⟨⟨hleaf, hunbound⟩, hany⟩ := hany
  obtain ⟨fault, hfault, hspan⟩ := List.any_eq_true.1 hany
  obtain ⟨node, name, rfl⟩ : ∃ node name, e = .ident node name := by
    cases e <;> first | exact ⟨_, _, rfl⟩ | cases hleaf
  have hfront : tokensFrom "a" 0 text = .ok (unboundFront.tokens "a" 0 ++ tokens) := by
    have hbytes : byteLength unboundFront.text = 11 := rfl
    rw [(scan_unboundFront _).tokensFrom_eq, tokensFrom_behind_blanks, hbytes, Nat.zero_add,
      eq_ok_of_toOption htokens]
    rfl
  have hlength : byteLength text = UInt32.size + 16 := by
    rw [byteLength_append, byteLength_append, byteLength_blanks]
    rfl
  refine ⟨d, ?_, node, name, he, hunbound, fault, hfault, ?_⟩
  · rw [parseSource_of_tokens hfront, hlength]
    exact eq_ok_of_toOption hd
  · have hplace : node.span = ⟨"a", 9, 10⟩ := Option.some.inj hleaf
    rw [hplace]
    exact eq_of_beq hspan

end MgLang
