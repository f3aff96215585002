import MgLang.Proofs.Covering
import Mathlib.Data.List.Flatten
/-!
# Parses in a row

One count runs through all that is parsed, whether or not a parse succeeds (`Parse.runAll`). So an
expression has a number that no other has, its number is greater than those inside it, and a later
parse gives greater numbers than an earlier one (`Parse.runAll_made`).

The count is kept in a word and goes back to zero behind the greatest (`Expr.word`). Words still
tell expressions apart as long as there are no more expressions than words, wherever the count
begins, but they are in order only up to where it goes back.

This is what the tables of a module rest on, which keep what was found out about an expression under
its word: however the module was merged from files, no two expressions share an entry
(`Module.filed`). The main statement is `Parse.runAll_identified`.
-/

namespace MgLang

/-! ### Words -/

/-- The number of an expression as it is kept, in a word of 32 bits. -/
def Expr.word (e : Expr) : UInt32 :=
  UInt32.ofNat e.id

/-- Numbers that are less than a round apart differ as words. -/
theorem word_ne {lo i j : Nat} (hne : i ≠ j) (hi : lo ≤ i ∧ i < lo + UInt32.size)
    (hj : lo ≤ j ∧ j < lo + UInt32.size) : UInt32.ofNat i ≠ UInt32.ofNat j := by
  intro heq
  have hmod := congrArg UInt32.toNat heq
  rw [UInt32.toNat_ofNat', UInt32.toNat_ofNat'] at hmod
  have hsize : UInt32.size = 4294967296 := rfl
  omega

/-- Numbers that fit into words are in the same order as these. -/
theorem word_lt {i j : Nat} (hlt : i < j) (hj : j < UInt32.size) :
    UInt32.ofNat i < UInt32.ofNat j := by
  rw [UInt32.lt_iff_toNat_lt, UInt32.toNat_ofNat_of_lt' (Nat.lt_trans hlt hj),
    UInt32.toNat_ofNat_of_lt' hj]
  exact hlt

/-- Expressions that were made in one round have different words. -/
theorem Made.words_nodup {lo hi : Nat} {es : List Expr} {ss : List (Ty × Stmt)}
    (h : Made lo hi es ss) (hfew : hi ≤ lo + UInt32.size) : (es.map Expr.word).Nodup := by
  refine List.pairwise_map.2 ((List.pairwise_map.1 h.nodup).imp_of_mem ?_)
  intro e e' he he' hne
  have hr := h.range e he
  have hr' := h.range e' he'
  exact word_ne hne ⟨hr.1, by omega⟩ ⟨hr'.1, by omega⟩

/-! ### Parses -/

/-- Something to be parsed. -/
inductive Parse where
  /-- Declarations, from their tokens. -/
  | tokens (s : TokenStream)
  /-- The declarations of a source text. -/
  | source (file text : String)
  /-- An expression whose text starts `offset` bytes into the file. -/
  | expression (file text : String) (offset : Nat)

/-- What a parse returns. -/
inductive Parsed where
  | program (d : Declarations)
  | expression (e : Expr)

namespace Parsed

/-- Every expression of what was parsed. -/
def exprs : Parsed → List Expr
  | program d => d.exprs
  | expression e => e.within

/-- The declarations, if it was not an expression that was parsed. -/
def program? : Parsed → Option Declarations
  | program d => some d
  | expression _ => none

end Parsed

namespace Parse

/-- What the parse returns if it succeeds, and how far it counts from `n`. -/
def run (p : Parse) (n : Nat) : Option Parsed × Nat :=
  match p with
  | tokens s =>
    let x := readItems (.ofStream s n) {}
    (x.outcome.toOption.map .program, x.next.nextId)
  | source file text =>
    let x := parseSource file text n
    (x.1.toOption.map .program, x.2)
  | expression file text offset =>
    let x := parseExpr file text offset n
    (x.1.toOption.map .expression, x.2)

/-- What is returned by the parses that succeed, when each counts on from the one before. -/
def runAll : List Parse → Nat → List Parsed × Nat
  | [], n => ([], n)
  | p :: ps, n =>
    let x := p.run n
    let y := runAll ps x.2
    (x.1.toList ++ y.1, y.2)

/-- A parse counts on, and what it returns was made on the way. -/
theorem run_made (p : Parse) (n : Nat) :
    n ≤ (p.run n).2 ∧ ∀ r ∈ (p.run n).1, ∃ ss, Made n (p.run n).2 r.exprs ss := by
  cases p with
  | tokens s =>
    obtain ⟨hle, hmade⟩ := readItems_made (.ofStream s n) (.empty n) rfl
    refine ⟨hle, fun r hr => ?_⟩
    obtain ⟨d, hd, rfl⟩ := Option.map_eq_some_iff.1 hr
    exact ⟨_, (hmade d (eq_ok_of_toOption hd)).bodies⟩
  | source file text =>
    obtain ⟨hle, hmade⟩ := parseSource_made file text n
    refine ⟨hle, fun r hr => ?_⟩
    obtain ⟨d, hd, rfl⟩ := Option.map_eq_some_iff.1 hr
    exact ⟨_, (hmade d (eq_ok_of_toOption hd)).bodies⟩
  | expression file text offset =>
    obtain ⟨hle, hmade⟩ := parseExpr_made file text offset n
    refine ⟨hle, fun r hr => ?_⟩
    obtain ⟨e, he, rfl⟩ := Option.map_eq_some_iff.1 hr
    exact ⟨_, hmade e (eq_ok_of_toOption he)⟩

/-- Parses in a row count on, what they return was made on the way, and what is returned later was
made later. -/
theorem runAll_made (ps : List Parse) (n : Nat) :
    (∃ ss, Made n (runAll ps n).2 ((runAll ps n).1.flatMap Parsed.exprs) ss) ∧
      (runAll ps n).1.Pairwise fun r r' => ∀ e ∈ r.exprs, ∀ e' ∈ r'.exprs, e.id < e'.id := by
  induction ps generalizing n with
  | nil => exact ⟨⟨[], .nil n⟩, .nil⟩
  | cons p ps ih =>
    obtain ⟨hle, hmade⟩ := p.run_made n
    obtain ⟨⟨ss, hrest⟩, hlater⟩ := ih (p.run n).2
    simp only [runAll]
    cases hr : (p.run n).1 with
    | none => exact ⟨⟨ss, hrest.mono hle (Nat.le_refl _)⟩, hlater⟩
    | some r =>
      obtain ⟨ss', hfirst⟩ := hmade r hr
      refine ⟨⟨_, hfirst.append hrest⟩, List.pairwise_cons.2 ⟨fun r' hr' e he e' he' => ?_, hlater⟩⟩
      have hlt := (hfirst.range e he).2
      have hge := (hrest.range e' (List.mem_flatMap.2 ⟨r', hr', he'⟩)).1
      omega

theorem runAll_append (ps qs : List Parse) (n : Nat) :
    runAll (ps ++ qs) n = ((runAll ps n).1 ++ (runAll qs (runAll ps n).2).1,
      (runAll qs (runAll ps n).2).2) := by
  induction ps generalizing n with
  | nil => rfl
  | cons p ps ih =>
    simp only [List.cons_append, runAll, ih, List.append_assoc]

/-- A source text counts on by as much each time. -/
theorem runAll_replicate_source (file text : String) (k n : Nat) :
    (runAll (List.replicate k (.source file text)) n).2 = k * exprCount file text + n := by
  induction k generalizing n with
  | zero => rw [Nat.zero_mul, Nat.zero_add, List.replicate_zero, runAll]
  | succ k ih =>
    have hnext : ((source file text).run n).2 = exprCount file text + n :=
      congrArg Prod.snd (parseSource_eq file text n)
    rw [List.replicate_succ, runAll, hnext, ih, Nat.add_one_mul, Nat.add_assoc]

end Parse

/-! ### Modules -/

/-- The module was merged from files with these declarations. -/
inductive Module.MergedFrom : Module → List Declarations → Prop
  | file (path : String) (package : Package) (d : Declarations) (file : String) :
    MergedFrom (.ofFile path package d file) [d]
  | merge {m m' : Module} {ds ds' : List Declarations} (h : MergedFrom m ds)
    (h' : MergedFrom m' ds') : MergedFrom (m.merge m') (ds ++ ds')

theorem Module.MergedFrom.exprs_perm {m : Module} {ds : List Declarations}
    (h : m.MergedFrom ds) : m.exprs.Perm (ds.flatMap Declarations.exprs) := by
  induction h with
  | file path package d file =>
    rw [List.flatMap_singleton]
    exact .refl _
  | @merge m m' ds ds' _ _ ih ih' =>
    rw [List.flatMap_append]
    exact (Declarations.exprs_append_perm m.decls m'.decls _).symm.trans (ih.append ih')

/-- The tables of a module hold one entry for an expression at most, and no entry for two: the words
under which they keep their entries differ. -/
structure Module.Filed (m : Module) (r : Registry) (path : String) : Prop where
  references : ((r.names path).references.toList.map fun ref => UInt32.ofNat ref.node).Nodup
  referring : ∀ ref ∈ (r.names path).references.toList, ∃ e ∈ m.exprs, e.id = ref.node
  types : ((r.check (r.names path)).nodes.map fun t => UInt32.ofNat t.node.id).Nodup
  typed : ∀ t ∈ (r.check (r.names path)).nodes, ∃ e ∈ m.exprs, e.node = t.node

theorem Site.id_of_reference? {s : Site} {ref : Reference} (h : s.reference? = some ref) :
    s.expr.id = ref.node := by
  unfold Site.reference? at h
  split at h
  · next node name he =>
    obtain ⟨b, -, rfl⟩ := Option.map_eq_some_iff.1 h
    rw [he]
    rfl
  · next node className classSpan args he =>
    split at h
    · cases h
      rw [he]
      rfl
    · cases h
  · cases h

theorem nodup_map_of_subperm {α β : Type} {f : α → β} {as bs : List α} (h : as.Subperm bs)
    (hb : (bs.map f).Nodup) : (as.map f).Nodup := by
  obtain ⟨cs, hperm, hsub⟩ := h
  exact (hperm.map f).nodup_iff.1 ((hsub.map f).nodup hb)

/-- What is found at some of the elements is in its place among what is at more of them. -/
theorem map_filterMap_sublist {α β γ : Type} {f : α → Option β} {g : β → γ} {k : α → Option γ}
    (h : ∀ a b, f a = some b → k a = some (g b)) (as : List α) :
    ((as.filterMap f).map g).Sublist (as.filterMap k) := by
  induction as with
  | nil => exact .slnil
  | cons a as ih =>
    cases hf : f a with
    | some b =>
      rw [List.filterMap_cons_some hf, List.map_cons, List.filterMap_cons_some (h a b hf)]
      exact ih.cons_cons _
    | none =>
      rw [List.filterMap_cons_none hf]
      exact ih.trans ((List.sublist_cons_self _ _).filterMap _)

/-- The references of a module are those of some of its expressions, each at most once. -/
theorem references_nodes_subperm {r : Registry} {path : String} {m : Module}
    (hm : r.find? path = some m) :
    ((r.names path).references.toList.map (·.node)).Subperm (m.exprs.map Expr.id) := by
  have hsub := map_filterMap_sublist (g := (·.node)) (k := fun s : Site => some s.expr.id)
    (fun s ref href => congrArg some (Site.id_of_reference? href)) (r.sites m)
  rw [List.filterMap_eq_map'] at hsub
  have hperm := (sites_perm_exprs r m).map Expr.id
  rw [List.map_map] at hperm
  rw [references_eq_sites hm]
  exact hsub.subperm.trans hperm.subperm

/-- Where words tell the expressions of a module apart, its tables do. -/
theorem Module.filed {m : Module} (hn : (m.exprs.map Expr.word).Nodup) {r : Registry}
    {path : String} (hm : r.find? path = some m) : m.Filed r path := by
  have hrefs := references_nodes_subperm hm
  have hreached := (moduleReached_shown (r.names path) m).sublist
  have hnodes := check_nodes_eq hm
  have hids : ((m.exprs.map Expr.id).map UInt32.ofNat).Nodup := by rwa [List.map_map]
  have hrefwords := nodup_map_of_subperm hrefs hids
  have hwords : (r.check (r.names path)).nodes.map (fun t => UInt32.ofNat t.node.id) =
      (m.reached (r.names path)).map Expr.word := by
    have h := congrArg (List.map fun n : Node => UInt32.ofNat n.id) hnodes
    rwa [List.map_map, nodes, List.map_map] at h
  rw [List.map_map] at hrefwords
  refine ⟨hrefwords, fun ref href => ?_, ?_, fun t ht => ?_⟩
  · exact List.mem_map.1 (hrefs.subset (List.mem_map_of_mem href))
  · rw [hwords]
    exact (hreached.map Expr.word).nodup hn
  · have hmem := List.mem_map_of_mem (f := (·.node)) ht
    rw [hnodes] at hmem
    obtain ⟨e, he, hnode⟩ := List.mem_map.1 hmem
    exact ⟨e, hreached.subset he, hnode⟩

/-! ### What numbers are good for -/

/-- Words tell the expressions of everything that was parsed apart, in the order in which they were
made up to where the count goes back to zero. `hi` is the first number that is still free. -/
structure Identified (hi : Nat) (rs : List Parsed) : Prop where
  distinct : ((rs.flatMap Parsed.exprs).map Expr.word).Nodup
  inside : hi ≤ UInt32.size → ∀ e ∈ rs.flatMap Parsed.exprs, ∀ x ∈ e.inside, x.word < e.word
  later : hi ≤ UInt32.size →
    rs.Pairwise fun r r' => ∀ e ∈ r.exprs, ∀ e' ∈ r'.exprs, e.word < e'.word
  /-- A module that is merged from programs has tables in which they are apart, wherever it
  stands. -/
  merged : ∀ (m : Module) (ds : List Declarations), m.MergedFrom ds →
    ds.Subperm (rs.filterMap Parsed.program?) → (m.exprs.map Expr.word).Nodup ∧
      ∀ (r : Registry) (path : String) (m' : Module), r.find? path = some m' →
        m'.decls = m.decls → m'.Filed r path

theorem Parsed.programs_sublist (rs : List Parsed) :
    ((rs.filterMap program?).flatMap Declarations.exprs).Sublist (rs.flatMap exprs) := by
  induction rs with
  | nil => exact .slnil
  | cons r rs ih =>
    cases r with
    | program d =>
      have hd : ((Parsed.program d :: rs).filterMap program?) = d :: rs.filterMap program? := rfl
      rw [hd, List.flatMap_cons, List.flatMap_cons]
      exact (List.Sublist.refl d.exprs).append ih
    | expression e =>
      rw [List.flatMap_cons]
      exact ih.trans (List.sublist_append_right _ _)

/-- The expressions of a module that was merged from what was parsed are among these. -/
theorem Module.MergedFrom.exprs_subperm {m : Module} {ds : List Declarations} (hm : m.MergedFrom ds)
    {rs : List Parsed} (hds : ds.Subperm (rs.filterMap Parsed.program?)) :
    m.exprs.Subperm (rs.flatMap Parsed.exprs) := by
  obtain ⟨ds', hperm, hds'⟩ := hds
  have hexprs : m.exprs.Perm (ds'.flatMap Declarations.exprs) :=
    hm.exprs_perm.trans (hperm.symm.flatMap_right _)
  exact hexprs.subperm.trans ((hds'.flatMap _).trans (Parsed.programs_sublist rs)).subperm

/-- Numbers tell the expressions of a module apart that was merged from what was parsed. -/
theorem Module.MergedFrom.numbered {m : Module} {ds : List Declarations} (hm : m.MergedFrom ds)
    {ps : List Parse} {n : Nat}
    (hds : ds.Subperm ((Parse.runAll ps n).1.filterMap Parsed.program?)) : m.Numbered := by
  obtain ⟨⟨ss, hmade⟩, -⟩ := Parse.runAll_made ps n
  exact nodup_map_of_subperm (hm.exprs_subperm hds) hmade.nodup

/-- **Words identify expressions.** Whatever is parsed in a row, from whatever number on and whether
or not it is found to be wrong half way, no two expressions in what is returned have the same word,
if no more than 2^32 are made. As long as the count has not gone back to zero, words are in the
order in which the expressions were made. -/
theorem Parse.runAll_identified (ps : List Parse) (n : Nat)
    (hfew : (runAll ps n).2 ≤ n + UInt32.size) :
    Identified (runAll ps n).2 (runAll ps n).1 := by
  obtain ⟨⟨ss, hmade⟩, hlater⟩ := runAll_made ps n
  have hwords := hmade.words_nodup hfew
  refine ⟨hwords, fun hword e he x hx => ?_, fun hword => ?_, fun m ds hm hds => ?_⟩
  · exact word_lt (hmade.inside e he x hx) (Nat.lt_of_lt_of_le (hmade.range e he).2 hword)
  · refine hlater.imp_of_mem fun {r r'} _ hr' hlt e he e' he' => ?_
    have hrange := hmade.range e' (List.mem_flatMap.2 ⟨r', hr', he'⟩)
    exact word_lt (hlt e he e' he') (Nat.lt_of_lt_of_le hrange.2 hword)
  · have hn := nodup_map_of_subperm (hm.exprs_subperm hds) hwords
    refine ⟨hn, fun r path m' hfind hdecls => Module.filed ?_ hfind⟩
    rwa [Module.exprs, hdecls]

/-- The first text breaks off when two expressions of it have been made. -/
theorem Parse.runAll_identified_brokenOff :
    let x := runAll [.source "a" "fn f() \x7b g(1", .source "a" "fn f() \x7b -x; \x7d",
      .expression "a" "$\"\x7by\x7d\" + z" 7, .source "b" "class B \x7b b: int = 1; \x7d"] 1024
    x.2 ≤ 1024 + UInt32.size ∧ Identified x.2 x.1 ∧ x.2 ≤ UInt32.size ∧
      (x.1.map fun r => r.exprs.map Expr.word) =
        [[1026, 1027], [1028, 1029, 1030, 1031], [1032]] := by
  intro x
  have hfew : x.2 ≤ 1024 + UInt32.size := by decide +kernel
  exact ⟨hfew, runAll_identified _ 1024 hfew, by decide +kernel, by decide +kernel⟩

/-- Where the count goes back to zero, an expression gets a word that is less than the one inside
it, although fewer than 2^32 expressions have been made. -/
theorem Parse.runAll_identified_goesBack :
    ∃ ps : List Parse, (runAll ps 1024).2 < 1024 + UInt32.size ∧
      ∃ r ∈ (runAll ps 1024).1, ∃ e ∈ r.exprs, ∃ x ∈ e.inside, e.word < x.word := by
  have hcount : exprCount "a" "fn f() \x7b x; \x7d" = 1 := by decide +kernel
  have hfirst := runAll_replicate_source "a" "fn f() \x7b x; \x7d" (UInt32.size - 1025) 1024
  have hlast : (runAll [.source "a" "fn f() \x7b -x; \x7d"] (UInt32.size - 1)).2 =
      UInt32.size + 1 ∧
      ((runAll [.source "a" "fn f() \x7b -x; \x7d"] (UInt32.size - 1)).1.any fun r =>
        r.exprs.any fun e => e.inside.any fun x => decide (e.word < x.word)) = true := by
    decide +kernel
  obtain ⟨hnext, hany⟩ := hlast
  obtain ⟨r, hr, hany⟩ := List.any_eq_true.1 hany
  obtain ⟨e, he, hany⟩ := List.any_eq_true.1 hany
  obtain ⟨x, hx, hlt⟩ := List.any_eq_true.1 hany
  have hend : (UInt32.size - 1025) * 1 + 1024 = UInt32.size - 1 := by decide
  rw [hcount, hend] at hfirst
  generalize List.replicate _ _ = ps at hfirst
  refine ⟨ps ++ [.source "a" "fn f() \x7b -x; \x7d"], ?_, r, ?_, e, he, x, hx,
    of_decide_eq_true hlt⟩
  · rw [runAll_append, hfirst, hnext]
    decide
  · rw [runAll_append, hfirst]
    exact List.mem_append_right _ hr

end MgLang
