import MgLang.Proofs.CursorLookup
import MgLang.Proofs.Reached
/-!
# The table of types covers the module

Every expression of a module has one entry in the table of types, but for those inside a built-in
receiver, such as the `Std` in `Std.IO.println`. What is not reached by a check is what such a
receiver hides (`Shown`, `reached_shown`).

An entry is filed under the number of its expression, so it matters that no other expression has the
number, in this module or another. That holds of every registry that a compilation comes to
(`Reachable.numbered`).

The main statement is `types_cover_module`.
-/

namespace MgLang

/-! ### What is hidden -/

/-- An expression takes a member of something built in, and another expression is inside that. -/
def Names.Hides (n : Names) : Expr → Expr → Prop
  | .member _ object _ _, x => n.isBuiltin object = true ∧ x ∈ object.inside
  | _, _ => False

theorem Names.Hides.mem_inside {n : Names} {e x : Expr} (h : n.Hides e x) : x ∈ e.inside := by
  cases e with
  | member node object name span => exact inside_subset_within object h.2
  | _ => exact h.elim

theorem Names.Hides.mem_within {n : Names} {e x : Expr} (h : n.Hides e x) : x ∈ e.within :=
  inside_subset_within e h.mem_inside

/-- Numbered apart, two lists have no expression in common. -/
theorem not_mem_of_nodup {es es' : List Expr} (h : ((es ++ es').map Expr.id).Nodup) {x : Expr}
    (hx : x ∈ es) : x ∉ es' := by
  intro hx'
  rw [List.map_append] at h
  exact (List.nodup_append.1 h).2.2 _ (List.mem_map_of_mem hx) _ (List.mem_map_of_mem hx') rfl

/-- Nothing in an expression hides the expression. -/
theorem not_hides_self {n : Names} {e x : Expr} (h : (e.within.map Expr.id).Nodup)
    (hx : x ∈ e.within) : ¬ n.Hides x e := by
  intro hh
  rw [within_eq] at h hx
  refine not_mem_of_nodup h ?_ (List.mem_singleton_self e)
  rcases List.mem_append.1 hx with hx | hx
  · exact inside_nested e x hx hh.mem_within
  · rw [List.mem_singleton.1 hx] at hh
    exact hh.mem_inside

/-- Of some expressions, these are the ones that none of them hides. -/
structure Shown (n : Names) (es shown : List Expr) : Prop where
  nested : Nested es
  sublist : shown.Sublist es
  rest : ∀ x ∈ es, x ∈ shown ∨ ∃ e ∈ es, n.Hides e x
  clear : (es.map Expr.id).Nodup → ∀ x ∈ shown, ∀ e ∈ es, ¬ n.Hides e x

namespace Shown

variable {n : Names} {es es' shown shown' : List Expr}

theorem nil : Shown n [] [] :=
  ⟨.nil, List.Sublist.slnil, List.forall_mem_nil _, fun _ => List.forall_mem_nil _⟩

theorem append (h : Shown n es shown) (h' : Shown n es' shown') :
    Shown n (es ++ es') (shown ++ shown') := by
  refine ⟨h.nested.append h'.nested, h.sublist.append h'.sublist, fun x hx => ?_,
    fun hn x hx e he hh => ?_⟩
  · rcases List.mem_append.1 hx with hx | hx
    · rcases h.rest x hx with hs | ⟨e, he, hh⟩
      · exact .inl (List.mem_append_left _ hs)
      · exact .inr ⟨e, List.mem_append_left _ he, hh⟩
    · rcases h'.rest x hx with hs | ⟨e, he, hh⟩
      · exact .inl (List.mem_append_right _ hs)
      · exact .inr ⟨e, List.mem_append_right _ he, hh⟩
  · have hapart := fun (x : Expr) => not_mem_of_nodup (x := x) hn
    rw [List.map_append] at hn
    obtain ⟨hl, hr, -⟩ := List.nodup_append.1 hn
    rcases List.mem_append.1 hx with hx | hx <;> rcases List.mem_append.1 he with he | he
    · exact h.clear hl x hx e he hh
    · exact hapart x (h.sublist.subset hx) (h'.nested e he hh.mem_within)
    · exact hapart x (h.nested e he hh.mem_within) (h'.sublist.subset hx)
    · exact h'.clear hr x hx e he hh

theorem flatMap {α : Type} {f g : α → List Expr} (h : ∀ a, Shown n (f a) (g a)) :
    ∀ as : List α, Shown n (as.flatMap f) (as.flatMap g)
  | [] => .nil
  | a :: as => (h a).append (flatMap h as)

/-- An expression that hides nothing, with what is shown inside it. -/
theorem within {e : Expr} (h : Shown n e.inside shown) (hv : ∀ x, ¬ n.Hides e x) :
    Shown n e.within (shown ++ [e]) := by
  refine ⟨within_nested e, ?_, fun x hx => ?_, fun hn x hx y hy hh => ?_⟩
  · rw [within_eq]
    exact h.sublist.append (.refl _)
  · rw [within_eq] at hx ⊢
    rcases List.mem_append.1 hx with hx | hx
    · rcases h.rest x hx with hs | ⟨y, hy, hh⟩
      · exact .inl (List.mem_append_left _ hs)
      · exact .inr ⟨y, List.mem_append_left _ hy, hh⟩
    · exact .inl (List.mem_append_right _ hx)
  · rcases List.mem_append.1 hx with hx | hx
    · rw [within_eq] at hn hy
      rcases List.mem_append.1 hy with hy | hy
      · rw [List.map_append] at hn
        exact h.clear (List.nodup_append.1 hn).1 x hx y hy hh
      · exact hv x (List.mem_singleton.1 hy ▸ hh)
    · rw [List.mem_singleton.1 hx] at hh
      exact not_hides_self hn hy hh

/-- A member of something built in hides all that is inside that. -/
theorem builtinMember {object : Expr} (h : n.isBuiltin object = true) (node : Node) (name : String)
    (span : Span) :
    Shown n (Expr.member node object name span).within
      [object, .member node object name span] := by
  have he := within_eq (.member node object name span)
  refine ⟨within_nested _, ?_, fun x hx => ?_, fun hn x hx y hy hh => ?_⟩
  · rw [he]
    exact (List.singleton_sublist.2 (mem_within_self object)).append (.refl _)
  · rw [he] at hx
    rcases List.mem_append.1 hx with hx | hx
    · rw [Expr.inside, within_eq] at hx
      rcases List.mem_append.1 hx with hx | hx
      · exact .inr ⟨_, mem_within_self _, h, hx⟩
      · rw [List.mem_singleton.1 hx]
        exact .inl List.mem_cons_self
    · exact .inl (List.mem_cons_of_mem _ hx)
  · rcases List.mem_cons.1 hx with rfl | hx
    · rw [he, List.map_append] at hn
      have hn := (List.nodup_append.1 hn).1
      rw [he] at hy
      rcases List.mem_append.1 hy with hy | hy
      · exact not_hides_self hn hy hh
      · -- The member access hides what is inside the receiver, and not the receiver.
        rw [List.mem_singleton.1 hy] at hh
        rw [Expr.inside, within_eq] at hn
        exact not_mem_of_nodup hn hh.2 (List.mem_singleton_self x)
    · rw [List.mem_singleton.1 hx] at hh
      exact not_hides_self hn hy hh

end Shown

section

variable (n : Names)

mutual

/-- What is reached of an expression is what is shown of it. -/
theorem reached_shown : ∀ e : Expr, Shown n e.within (e.reached n)
  | .int _ _ | .float _ _ | .string _ _ | .bool _ _ | .ident _ _ | .this _ | .noneLit _ =>
    Shown.nil.within fun _ => id
  | .interpolated _ parts => (partsReached_shown parts).within fun _ => id
  | .someOf _ inner => (reached_shown inner).within fun _ => id
  | .binary _ _ left right => ((reached_shown left).append (reached_shown right)).within fun _ => id
  | .unary _ _ operand => (reached_shown operand).within fun _ => id
  | .assign _ target value =>
    ((reached_shown target).append (reached_shown value)).within fun _ => id
  | .call _ callee args =>
    ((reached_shown callee).append (exprsReached_shown args)).within fun _ => id
  | .member node object name span => by
    rw [Expr.reached]
    by_cases h : n.isBuiltin object = true
    · rw [if_pos h]
      exact .builtinMember h node name span
    · rw [if_neg h]
      exact Shown.within (e := .member node object name span) (reached_shown object)
        fun _ hh => h hh.1
  | .index _ object place =>
    ((reached_shown object).append (reached_shown place)).within fun _ => id
  | .new _ _ _ args => (exprsReached_shown args).within fun _ => id
  | .array _ items => (exprsReached_shown items).within fun _ => id
  | .lambda _ _ _ body => (blockReached_shown body).within fun _ => id

theorem exprsReached_shown : ∀ es : List Expr, Shown n (exprsWithin es) (exprsReached n es)
  | [] => .nil
  | e :: es => (reached_shown e).append (exprsReached_shown es)

theorem partsReached_shown : ∀ parts : List Part, Shown n (partsWithin parts) (partsReached n parts)
  | [] => .nil
  | .text _ :: parts => partsReached_shown parts
  | .hole e :: parts => (reached_shown e).append (partsReached_shown parts)

theorem stmtReached_shown : ∀ stmt : Stmt, Shown n stmt.within (stmt.reached n)
  | .letStmt _ _ _ value _ _ => reached_shown value
  | .returnStmt none _ => .nil
  | .returnStmt (some value) _ => reached_shown value
  | .ifStmt condition body none _ => (reached_shown condition).append (blockReached_shown body)
  | .ifStmt condition body (some otherwise) _ =>
    ((reached_shown condition).append (blockReached_shown body)).append
      (stmtReached_shown otherwise)
  | .whileStmt condition body _ => (reached_shown condition).append (blockReached_shown body)
  | .forStmt _ _ iterable body _ => (reached_shown iterable).append (blockReached_shown body)
  | .matchStmt scrutinee arms _ => (reached_shown scrutinee).append (armsReached_shown arms)
  | .block body => blockReached_shown body
  | .expr value => reached_shown value

theorem stmtsReached_shown : ∀ stmts : List Stmt,
    Shown n (stmtsWithin stmts) (stmtsReached n stmts)
  | [] => .nil
  | stmt :: stmts => (stmtReached_shown stmt).append (stmtsReached_shown stmts)

theorem blockReached_shown : ∀ body : Block, Shown n body.within (body.reached n)
  | ⟨stmts, _⟩ => stmtsReached_shown stmts

theorem armsReached_shown : ∀ arms : List Arm, Shown n (armsWithin arms) (armsReached n arms)
  | [] => .nil
  | ⟨_, body, _⟩ :: arms => (blockReached_shown body).append (armsReached_shown arms)

end

/-- **What is reached of a module** is what is shown of it. -/
theorem moduleReached_shown (m : Module) : Shown n m.exprs (m.reached n) := by
  have hf (fs : List FunctionDecl) :
      Shown n (fs.flatMap (·.body.within)) (fs.flatMap (·.body.reached n)) :=
    .flatMap (fun f => blockReached_shown n f.body) fs
  have hc (c : ClassDecl) : Shown n c.within (c.reached n) :=
    (exprsReached_shown n c.initials).append (hf c.methods)
  exact (Shown.flatMap hc m.decls.classes).append (hf m.decls.functions)

end

/-! ### Numbers -/

/-- No two expressions have the same number, in one module or in two. -/
structure Registry.Numbered (r : Registry) : Prop where
  modules : ∀ path m, r.find? path = some m → m.Numbered
  apart : ∀ path path' m m', r.find? path = some m → r.find? path' = some m' → path ≠ path' →
    ∀ e ∈ m.exprs, ∀ e' ∈ m'.exprs, e.id ≠ e'.id

namespace Compilation

variable {c : Compilation}

/-- What is kept has been numbered. -/
theorem Sound.lt_nextId (h : c.Sound) {path : String} {e : Expr} (he : e ∈ (c.entry path).exprs) :
    e.id < c.nextId := by
  cases hm : c.registry.find? path with
  | none =>
    unfold Entry.exprs entry at he
    rw [hm] at he
    cases he
  | some m =>
    rw [exprs_entry hm] at he
    exact ((h.counted path m hm).bodies.range e he).2

/-- The expressions kept under different paths have different numbers. -/
def Apart (c : Compilation) : Prop :=
  ∀ p q, p ≠ q → ∀ e ∈ (c.entry p).exprs, ∀ e' ∈ (c.entry q).exprs, e.id ≠ e'.id

/-- After a file was added, an expression is one from before or has a new number. -/
theorem mem_exprs_addAs {path file text : String} {package : Package} {q : String} {e : Expr}
    (he : e ∈ ((c.addAs path file text package).entry q).exprs) :
    e ∈ (c.entry q).exprs ∨ q = path ∧ c.nextId ≤ e.id := by
  rw [entry_addAs] at he
  split at he
  · next hq =>
    rcases (c.entry q).exprs_add path file package (parseSource file text c.nextId).1 with
      hs | ⟨d, hd, hperm⟩
    · rw [hs] at he
      exact .inl he
    · rcases List.mem_append.1 (hperm.mem_iff.2 he) with he | he
      · exact .inl he
      · have hmade := (parseSource_made file text c.nextId).2 d hd
        exact .inr ⟨hq, (hmade.bodies.range e he).1⟩
  · exact .inl he

theorem Apart.addAs (h : c.Apart) (hc : c.Sound) (path file text : String) (package : Package) :
    (c.addAs path file text package).Apart := by
  intro p q hpq e he e' he'
  rcases mem_exprs_addAs he with he | ⟨hp, hle⟩ <;> rcases mem_exprs_addAs he' with he' | ⟨hq, hle'⟩
  · exact h p q hpq e he e' he'
  · have hlt := hc.lt_nextId he
    omega
  · have hlt := hc.lt_nextId he'
    omega
  · exact absurd (hp.trans hq.symm) hpq

theorem Reachable.apart (h : c.Reachable) : c.Apart := by
  induction h with
  | initial =>
    intro p q _ e he
    have hnone : (({} : Compilation).entry p).exprs = [] := by
      unfold Entry.exprs entry
      rw [Registry.find?_initial]
      split <;> rfl
    rw [hnone] at he
    cases he
  | addAs hc path file text package ih => exact ih.addAs hc.sound path file text package
  | @check c _ ih =>
    have he (path : String) : c.check.2.entry path = c.entry path := entry_recordImports c path
    unfold Apart
    simp only [he]
    exact ih

/-- **No number is given twice** in the registry of a compilation. -/
theorem Reachable.numbered (h : c.Reachable) : c.registry.Numbered := by
  refine ⟨fun path m hm => (h.sound.counted path m hm).bodies.nodup, ?_⟩
  intro path path' m m' hm hm' hne e he e' he'
  rw [← exprs_entry hm] at he
  rw [← exprs_entry hm'] at he'
  exact h.apart path path' hne e he e' he'

end Compilation

/-! ### The table -/

/-- The entries of the table are those of the expressions that a check reaches. -/
theorem check_nodes_eq {r : Registry} {path : String} {m : Module} (hm : r.find? path = some m) :
    (r.check (r.names path)).nodes.map (·.node) = nodes (m.reached (r.names path)) := by
  obtain ⟨ts, ht, hnodes⟩ := checkModule_reaches (r.checkContext path m) {}
  have hcheck : (r.check (r.names path)).nodes = ts := by
    rw [check_eq hm]
    exact ht
  rw [hcheck]
  exact hnodes

/-- **The table of types covers the module.** Whatever faults are reported, an expression of the
module has one entry, unless a member is taken of something built in and the expression is inside
that; then it has none. No expression of another module has an entry. -/
theorem types_cover_module {r : Registry} (hr : r.Numbered) {path : String} {m : Module}
    (hm : r.find? path = some m) :
    let names := r.names path
    let keys := (r.check names).nodes.map (·.node.id)
    keys.Nodup ∧
    (∀ i, i ∈ keys ↔ ∃ e ∈ m.exprs, e.id = i ∧ ¬ ∃ x ∈ m.exprs, names.Hides x e) ∧
    ∀ path' m', r.find? path' = some m' → path' ≠ path → ∀ e ∈ m'.exprs, e.id ∉ keys := by
  intro names keys
  have hn : m.Numbered := hr.modules path m hm
  have hs := moduleReached_shown names m
  have hkeys : keys = (m.reached names).map Expr.id := by
    have h := congrArg (List.map Node.id) (check_nodes_eq hm)
    rw [List.map_map, nodes, List.map_map] at h
    exact h
  rw [hkeys]
  refine ⟨(hs.sublist.map Expr.id).nodup hn, fun i => ⟨fun hi => ?_, ?_⟩, ?_⟩
  · obtain ⟨e, he, rfl⟩ := List.mem_map.1 hi
    refine ⟨e, hs.sublist.subset he, rfl, ?_⟩
    rintro ⟨x, hx, hh⟩
    exact hs.clear hn e he x hx hh
  · rintro ⟨e, he, rfl, hvisible⟩
    exact List.mem_map_of_mem ((hs.rest e he).resolve_right hvisible)
  · intro path' m' hm' hne e he hi
    obtain ⟨e', he', hid⟩ := List.mem_map.1 hi
    exact hr.apart path path' m m' hm hm' (Ne.symm hne) e' (hs.sublist.subset he') e he hid

/-- A file that calls a built-in function with what a call of an unknown function gives. -/
def printing : Compilation.Addition :=
  ⟨"main", "main.mg", "fn f() \x7b Std.IO.println(g(1)); \x7d", .root "app"⟩

theorem printing_run :
    let r := ((Compilation.fresh 0).apply printing).registry
    (r.find? "main").isSome = true ∧
      (r.check (r.names "main")).nodes.map (·.node.id) = [1, 2, 3, 4, 5, 6] := by
  decide +kernel

/-- All that stands in the argument has a type, and the first expression, which is `Std`, is
hidden. -/
theorem types_cover_module_printing :
    let r := ((Compilation.fresh 0).apply printing).registry
    ∃ m, (r.Numbered ∧ r.find? "main" = some m) ∧
      ((r.check (r.names "main")).nodes.map (·.node.id)).Nodup ∧
      ∀ e ∈ m.exprs, e.id = 0 → ∃ x ∈ m.exprs, (r.names "main").Hides x e := by
  intro r
  obtain ⟨hsome, hkeys⟩ := printing_run
  obtain ⟨m, hm⟩ := Option.isSome_iff_exists.1 hsome
  have hr : r.Numbered :=
    (Compilation.Reachable.addAs .initial printing.path printing.file printing.text
      printing.package).numbered
  obtain ⟨hnodup, hcover, -⟩ := types_cover_module hr hm
  refine ⟨m, ⟨hr, hm⟩, hnodup, fun e he hid => Classical.byContradiction fun hvisible => ?_⟩
  have hmem := (hcover 0).2 ⟨e, he, hid, hvisible⟩
  rw [hkeys] at hmem
  exact absurd hmem (by decide)

end MgLang
