import Mathlib.Data.List.Induction
import MgLang.Navigation
import MgLang.Proofs.ClassNames
import MgLang.Proofs.Reachable
/-!
# Completion offers what names mean

`Registry.Offers` says what a name means at the top of a module, declaration by declaration: a class
of the module before a function of the module, both before what is built in, and that before what
the imports bring; of equals the last counts.

The scope of a module is built by declaring all of that in the opposite order, each declaration over
the ones before it. `lookup_rootEnv` says that what is left is what `Registry.Offers` says. It is
read off in two ways: the completions list it in the order of the names, and the walk over the
module looks identifiers up in it. `completions_exact` is that both agree.
-/

namespace MgLang

/-! ### The last of a list -/

/-- The last element of a list that satisfies `p`, and its place. -/
structure LastAt {α : Type} (p : α → Prop) (xs : List α) (idx : Nat) (x : α) : Prop where
  here : xs[idx]? = some x
  holds : p x
  last : ∀ j y, idx < j → xs[j]? = some y → ¬ p y

section

variable {α : Type} {p : α → Prop} {xs : List α} {x y : α} {idx : Nat}

theorem LastAt.mem (h : LastAt p xs idx x) : x ∈ xs :=
  List.mem_of_getElem? h.here

theorem lastAt_concat :
    LastAt p (xs ++ [x]) idx y ↔
      p x ∧ idx = xs.length ∧ y = x ∨ ¬ p x ∧ LastAt p xs idx y := by
  constructor
  · rintro ⟨here, holds, last⟩
    have hlast : (xs ++ [x])[xs.length]? = some x := by simp
    rcases Nat.lt_trichotomy idx xs.length with hlt | rfl | hlt
    · refine .inr ⟨last _ _ hlt hlast, ?_, holds, fun j z hj hz => last j z hj ?_⟩
      · rwa [List.getElem?_append_left hlt] at here
      · obtain ⟨hlen, -⟩ := List.getElem?_eq_some_iff.1 hz
        rwa [List.getElem?_append_left hlen]
    · cases hlast.symm.trans here
      exact .inl ⟨holds, rfl, rfl⟩
    · rw [List.getElem?_eq_none (by simp; omega)] at here
      cases here
  · rintro (⟨holds, rfl, rfl⟩ | ⟨hx, here, holds, last⟩)
    · refine ⟨by simp, holds, fun j z hj hz => ?_⟩
      rw [List.getElem?_eq_none (by simp; omega)] at hz
      cases hz
    · obtain ⟨hlen, -⟩ := List.getElem?_eq_some_iff.1 here
      refine ⟨by rwa [List.getElem?_append_left hlen], holds, fun j z hj hz => ?_⟩
      rw [List.getElem?_append] at hz
      split at hz
      · exact last j z hj hz
      · obtain rfl : z = x := by simpa using List.mem_of_getElem? hz
        exact hx

theorem exists_lastAt_iff (p : α → Prop) (xs : List α) :
    (∃ idx x, LastAt p xs idx x) ↔ ∃ x ∈ xs, p x := by
  refine ⟨fun ⟨_, x, h⟩ => ⟨x, h.mem, h.holds⟩, ?_⟩
  induction xs using List.reverseRecOn with
  | nil => simp
  | append_singleton xs x ih =>
    rintro ⟨y, hy, h⟩
    by_cases hx : p x
    · exact ⟨_, x, lastAt_concat.2 (.inl ⟨hx, rfl, rfl⟩)⟩
    · rcases List.mem_append.1 hy with hy | hy
      · obtain ⟨idx, z, hz⟩ := ih ⟨y, hy, h⟩
        exact ⟨idx, z, lastAt_concat.2 (.inr ⟨hx, hz⟩)⟩
      · exact absurd (List.mem_singleton.1 hy ▸ h) hx

theorem lastAt_zipIdx {y : α × Nat} :
    LastAt (fun y => p y.1) xs.zipIdx idx y ↔ LastAt p xs idx y.1 ∧ y.2 = idx := by
  have hzip : ∀ {j : Nat} {z : α × Nat}, xs.zipIdx[j]? = some z ↔ xs[j]? = some z.1 ∧ z.2 = j := by
    rintro j ⟨z, k⟩
    simp [List.getElem?_zipIdx, Option.map_eq_some_iff, eq_comm (a := j)]
  constructor
  · rintro ⟨here, holds, last⟩
    obtain ⟨here, rfl⟩ := hzip.1 here
    exact ⟨⟨here, holds, fun j z hj hz => last j (z, j) hj (hzip.2 ⟨hz, rfl⟩)⟩, rfl⟩
  · rintro ⟨⟨here, holds, last⟩, rfl⟩
    exact ⟨hzip.2 ⟨here, rfl⟩, holds, fun j z hj hz => last j z.1 hj (hzip.1 hz).1⟩

end

/-! ### Declarations one over the other -/

section

variable {α : Type} {name : String} {b : Binding}

/-- Of declarations that are made for the elements of a list, those for the last element that has
any of the name count. -/
theorem lookup_reverse_flatMap {f : α → Env} {p : α → Prop}
    (hp : ∀ x, p x ↔ ∃ b, (f x).reverse.lookup name = some b) (xs : List α) :
    (xs.flatMap f).reverse.lookup name = some b ↔
      ∃ idx x, LastAt p xs idx x ∧ (f x).reverse.lookup name = some b := by
  induction xs using List.reverseRecOn with
  | nil => simp [show ∀ idx x, ¬ LastAt p [] idx x from fun _ _ h => List.not_mem_nil h.mem]
  | append_singleton xs x ih =>
    rw [List.flatMap_append, List.reverse_append, List.lookup_append, Option.or_eq_some_iff, ih]
    simp only [List.flatMap_cons, List.flatMap_nil, List.append_nil, lastAt_concat]
    constructor
    · rintro (h | ⟨hnone, idx, y, hy, h⟩)
      · exact ⟨_, x, .inl ⟨(hp x).2 ⟨b, h⟩, rfl, rfl⟩, h⟩
      · refine ⟨idx, y, .inr ⟨fun hx => ?_, hy⟩, h⟩
        obtain ⟨b', hb'⟩ := (hp x).1 hx
        cases hnone.symm.trans hb'
    · rintro ⟨idx, y, ⟨-, -, rfl⟩ | ⟨hx, hy⟩, h⟩
      · exact .inl h
      · refine .inr ⟨?_, idx, y, hy, h⟩
        exact Option.eq_none_iff_forall_ne_some.2 fun b' hb' => hx ((hp x).2 ⟨b', hb'⟩)

/-- Of declarations that are made one for each element of a list, the last of a name counts. -/
theorem lookup_reverse_map {f : α → String} {g : α → Binding} (xs : List α) :
    (xs.map fun x => (f x, g x)).reverse.lookup name = some b ↔
      ∃ idx x, LastAt (f · = name) xs idx x ∧ g x = b := by
  have hone : ∀ x (b : Binding),
      [(f x, g x)].lookup name = some b ↔ f x = name ∧ g x = b := by
    intro x b
    rw [Keyed.lookup_cons]
    by_cases h : name = f x <;> simp [h, eq_comm (a := f x)]
  rw [List.map_eq_flatMap, lookup_reverse_flatMap (p := (f · = name)) fun x => by simp [hone]]
  refine exists_congr fun idx => exists_congr fun x => and_congr_right fun h => ?_
  rw [List.reverse_singleton, hone, and_iff_right h.holds]

/-- Of declarations that stand for the places of a list, the one for the last place with an element
of that name counts. -/
theorem lookup_reverse_zipIdx {f : α → String} {g : Nat → Binding} (xs : List α) :
    (xs.zipIdx.map fun x => (f x.1, g x.2)).reverse.lookup name = some b ↔
      ∃ idx x, LastAt (f · = name) xs idx x ∧ g idx = b := by
  rw [lookup_reverse_map]
  constructor
  · rintro ⟨idx, x, h, rfl⟩
    obtain ⟨h, hidx⟩ := (lastAt_zipIdx (p := (f · = name))).1 h
    exact ⟨idx, x.1, h, by rw [hidx]⟩
  · rintro ⟨idx, x, h, rfl⟩
    exact ⟨idx, (x, idx), (lastAt_zipIdx (p := (f · = name))).2 ⟨h, rfl⟩, rfl⟩

end

/-! ### What a name means at the top of a module -/

namespace Module

/-- The module has a function or a class of that name. -/
def Declares (m : Module) (name : String) : Prop :=
  (∃ f ∈ m.decls.functions, f.name = name) ∨ ∃ c ∈ m.decls.classes, c.name = name

/-- What a module brings under a name where it is imported. -/
inductive Exports (m : Module) (name : String) : Binding → Prop
  /-- The short name of the module means the module. -/
  | itself (short : m.shortName = name) : m.Exports name (.namespaceOf m.path)
  /-- The last public symbol of the name counts. -/
  | symbol {idx : Nat} {s : Symbol} (other : m.shortName ≠ name)
      (last : LastAt (·.name = name) m.publicSymbols idx s) : m.Exports name s.binding

end Module

/-- What a name means at the top of a module. -/
inductive Registry.Offers (r : Registry) (m : Module) (name : String) : Binding → Prop
  /-- The last class of the name in the module. -/
  | ownClass {idx : Nat} {c : ClassDecl} (last : LastAt (·.name = name) m.decls.classes idx c) :
      r.Offers m name (.classAt m.path idx)
  /-- The last function of the name in the module, if no class has the name. -/
  | ownFunction {idx : Nat} {f : FunctionDecl} (noClass : ∀ c ∈ m.decls.classes, c.name ≠ name)
      (last : LastAt (·.name = name) m.decls.functions idx f) :
      r.Offers m name (.function m.path idx)
  /-- A function that can be called without any import. -/
  | intrinsic (undeclared : ¬ m.Declares name) (known : name ∈ Builtin.intrinsics) :
      r.Offers m name (.intrinsic name)
  /-- The built-in library. -/
  | library (undeclared : ¬ m.Declares name) (root : name = Builtin.root) :
      r.Offers m name (.namespaceOf Builtin.root)
  /-- What the last of the imports brings that bring the name. -/
  | imported {idx : Nat} {i : Module} {b : Binding} (undeclared : ¬ m.Declares name)
      (unknown : name ∉ Builtin.intrinsics) (other : name ≠ Builtin.root)
      (last : LastAt (fun i => ∃ b, i.Exports name b) (r.importedModules m) idx i)
      (exported : i.Exports name b) : r.Offers m name b

section

variable {r : Registry} {m i : Module} {name : String} {b : Binding}

theorem lookup_exports : m.exports.reverse.lookup name = some b ↔ m.Exports name b := by
  rw [Module.exports, List.reverse_append, List.reverse_singleton, List.singleton_append,
    Keyed.lookup_cons]
  by_cases h : name = m.shortName
  · rw [if_pos h]
    constructor
    · rintro ⟨⟩
      exact .itself h.symm
    · rintro (_ | hother)
      · rfl
      · exact absurd h.symm hother
  · rw [if_neg h, lookup_reverse_map]
    constructor
    · rintro ⟨idx, s, hlast, rfl⟩
      exact .symbol (Ne.symm h) hlast
    · rintro (hshort | ⟨-, hlast⟩)
      · exact absurd hshort.symm h
      · exact ⟨_, _, hlast, rfl⟩

theorem lookup_imports :
    ((r.importedModules m).flatMap Module.exports).reverse.lookup name = some b ↔
      ∃ idx i, LastAt (fun i => ∃ b, i.Exports name b) (r.importedModules m) idx i ∧
        i.Exports name b := by
  have hexports : ∀ i : Module,
      (∃ b, i.Exports name b) ↔ ∃ b, i.exports.reverse.lookup name = some b :=
    fun i => exists_congr fun b => lookup_exports.symm
  simp only [lookup_reverse_flatMap hexports, lookup_exports]

theorem lookup_classes :
    ((m.decls.classSymbols m.path).map fun s => (s.name, s.binding)).reverse.lookup name = some b ↔
      ∃ idx c, LastAt (·.name = name) m.decls.classes idx c ∧ .classAt m.path idx = b := by
  rw [Declarations.classSymbols, List.map_map]
  exact lookup_reverse_zipIdx (f := ClassDecl.name) (g := .classAt m.path) _

theorem lookup_functions :
    ((m.decls.functionSymbols m.path).map fun s => (s.name, s.binding)).reverse.lookup name =
        some b ↔
      ∃ idx f, LastAt (·.name = name) m.decls.functions idx f ∧ .function m.path idx = b := by
  rw [Declarations.functionSymbols, List.map_map]
  exact lookup_reverse_zipIdx (f := FunctionDecl.name) (g := .function m.path) _

theorem lookup_classes_eq_none :
    ((m.decls.classSymbols m.path).map fun s => (s.name, s.binding)).reverse.lookup name = none ↔
      ∀ c ∈ m.decls.classes, c.name ≠ name := by
  have hclass := exists_lastAt_iff (fun c => c.name = name) m.decls.classes
  simp only [Option.eq_none_iff_forall_ne_some, ne_eq, lookup_classes]
  grind

/-- The classes of a module hide its functions. -/
theorem lookup_ownNames :
    m.ownNames.reverse.lookup name = some b ↔
      (∃ idx c, LastAt (·.name = name) m.decls.classes idx c ∧ .classAt m.path idx = b) ∨
        (∀ c ∈ m.decls.classes, c.name ≠ name) ∧
          ∃ idx f, LastAt (·.name = name) m.decls.functions idx f ∧ .function m.path idx = b := by
  rw [Module.ownNames, List.map_append, List.reverse_append, List.lookup_append,
    Option.or_eq_some_iff, lookup_classes, lookup_classes_eq_none, lookup_functions]

theorem lookup_ownNames_eq_none : m.ownNames.reverse.lookup name = none ↔ ¬ m.Declares name := by
  have hclass := exists_lastAt_iff (fun c => c.name = name) m.decls.classes
  have hfunction := exists_lastAt_iff (fun f => f.name = name) m.decls.functions
  simp only [Option.eq_none_iff_forall_ne_some, ne_eq, lookup_ownNames, Module.Declares]
  grind

theorem lookup_intrinsics :
    (Builtin.intrinsics.map fun name => (name, Binding.intrinsic name)).reverse.lookup name =
        some b ↔
      name ∈ Builtin.intrinsics ∧ .intrinsic name = b := by
  rw [lookup_reverse_map]
  constructor
  · rintro ⟨idx, x, hlast, rfl⟩
    obtain rfl := hlast.holds
    exact ⟨hlast.mem, rfl⟩
  · rintro ⟨hmem, rfl⟩
    obtain ⟨idx, x, hlast⟩ := (exists_lastAt_iff (· = name) _).2 ⟨name, hmem, rfl⟩
    exact ⟨idx, x, hlast, congrArg _ hlast.holds⟩

theorem lookup_builtinNames :
    Builtin.names.reverse.lookup name = some b ↔
      name ∈ Builtin.intrinsics ∧ .intrinsic name = b ∨
        name = Builtin.root ∧ .namespaceOf Builtin.root = b := by
  -- The built-in library has no name of its functions, so it does not matter which comes first.
  have hroot : Builtin.root ∉ Builtin.intrinsics := by decide
  rw [Builtin.names, List.reverse_append, List.reverse_singleton, List.singleton_append,
    Keyed.lookup_cons]
  by_cases h : name = Builtin.root
  · simp [h, hroot]
  · simp [h, ← lookup_intrinsics]

theorem lookup_builtinNames_eq_none :
    Builtin.names.reverse.lookup name = none ↔
      name ∉ Builtin.intrinsics ∧ name ≠ Builtin.root := by
  simp only [Option.eq_none_iff_forall_ne_some, ne_eq, lookup_builtinNames]
  grind

/-- **What is in the scope of a module.** -/
theorem lookup_rootEnv : (r.rootEnv m).lookup name = some b ↔ r.Offers m name b := by
  rw [Registry.rootEnv, Registry.rootNames, List.reverse_append, List.reverse_append,
    List.lookup_append, List.lookup_append, Option.or_eq_some_iff, Option.or_eq_some_iff,
    lookup_ownNames, lookup_ownNames_eq_none, lookup_builtinNames, lookup_builtinNames_eq_none,
    lookup_imports]
  constructor
  · rintro ((⟨idx, c, hlast, rfl⟩ | ⟨hclass, idx, f, hlast, rfl⟩) |
      ⟨hown, (⟨hknown, rfl⟩ | ⟨hroot, rfl⟩) | ⟨⟨hunknown, hother⟩, idx, i, hlast, hi⟩⟩)
    · exact .ownClass hlast
    · exact .ownFunction hclass hlast
    · exact .intrinsic hown hknown
    · exact .library hown hroot
    · exact .imported hown hunknown hother hlast hi
  · rintro (hlast | ⟨hclass, hlast⟩ | ⟨hown, hknown⟩ | ⟨hown, hroot⟩ |
      ⟨hown, hunknown, hother, hlast, hi⟩)
    · exact .inl (.inl ⟨_, _, hlast, rfl⟩)
    · exact .inl (.inr ⟨hclass, _, _, hlast, rfl⟩)
    · exact .inr ⟨hown, .inl (.inl ⟨hknown, rfl⟩)⟩
    · exact .inr ⟨hown, .inl (.inr ⟨hroot, rfl⟩)⟩
    · exact .inr ⟨hown, .inr ⟨⟨hunknown, hother⟩, _, _, hlast, hi⟩⟩

end

/-! ### Completions -/

theorem Keyed.get?_ofList {α : Type} (es : List (String × α)) (name : String) :
    (Keyed.ofList es).get? name = es.reverse.lookup name := by
  induction es using List.reverseRecOn with
  | nil => rfl
  | append_singleton es e ih =>
    rw [List.reverse_append, List.reverse_singleton, List.singleton_append, lookup_cons, ← ih,
      ofList, List.foldl_append]
    exact get?_insert _ _ _ _

/-- What can be seen is what look-ups find. -/
theorem ScopeStack.get?_visible {α : Type} (s : ScopeStack α) (name : String) :
    s.visible.get? name = s.lookup name := by
  rw [visible, Keyed.get?_ofList, List.reverse_reverse, lookup_eq_flatten]

section

variable {r : Registry} {m : Module} {path : String}

theorem completions_eq (hm : r.find? path = some m) (start : String) :
    r.completions path start =
      (r.rootScope m).visible.entries.filter fun e => start.toList.isPrefixOf e.1.toList := by
  rw [Registry.completions, hm]

theorem completions_sorted (hm : r.find? path = some m) (start : String) :
    (r.completions path start).Pairwise (·.1 < ·.1) := by
  rw [completions_eq hm]
  exact (r.rootScope m).visible.sorted.filter _

theorem mem_completions (hm : r.find? path = some m) {start name : String} {b : Binding} :
    (name, b) ∈ r.completions path start ↔
      start.toList <+: name.toList ∧ (r.rootEnv m).lookup name = some b := by
  have hvisible : (name, b) ∈ (r.rootScope m).visible.entries ↔
      (r.rootScope m).visible.get? name = some b :=
    ⟨Keyed.get?_of_mem, Keyed.mem_of_get?⟩
  rw [completions_eq hm, List.mem_filter, hvisible, ScopeStack.get?_visible,
    (sees_rootEnv r m).lookup, List.isPrefixOf_iff_prefix, and_comm]

/-! ### Identifiers of a function -/

/-- The references that are found in a function in the scope of a module. -/
def Registry.functionReferences (r : Registry) (m : Module) (f : FunctionDecl) : Array Reference :=
  (bindFunction ⟨r, m⟩ { scopes := r.rootScope m } f).references

section

variable {f : FunctionDecl} {node : Node} {name : String} {env : Env} {b : Binding}

/-- Inside a function, a name that the function does not declare means what it means outside. -/
theorem lookup_sites (hname : name ∉ f.variables) :
    AllEnvs (fun inner => inner.lookup name = env.lookup name) (f.sites env) := by
  refine functionSites_env f (fun x hx inner span h => ?_) rfl
  have hne : name ≠ x := fun heq => hname (heq ▸ hx)
  rw [Keyed.lookup_cons, if_neg hne, h]

theorem exists_site (hid : .ident node name ∈ f.body.within) :
    ∃ σ ∈ f.sites env, σ.expr = .ident node name :=
  List.mem_map.1 ((blockSites_perm f.body _).mem_iff.2 hid)

theorem functionReferences_eq :
    (r.functionReferences m f).toList = (f.sites (r.rootEnv m)).filterMap Site.reference? :=
  (bindFunction_walked ⟨r, m⟩ f (sees_rootEnv r m)).references

/-- In the scope of a module, an identifier of a function that does not declare its name refers to
what the name means there. -/
theorem mem_references_iff (hid : .ident node name ∈ f.body.within) (hname : name ∉ f.variables) :
    ⟨name, node.id, node.span, b⟩ ∈ r.functionReferences m f ↔
      (r.rootEnv m).lookup name = some b := by
  rw [← Array.mem_toList_iff, functionReferences_eq, List.mem_filterMap]
  constructor
  · rintro ⟨σ, hσ, href⟩
    rw [← lookup_sites hname σ hσ, lookup_of_reference? href]
  · intro h
    obtain ⟨σ, hσ, hexpr⟩ := exists_site hid
    exact ⟨σ, hσ, by simp [Site.reference?, hexpr, lookup_sites hname σ hσ, h]⟩

/-- The references of a function in the scope of its module are among those of the module. -/
theorem functionReferences_within (hm : r.find? path = some m) (hf : f ∈ m.decls.functions) :
    (r.functionReferences m f).toList <:+: (r.names path).references.toList := by
  rw [functionReferences_eq, references_eq_sites hm]
  refine List.IsInfix.filterMap _ ?_
  have hsites : f.sites (r.rootEnv m) <:+: m.decls.functions.flatMap (·.sites (r.rootEnv m)) :=
    List.infix_of_mem_flatten (List.mem_map_of_mem hf)
  exact hsites.trans (List.suffix_append _ _).isInfix

/-- The binding of an identifier of a function of a module that does not declare its name. -/
theorem binding?_ident (hm : r.find? path = some m) (hn : m.Numbered)
    (hf : f ∈ m.decls.functions) (hid : .ident node name ∈ f.body.within)
    (hname : name ∉ f.variables) :
    (r.names path).binding? node.id = (r.rootEnv m).lookup name := by
  have hsite : ∃ σ ∈ f.sites (r.rootEnv m), σ.expr = .ident node name := exists_site hid
  obtain ⟨σ, hσ, hexpr⟩ := hsite
  have hmem : σ ∈ r.sites m :=
    List.mem_append_right _ (List.mem_flatMap.2 ⟨f, hf, hσ⟩)
  have hbinding := binding?_of_mem_sites hm hn hmem
  rw [hexpr] at hbinding
  refine hbinding.trans ?_
  simp [Site.reference?, hexpr, lookup_sites hname σ hσ, Function.comp_def]

end

end

/-- **Completion offers exactly what names mean.** The completions come in the order of their names.
They are the names that begin with the given text, with what they mean at the top of the module
(`Registry.Offers`). An identifier refers to the same in every function that is put into the scope
of the module and does not declare the name itself, with a parameter or anywhere in its body. The
references of a function of the module stand in a row among those of the module, and where no two
expressions have the same number they are what the numbers are bound to. -/
theorem completions_exact {r : Registry} {path : String} {m : Module} (hm : r.find? path = some m)
    (start : String) :
    (r.completions path start).Pairwise (·.1 < ·.1) ∧
      (∀ name b, (name, b) ∈ r.completions path start ↔
        start.toList <+: name.toList ∧ r.Offers m name b) ∧
      (∀ f node name b, .ident node name ∈ f.body.within → name ∉ f.variables →
        ((name, b) ∈ r.completions path start ↔
          start.toList <+: name.toList ∧
            ⟨name, node.id, node.span, b⟩ ∈ r.functionReferences m f)) ∧
      ∀ f ∈ m.decls.functions,
        (r.functionReferences m f).toList <:+: (r.names path).references.toList ∧
          (m.Numbered → ∀ node name b, .ident node name ∈ f.body.within → name ∉ f.variables →
            ((name, b) ∈ r.completions path start ↔
              start.toList <+: name.toList ∧ (r.names path).binding? node.id = some b)) := by
  refine ⟨completions_sorted hm start, fun name b => ?_, fun f node name b hid hname => ?_,
    fun f hf => ⟨functionReferences_within hm hf, fun hn node name b hid hname => ?_⟩⟩
  · rw [mem_completions hm, lookup_rootEnv]
  · rw [mem_completions hm, mem_references_iff hid hname]
  · rw [mem_completions hm, binding?_ident hm hn hf hid hname]

/-- `fn name() { body }`. -/
def bareFunction (name : String) (body : List Stmt) : FunctionDecl where
  name := name
  params := []
  ret := .void
  body := ⟨body, .null⟩
  isPublic := true
  isStatic := false
  nameSpan := .null
  span := .null

/-- The module `main` imports `a`, with a function `b`, and `b`, and both have functions `x`. -/
def colliding : Module where
  path := "main"
  package := .root "app"
  decls :=
    { functions :=
        [bareFunction "f" [.expr (.ident ⟨0, .null⟩ "x"), .expr (.ident ⟨1, .null⟩ "b")]] }
  resolvedImports := ["a", "b"]

def collidingModules : Registry :=
  ((Registry.empty.insert
    { path := "a"
      package := .root "app"
      decls := { functions := [bareFunction "b" [], bareFunction "x" []] } }).insert
    { path := "b"
      package := .root "app"
      decls := { functions := [bareFunction "x" [], bareFunction "x" []] } }).insert colliding

theorem completions_collidingModules :
    collidingModules.completions "main" "" =
      [("Std", .namespaceOf "Std"), ("a", .namespaceOf "a"), ("b", .namespaceOf "b"),
       ("eprint", .intrinsic "eprint"), ("eprintln", .intrinsic "eprintln"),
       ("f", .function "main" 0), ("print", .intrinsic "print"),
       ("println", .intrinsic "println"), ("readLine", .intrinsic "readLine"),
       ("x", .function "b" 1)] := by
  decide +kernel

/-- The name `x` means the last function of the last import, and `b` that import. -/
theorem completions_exact_colliding :
    collidingModules.find? "main" = some colliding ∧
      collidingModules.Offers colliding "x" (.function "b" 1) ∧
      (collidingModules.names "main").binding? 0 = some (.function "b" 1) ∧
      collidingModules.Offers colliding "b" (.namespaceOf "b") ∧
      (collidingModules.names "main").binding? 1 = some (.namespaceOf "b") := by
  have hm : collidingModules.find? "main" = some colliding := by
    simp [collidingModules, colliding]
  obtain ⟨-, hoffers, -, hfunctions⟩ := completions_exact hm ""
  obtain ⟨-, hbinding⟩ := hfunctions _ List.mem_cons_self
  have hn : colliding.Numbered := by decide
  have hx : ("x", .function "b" 1) ∈ collidingModules.completions "main" "" := by
    simp [completions_collidingModules]
  have hb : ("b", .namespaceOf "b") ∈ collidingModules.completions "main" "" := by
    simp [completions_collidingModules]
  refine ⟨hm, ((hoffers _ _).1 hx).2, ((hbinding hn ⟨0, .null⟩ _ _ ?_ ?_).1 hx).2,
    ((hoffers _ _).1 hb).2, ((hbinding hn ⟨1, .null⟩ _ _ ?_ ?_).1 hb).2⟩
  · exact List.mem_cons_self
  · exact List.not_mem_nil
  · exact List.mem_cons_of_mem _ List.mem_cons_self
  · exact List.not_mem_nil

end MgLang
