import MgLang.Compilation
import MgLang.Proofs.Variables
/-!
# Which class a name means

Two searches give a class for a name. The scope of a module holds the classes that the module may
use: the public ones of its imports and its own, and of equal names the last counts. The search that
types go by (`Registry.findClass?`) takes the first class of that name in the module itself, then in
its imports, private or not.

`references_classAt` says what each of them finds where a name is bound to a class: the last of
`Registry.usableClasses` and the first of `Registry.classesInSight`. They find the same class if
only one is in sight, and `class_names_differ` shows a program in which they do not.
-/

namespace MgLang

namespace Module

/-- The classes of a module that satisfy `p`, each with its place. -/
def classesWhere (m : Module) (p : ClassDecl → Bool) : List (Module × Nat) :=
  m.decls.classes.zipIdx.filterMap fun (c, idx) => if p c then some (m, idx) else none

end Module

namespace Registry

/-- The classes of that name in a module and in those it imports, private ones among them. -/
def classesInSight (r : Registry) (m : Module) (name : String) : List (Module × Nat) :=
  (m :: r.importedModules m).flatMap (·.classesWhere (·.name == name))

/-- The classes of that name that a module may use, in the order in which they hide each other: the
public ones of its imports, then its own. -/
def usableClasses (r : Registry) (m : Module) (name : String) : List (Module × Nat) :=
  (r.importedModules m).flatMap (·.classesWhere fun c => c.name == name && c.isPublic) ++
    m.classesWhere (·.name == name)

end Registry

/-! ### The scope of a module -/

namespace Binding

/-- The path of the module of which a function or a class is bound. -/
def owner? : Binding → Option String
  | function path _ | classAt path _ => some path
  | _ => none

/-- The class that a declaration of that name gives. -/
def classNamed? (name : String) (d : String × Binding) : Option (String × Nat) :=
  match d.2 with
  | .classAt path idx => if d.1 = name then some (path, idx) else none
  | _ => none

end Binding

open Binding (classNamed?)

/-- Inside a module a name that means a function or a class of some module has that meaning from the
scope of the module. -/
theorem lookup_rootEnv_of_owner {r : Registry} {m : Module} {σ : Site} (hσ : σ ∈ r.sites m)
    {name : String} {b : Binding} (hb : b.owner?.isSome) (h : σ.env.lookup name = some b) :
    (r.rootEnv m).lookup name = some b := by
  refine moduleSites_env (P := fun env => env.lookup name = some b →
    (r.rootEnv m).lookup name = some b) ?_ id ?_ σ hσ h
  · intro env x span hroot hx
    rw [Keyed.lookup_cons] at hx
    split at hx
    · cases hx
      cases hb
    · exact hroot hx
  · intro c _ hx
    rw [List.lookup_append] at hx
    cases hl : (c.1.env m.path c.2).lookup name with
    | none => simpa [hl] using hx
    | some b' =>
      obtain rfl : b' = b := by simpa [hl] using hx
      obtain ⟨l, l', he, -⟩ := List.lookup_eq_some_iff.1 hl
      have hmem : (name, b') ∈ c.1.env m.path c.2 := by simp [he]
      obtain ⟨n, -, hn⟩ := List.mem_map.1 (List.mem_reverse.1 hmem)
      obtain ⟨rfl, rfl⟩ := Prod.mk.inj hn
      cases hb

/-- A name that means a class means the first declaration of a class by that name. -/
theorem head?_of_lookup_class {env : Env} {name path : String} {idx : Nat}
    (h : env.lookup name = some (.classAt path idx)) :
    (env.filterMap (classNamed? name)).head? = some (path, idx) := by
  induction env with
  | nil => cases h
  | cons d env ih =>
    rw [Keyed.lookup_cons] at h
    by_cases hn : name = d.1
    · rw [if_pos hn] at h
      have hd : classNamed? name d = some (path, idx) := by
        simp [classNamed?, Option.some.inj h, hn]
      simp [hd]
    · rw [if_neg hn] at h
      have hd : classNamed? name d = none := by
        unfold classNamed?
        split
        · rw [if_neg (Ne.symm hn)]
        · rfl
      simpa [hd] using ih h

/-- The path of a module with a place in it. -/
def classPlace (x : Module × Nat) : String × Nat :=
  (x.1.path, x.2)

namespace Module

variable (m : Module) (name : String)

theorem builtinSymbols_classNamed (s : Symbol) (hs : s ∈ Builtin.symbols m.path m.package) :
    classNamed? name (s.name, s.binding) = none := by
  unfold Builtin.symbols at hs
  split at hs
  · obtain ⟨n, -, rfl⟩ := List.mem_map.1 hs
    rfl
  · cases hs

theorem functionSymbols_classNamed (s : Symbol) (hs : s ∈ m.decls.functionSymbols m.path) :
    classNamed? name (s.name, s.binding) = none := by
  obtain ⟨f, -, rfl⟩ := List.mem_map.1 hs
  rfl

/-- The classes among the symbols of a module. -/
theorem classSymbols_classNamed (p : Bool → Bool) :
    ((m.decls.classSymbols m.path).filter fun s => p s.isPublic).filterMap
        (fun s => classNamed? name (s.name, s.binding)) =
      (m.classesWhere fun c => c.name == name && p c.isPublic).map classPlace := by
  unfold Declarations.classSymbols classesWhere
  rw [List.filterMap_filter, List.filterMap_map, List.map_filterMap]
  congr 1
  funext x
  by_cases hn : x.1.name = name <;> cases hp : p x.1.isPublic <;>
    simp [classNamed?, Symbol.binding, classPlace, hn, hp]

theorem exports_classNamed :
    m.exports.filterMap (classNamed? name) =
      (m.classesWhere fun c => c.name == name && c.isPublic).map classPlace := by
  have hb : ((Builtin.symbols m.path m.package).filter (·.isPublic)).filterMap
      (fun s => classNamed? name (s.name, s.binding)) = [] := by
    refine List.filterMap_eq_nil_iff.2 ?_
    intro s hs
    exact m.builtinSymbols_classNamed name s (List.mem_filter.1 hs).1
  have hf : ((m.decls.functionSymbols m.path).filter (·.isPublic)).filterMap
      (fun s => classNamed? name (s.name, s.binding)) = [] := by
    refine List.filterMap_eq_nil_iff.2 ?_
    intro s hs
    exact m.functionSymbols_classNamed name s (List.mem_filter.1 hs).1
  have hc := m.classSymbols_classNamed name id
  unfold exports publicSymbols
  rw [m.symbols_eq, Declarations.symbols, List.filterMap_append, List.filterMap_map,
    List.filter_append, List.filter_append]
  simp only [Function.comp_def, List.filterMap_append, hb, hf, List.nil_append]
  have hn : [(m.shortName, Binding.namespaceOf m.path)].filterMap (classNamed? name) = [] := rfl
  rw [hn, List.append_nil]
  exact hc

theorem ownNames_classNamed :
    m.ownNames.filterMap (classNamed? name) =
      (m.classesWhere (·.name == name)).map classPlace := by
  have hf : (m.decls.functionSymbols m.path).filterMap
      (fun s => classNamed? name (s.name, s.binding)) = [] := by
    refine List.filterMap_eq_nil_iff.2 ?_
    intro s hs
    exact m.functionSymbols_classNamed name s hs
  have hc := m.classSymbols_classNamed name fun _ => true
  rw [List.filter_eq_self.2 fun _ _ => rfl] at hc
  unfold ownNames
  rw [List.filterMap_map]
  simp only [Function.comp_def, List.filterMap_append, hf, List.nil_append, hc, Bool.and_true]

theorem head?_classesWhere (p : ClassDecl → Bool) :
    (m.classesWhere p).head? = (m.decls.classes.findIdx? p).map fun idx => (m, idx) := by
  unfold classesWhere
  rw [List.head?_filterMap, List.findIdx?_eq_findSome?_zipIdx, List.map_findSome?]
  congr 1
  funext x
  by_cases hp : p x.1 <;> simp [hp]

theorem classesWhere_subset {p q : ClassDecl → Bool} (h : ∀ c, p c = true → q c = true) :
    m.classesWhere p ⊆ m.classesWhere q := by
  intro x hx
  obtain ⟨⟨c, idx⟩, hc, he⟩ := List.mem_filterMap.1 hx
  refine List.mem_filterMap.2 ⟨⟨c, idx⟩, hc, ?_⟩
  by_cases hp : p c = true
  · simp only [hp, if_true] at he
    simp only [h c hp, if_true, he]
  · simp only [hp, Bool.false_eq_true, if_false] at he
    cases he

end Module

theorem Builtin.names_classNamed (name : String) :
    Builtin.names.filterMap (classNamed? name) = [] := by
  simp [Builtin.names, Builtin.intrinsics, classNamed?]

namespace Registry

variable {r : Registry} {m : Module} {path name : String}

/-- The classes that the scope of a module has by a name are those it may use. -/
theorem rootNames_classNamed (r : Registry) (m : Module) (name : String) :
    (r.rootNames m).filterMap (classNamed? name) = (r.usableClasses m name).map classPlace := by
  unfold rootNames usableClasses
  rw [List.filterMap_append, List.filterMap_append, List.filterMap_flatMap, List.map_append,
    List.map_flatMap, Builtin.names_classNamed, List.append_nil, m.ownNames_classNamed]
  simp only [Module.exports_classNamed]

theorem usableClasses_subset (r : Registry) (m : Module) (name : String) :
    r.usableClasses m name ⊆ r.classesInSight m name := by
  intro x hx
  unfold classesInSight
  rw [List.flatMap_cons]
  rcases List.mem_append.1 hx with hx | hx
  · obtain ⟨i, hi, hx⟩ := List.mem_flatMap.1 hx
    refine List.mem_append_right _ (List.mem_flatMap.2 ⟨i, hi, ?_⟩)
    refine i.classesWhere_subset ?_ hx
    intro c hc
    exact (Bool.and_eq_true_iff.1 hc).1
  · exact List.mem_append_left _ hx

theorem path_of_find? (hm : r.find? path = some m) : m.path = path := by
  obtain ⟨l, l', he, -⟩ := List.lookup_eq_some_iff.1 hm
  exact r.path_eq (path, m) (by simp [he])

theorem find?_of_mem_importedModules {i : Module} (hi : i ∈ r.importedModules m) :
    r.find? i.path = some i := by
  obtain ⟨p, -, hp⟩ := List.mem_filterMap.1 hi
  rw [path_of_find? hp, hp]

theorem fst_of_mem_classesWhere {p : ClassDecl → Bool} {x : Module × Nat}
    (hx : x ∈ m.classesWhere p) : x.1 = m := by
  obtain ⟨c, -, he⟩ := List.mem_filterMap.1 hx
  by_cases hp : p c.1 = true
  · simp only [hp, if_true, Option.some.injEq] at he
    rw [← he]
  · simp [hp] at he

theorem find?_of_mem_usableClasses (hm : r.find? path = some m) {x : Module × Nat}
    (hx : x ∈ r.usableClasses m name) : r.find? x.1.path = some x.1 := by
  rcases List.mem_append.1 hx with hx | hx
  · obtain ⟨i, hi, hx⟩ := List.mem_flatMap.1 hx
    rw [fst_of_mem_classesWhere hx]
    exact find?_of_mem_importedModules hi
  · rw [fst_of_mem_classesWhere hx, path_of_find? hm]
    exact hm

/-- The first class of that name in the module at a path. -/
def classIn? (r : Registry) (name path : String) : Option (Module × Nat) :=
  (r.find? path).bind fun m => (m.classesWhere (·.name == name)).head?

theorem findClass?_eq (r : Registry) (name origin : String) :
    r.findClass? name origin = (r.searchOrder origin).findSome? (r.classIn? name) := by
  unfold findClass?
  congr 1
  funext p
  unfold classIn?
  cases r.find? p with
  | none => rfl
  | some m =>
    rw [Option.bind_some, Module.head?_classesWhere]
    show (m.decls.classIdx? name).bind _ = (m.decls.classIdx? name).map _
    cases m.decls.classIdx? name <;> rfl

theorem head?_classesInSight (hm : r.find? path = some m) :
    (r.classesInSight m name).head? =
      (path :: m.resolvedImports).findSome? (r.classIn? name) := by
  unfold classesInSight
  rw [List.head?_flatMap, List.findSome?_cons, List.findSome?_cons]
  have hi : (r.importedModules m).findSome?
      (fun i => (i.classesWhere (·.name == name)).head?) =
        m.resolvedImports.findSome? (r.classIn? name) := by
    unfold importedModules
    induction m.resolvedImports with
    | nil => rfl
    | cons p ps ih =>
      rw [List.filterMap_cons, List.findSome?_cons, ← ih, classIn?]
      cases r.find? p <;> simp [List.findSome?_cons]
  rw [hi, classIn?, hm]
  rfl

/-- The search that types go by takes the first class in sight, if there is one. -/
theorem findClass?_eq_head? (hm : r.find? path = some m) {x : Module × Nat}
    (hx : x ∈ r.classesInSight m name) :
    r.findClass? name path = (r.classesInSight m name).head? := by
  obtain ⟨y, ys, hy⟩ := List.exists_cons_of_ne_nil (List.ne_nil_of_mem hx)
  have hsight : (r.classesInSight m name).head? = _ := head?_classesInSight hm
  rw [hy, List.head?_cons] at hsight
  rw [findClass?_eq, searchOrder, hm, List.findSome?_append]
  rw [hy, List.head?_cons]
  show (List.findSome? (r.classIn? name) (path :: m.resolvedImports)).or _ = _
  rw [← hsight]
  rfl

end Registry

/-- A site refers to what its environment says. -/
theorem lookup_of_reference? {σ : Site} {ref : Reference} (h : σ.reference? = some ref) :
    σ.env.lookup ref.name = some ref.binding := by
  unfold Site.reference? at h
  split at h
  · next node name _ =>
    obtain ⟨b, hb, rfl⟩ := Option.map_eq_some_iff.1 h
    exact hb
  · next node className classSpan args _ =>
    split at h
    · next module idx hl =>
      cases h
      exact hl
    · cases h
  · cases h

/-- What refers to a function or a class of some module refers to what its name means from the scope
of the module that it is in. -/
theorem lookup_rootEnv_of_reference {r : Registry} {path : String} {m : Module}
    (hm : r.find? path = some m) {ref : Reference} (href : ref ∈ (r.names path).references)
    (hb : ref.binding.owner?.isSome) :
    (r.rootEnv m).lookup ref.name = some ref.binding := by
  have hsite : ref ∈ (r.sites m).filterMap Site.reference? := by
    rw [← references_eq_sites hm]
    exact Array.mem_toList_iff.2 href
  obtain ⟨σ, hσ, hr⟩ := List.mem_filterMap.1 hsite
  exact lookup_rootEnv_of_owner hσ hb (lookup_of_reference? hr)

/-- **Which class a name means.** Where a name is bound to a class, that class is the last one of
the name that the module may use, and the search that types go by gives the first one in sight. So
both are the same class as long as only one is in sight. -/
theorem references_classAt {r : Registry} {path : String} {m : Module}
    (hm : r.find? path = some m) {ref : Reference} (href : ref ∈ (r.names path).references)
    {owner : String} {idx : Nat} (hb : ref.binding = .classAt owner idx) :
    ∃ o, r.find? owner = some o ∧
      (r.usableClasses m ref.name).getLast? = some (o, idx) ∧
      (o, idx) ∈ r.classesInSight m ref.name ∧
      r.findClass? ref.name path = (r.classesInSight m ref.name).head? ∧
      ((r.classesInSight m ref.name).length ≤ 1 →
        r.findClass? ref.name path = some (o, idx)) := by
  have hl := lookup_rootEnv_of_reference hm href (by rw [hb]; rfl)
  rw [hb] at hl
  have hhead := head?_of_lookup_class hl
  rw [Registry.rootEnv, List.filterMap_reverse, List.head?_reverse, Registry.rootNames_classNamed,
    List.getLast?_map] at hhead
  obtain ⟨⟨o, i⟩, hlast, hplace⟩ := Option.map_eq_some_iff.1 hhead
  have hpath : o.path = owner := congrArg Prod.fst hplace
  have hidx : i = idx := congrArg Prod.snd hplace
  rw [hidx] at hlast
  have husable : (o, idx) ∈ r.usableClasses m ref.name := List.mem_of_getLast? hlast
  have hsight := r.usableClasses_subset m ref.name husable
  have hfind := Registry.findClass?_eq_head? hm hsight
  refine ⟨o, ?_, hlast, hsight, hfind, fun hone => ?_⟩
  · rw [← hpath]
    exact Registry.find?_of_mem_usableClasses hm husable
  · obtain ⟨x, hx⟩ := List.length_eq_one_iff.1 (Nat.le_antisymm hone (List.length_pos_of_mem hsight))
    rw [hx, List.mem_singleton] at hsight
    rw [hfind, hx, List.head?_cons, hsight]

/-- Two imports have a class of the same name, and the first keeps it private. Another class is
only in the second. -/
def privateFirst : Compilation :=
  ((({} : Compilation).add "a.mg" "priv class C \x7b \x7d" (.root "app")).add
    "b.mg" "class C \x7b \x7d class D \x7b \x7d" (.root "app")).add
    "main.mg" "using a; using b; fn f() \x7b new C(); new D(); \x7d" (.root "app")

theorem privateFirst_run :
    (privateFirst.check.2.registry.find? "main").any
        (fun m => (privateFirst.check.2.registry.classesInSight m "D").length ≤ 1) ∧
      (privateFirst.check.2.registry.names "main").references =
        #[⟨"C", 0, ⟨"main.mg", 31, 32⟩, .classAt "b" 0⟩,
          ⟨"D", 1, ⟨"main.mg", 40, 41⟩, .classAt "b" 1⟩] ∧
      (privateFirst.check.2.registry.findClass? "C" "main").map classPlace = some ("a", 0) ∧
      privateFirst.check.1.diagnostics =
        [⟨.visibilityViolation "C" "a", ⟨"main.mg", 31, 32⟩⟩] := by
  decide +kernel

/-- Only one class `D` is in sight, and both searches find it. -/
theorem references_classAt_privateFirst :
    ∃ m o, privateFirst.check.2.registry.find? "main" = some m ∧
      (⟨"D", 1, ⟨"main.mg", 40, 41⟩, .classAt "b" 1⟩ : Reference) ∈
        (privateFirst.check.2.registry.names "main").references ∧
      privateFirst.check.2.registry.find? "b" = some o ∧
      (privateFirst.check.2.registry.usableClasses m "D").getLast? = some (o, 1) ∧
      privateFirst.check.2.registry.findClass? "D" "main" = some (o, 1) := by
  obtain ⟨hany, hrefs, -, -⟩ := privateFirst_run
  obtain ⟨m, hm, hone⟩ := (Option.any_eq_true _ _).1 hany
  have href : (⟨"D", 1, ⟨"main.mg", 40, 41⟩, .classAt "b" 1⟩ : Reference) ∈
      (privateFirst.check.2.registry.names "main").references := by
    simp [hrefs]
  obtain ⟨o, ho, hlast, -, -, hfind⟩ := references_classAt hm href rfl
  exact ⟨m, o, hm, href, ho, hlast, hfind (of_decide_eq_true hone)⟩

/-- The two searches can find different classes: `C` is bound to the public class, and the types go
by the private one. So the program is refused, although the class that it names is public. -/
theorem class_names_differ :
    (⟨"C", 0, ⟨"main.mg", 31, 32⟩, .classAt "b" 0⟩ : Reference) ∈
        (privateFirst.check.2.registry.names "main").references ∧
      (privateFirst.check.2.registry.findClass? "C" "main").map classPlace = some ("a", 0) ∧
      privateFirst.check.1.diagnostics =
        [⟨.visibilityViolation "C" "a", ⟨"main.mg", 31, 32⟩⟩] := by
  obtain ⟨-, hrefs, hfind, hdiagnostics⟩ := privateFirst_run
  refine ⟨?_, hfind, hdiagnostics⟩
  simp [hrefs]

end MgLang
