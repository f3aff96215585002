import MgLang.Proofs.DeclaredTypes
import MgLang.Proofs.Silence
/-!
# Class types in calls

A class type is a name, and each module goes by its own search to find the class of that name. Where
a module calls a function of another module and no fault is reported, an argument of class type has
the name that the parameter asks for. `argument_class` says that, and that both modules find the
same class by the name as long as only one module has such a class.

They need not if two modules have one: `twoClasses` hands an instance of one class to a function
that takes the other.
-/

namespace MgLang

theorem Ty.isAssignable_named {a b : String} :
    (Ty.named a).isAssignable (.named b) = true ↔ a = b := by
  simp [isAssignable, flows]

/-! ### The search for a class -/

namespace Registry

variable {r : Registry} {name : String}

/-- The paths of the modules that have a class of that name. -/
def owners (r : Registry) (name : String) : List String :=
  r.paths.filter fun p => (r.classIn? name p).isSome

theorem mem_owners {p : String} (h : (r.classIn? name p).isSome) : p ∈ r.owners name := by
  refine List.mem_filter.2 ⟨?_, h⟩
  unfold classIn? at h
  cases hm : r.find? p with
  | none => simp [hm] at h
  | some m => exact List.mem_map.2 ⟨(p, m), Keyed.mem_of_get? hm, rfl⟩

/-- Every search comes to every module. -/
theorem mem_searchOrder {p : String} (h : p ∈ r.paths) (origin : String) :
    p ∈ r.searchOrder origin := by
  unfold searchOrder
  by_cases ho : p = origin
  · rw [ho]
    exact List.mem_cons_self
  · refine List.mem_append_right _ (List.mem_filter.2 ⟨h, ?_⟩)
    simpa using ho

/-- If only one module has a class of a name, it is found from everywhere. -/
theorem findClass?_eq_of_owners (h : (r.owners name).length ≤ 1) (origin origin' : String) :
    r.findClass? name origin = r.findClass? name origin' := by
  have hfound : ∀ {o x}, (r.searchOrder o).findSome? (r.classIn? name) = some x →
      ∃ p, r.classIn? name p = some x := by
    intro o x hx
    obtain ⟨p, -, hp⟩ := List.exists_of_findSome?_eq_some hx
    exact ⟨p, hp⟩
  have hnone : ∀ {o o'}, (r.searchOrder o).findSome? (r.classIn? name) = none →
      (r.searchOrder o').findSome? (r.classIn? name) = none := by
    intro o o' ho
    rw [List.findSome?_eq_none_iff] at ho ⊢
    intro p _
    by_contra hp
    have hp : (r.classIn? name p).isSome := Option.isSome_iff_ne_none.2 hp
    rw [ho p (mem_searchOrder (List.mem_filter.1 (mem_owners hp)).1 o)] at hp
    cases hp
  rw [findClass?_eq, findClass?_eq]
  cases hx : (r.searchOrder origin).findSome? (r.classIn? name) with
  | none => exact (hnone hx).symm
  | some x =>
    cases hy : (r.searchOrder origin').findSome? (r.classIn? name) with
    | none =>
      rw [hnone hy] at hx
      cases hx
    | some y =>
      obtain ⟨p, hp⟩ := hfound hx
      obtain ⟨q, hq⟩ := hfound hy
      have hp' : p ∈ r.owners name := mem_owners (by simp [hp])
      have hq' : q ∈ r.owners name := mem_owners (by simp [hq])
      obtain rfl : p = q := by
        obtain ⟨a, ha⟩ := List.length_eq_one_iff.1 (Nat.le_antisymm h (List.length_pos_of_mem hp'))
        rw [ha, List.mem_singleton] at hp' hq'
        rw [hp', hq']
      rw [← hp, ← hq]

end Registry

/-! ### Calls of functions by name -/

section

variable {r : Registry} {path : String} {m : Module}

/-- Where the check reports nothing, a call of a function fits what the function declares. -/
theorem call_fits (hm : r.find? path = some m) (hn : m.Numbered) (hi : m.importFailed = false)
    (hs : (r.check (r.names path)).errors = []) {node callee : Node} {name : String}
    {args : List Expr} (hcall : .call node (.ident callee name) args ∈ m.exprs) {owner : String}
    {idx : Nat} (hb : (r.names path).binding? callee.id = some (.function owner idx))
    {f : FunctionDecl} (hf : r.functionAt? owner idx = some f) :
    List.Forall₂ (fun arg ty =>
        (((r.check (r.names path)).typeOf? arg.id).getD .unknown).isAssignable ty = true)
      args (f.params.map (·.ty)) := by
  let ρ : Typing := ⟨r.checkContext path m, r.check (r.names path)⟩
  have hobeys : m.Obeys ρ := obeys_of_silent hm hn hi hs
  have hcallee : .ident callee name ∈ m.exprs := by
    refine exprs_nested m _ hcall ?_
    have hself := mem_within_self (.ident callee name)
    rw [Expr.within]
    exact List.mem_append_left _ (List.mem_append_left _ hself)
  have hty : ρ.ty (.ident callee name) = f.signature := by
    have hd : r.declaredTy? (.function owner idx) = some f.signature := by
      simp [Registry.declaredTy?, hf]
    have h := typeOf?_ident hm hn hcallee hb hd
    show ((r.check (r.names path)).typeOf? callee.id).getD .unknown = _
    rw [h, Option.getD_some]
  rcases hobeys.exprs _ hcall with h | h
  · have hb' : ρ.cx.names.binding? callee.id = some (.function owner idx) := hb
    simp [Names.intrinsic?, hb'] at h
  · rw [hty] at h
    exact (ρ.accepts_fn _ _ _).1 h

end

/-- **Class types in calls.** Take a report without faults on a module, and a call in it of a
function by its name. There are as many arguments as parameters; and where the parameter is of a
class type and the recorded type of the argument is one, the types have the same name, by which the
module of the call and that of the function find the same class if only one module has one. -/
theorem argument_class {c : Compilation} (hc : c.Reachable) {rep : ModuleReport}
    (hrep : rep ∈ c.check.1.modules) (hclean : rep.diagnostics = []) {m : Module}
    (hm : c.check.2.registry.find? rep.module = some m) {node callee : Node} {name : String}
    {args : List Expr} (hcall : .call node (.ident callee name) args ∈ m.exprs) {owner : String}
    {idx : Nat} (hb : rep.names.binding? callee.id = some (.function owner idx))
    {f : FunctionDecl} (hf : c.check.2.registry.functionAt? owner idx = some f) :
    args.length = f.params.length ∧
      ∀ (i : Nat) (arg : Expr) (p : Param) (expected received : String),
        args[i]? = some arg → f.params[i]? = some p →
        p.ty = .named expected → rep.types.typeOf? arg.id = some (.named received) →
          received = expected ∧
            ((c.check.2.registry.owners expected).length ≤ 1 →
              c.check.2.registry.findClass? received rep.module =
                c.check.2.registry.findClass? expected owner) := by
  obtain ⟨m', hm', hi, hnames, -, htypes, hs⟩ :=
    Compilation.exists_module_of_clean hc.sound hrep hclean
  obtain rfl : m' = m := Option.some.inj (hm'.symm.trans hm)
  rw [hnames] at hb htypes
  have hn : m'.Numbered := (hc.check.sound.counted _ _ hm).bodies.nodup
  have hfits := call_fits hm hn hi (by rw [← htypes]; exact hs) hcall hb hf
  refine ⟨by simpa using hfits.length_eq, ?_⟩
  intro i arg p expected received harg hp hexpected hreceived
  have hp' : (f.params.map (·.ty))[i]? = some (.named expected) := by simp [hp, hexpected]
  obtain rfl : received = expected := by
    obtain ⟨hlt, rfl⟩ := List.getElem?_eq_some_iff.1 harg
    obtain ⟨hlt', he⟩ := List.getElem?_eq_some_iff.1 hp'
    have ha := List.forall₂_iff_get.1 hfits |>.2 i hlt hlt'
    rw [htypes] at hreceived
    simp only [List.get_eq_getElem, hreceived, he, Option.getD_some] at ha
    exact Ty.isAssignable_named.1 ha
  exact ⟨rfl, fun h => Registry.findClass?_eq_of_owners h _ _⟩

/-! ### Two classes of one name -/

/-- The expression is a call of a function by its name that hands it a new instance of a class. The
numbers are those of the name and of the instance. -/
def Expr.handsOver (function : String) (callee : Nat) (className : String) (arg : Nat) :
    Expr → Bool
  | .call _ (.ident n name) [.new a cls _ []] =>
    name == function && n.id == callee && cls == className && a.id == arg
  | _ => false

theorem exists_of_handsOver {r : Registry} {path function className : String} {callee arg : Nat}
    (h : (r.find? path).any (·.exprs.any (Expr.handsOver function callee className arg)) = true) :
    ∃ m, r.find? path = some m ∧ ∃ node n a span,
      .call node (.ident n function) [.new a className span []] ∈ m.exprs ∧
        n.id = callee ∧ a.id = arg := by
  obtain ⟨m, hm, hany⟩ := (Option.any_eq_true _ _).1 h
  obtain ⟨e, he, hcall⟩ := List.any_eq_true.1 hany
  refine ⟨m, hm, ?_⟩
  unfold Expr.handsOver at hcall
  split at hcall
  · next node n name a cls span =>
    simp only [Bool.and_eq_true, beq_iff_eq] at hcall
    obtain ⟨⟨⟨rfl, hn⟩, rfl⟩, ha⟩ := hcall
    exact ⟨node, n, a, span, he, hn, ha⟩
  · cases hcall

/-- One module calls two functions of the other, with instances of its own class `P` and of the
class `Q` that it imports. The other has a class `P` of its own. -/
def twoClasses : Compilation :=
  (({} : Compilation).add
    "b.mg" "class P \x7b \x7d class Q \x7b \x7d fn f(p: P) \x7b \x7d fn g(q: Q) \x7b \x7d"
      (.root "app")).add
    "a.mg" "using b; class P \x7b \x7d fn h() \x7b f(new P()); g(new Q()); \x7d" (.root "app")

theorem twoClasses_run :
    twoClasses.check.1.diagnostics = [] ∧
      "a" ∈ twoClasses.check.2.reportedPaths ∧
      (twoClasses.check.2.registry.find? "a").any (·.exprs.any (Expr.handsOver "f" 0 "P" 1)) ∧
      (twoClasses.check.2.registry.find? "a").any (·.exprs.any (Expr.handsOver "g" 3 "Q" 4)) ∧
      (twoClasses.check.2.registry.names "a").binding? 0 = some (.function "b" 0) ∧
      (twoClasses.check.2.registry.names "a").binding? 3 = some (.function "b" 1) ∧
      ((twoClasses.check.2.registry.functionAt? "b" 0).map fun f => f.params.map (·.ty)) =
        some [.named "P"] ∧
      ((twoClasses.check.2.registry.functionAt? "b" 1).map fun f => f.params.map (·.ty)) =
        some [.named "Q"] ∧
      (twoClasses.check.2.registry.check (twoClasses.check.2.registry.names "a")).typeOf? 1 =
        some (.named "P") ∧
      (twoClasses.check.2.registry.check (twoClasses.check.2.registry.names "a")).typeOf? 4 =
        some (.named "Q") ∧
      (twoClasses.check.2.registry.findClass? "P" "a").map classPlace = some ("a", 0) ∧
      (twoClasses.check.2.registry.findClass? "P" "b").map classPlace = some ("b", 0) ∧
      (twoClasses.check.2.registry.owners "Q").length ≤ 1 := by
  decide +kernel

theorem twoClasses_reachable : twoClasses.Reachable :=
  (Compilation.Reachable.initial.add _ _ _).add _ _ _

/-- The class `Q` is the same for both modules. -/
theorem argument_class_twoClasses :
    ∃ rep ∈ twoClasses.check.1.modules, rep.diagnostics = [] ∧
      ∃ m, twoClasses.check.2.registry.find? rep.module = some m ∧
        ∃ node callee arg span, .call node (.ident callee "g") [.new arg "Q" span []] ∈ m.exprs ∧
          rep.names.binding? callee.id = some (.function "b" 1) ∧
          rep.types.typeOf? arg.id = some (.named "Q") ∧
          twoClasses.check.2.registry.findClass? "Q" rep.module =
            twoClasses.check.2.registry.findClass? "Q" "b" := by
  obtain ⟨hclean, hpath, -, hcall, -, hb, -, hf, -, harg, -, -, howners⟩ := twoClasses_run
  let rep := twoClasses.check.2.moduleReport "a"
  obtain ⟨hrep, hdiagnostics⟩ := Compilation.moduleReport_of_clean hclean hpath
  obtain ⟨m, hm, node, callee, arg, span, he, hcallee, hargId⟩ := exists_of_handsOver hcall
  obtain ⟨f, hfind, hparams⟩ := Option.map_eq_some_iff.1 hf
  obtain ⟨p, hp, hty⟩ := List.map_eq_singleton_iff.1 hparams
  have hb : rep.names.binding? callee.id = some (.function "b" 1) := hcallee ▸ hb
  have harg : rep.types.typeOf? arg.id = some (.named "Q") := hargId ▸ harg
  have h := argument_class twoClasses_reachable hrep hdiagnostics hm he hb hfind
  have hp0 : f.params[0]? = some p := by simp [hp]
  have hq := (h.2 0 (.new arg "Q" span []) p "Q" "Q" rfl hp0 hty harg).2 howners
  exact ⟨rep, hrep, hdiagnostics, m, hm, node, callee, arg, span, he, hb, harg, hq⟩

/-- The class `P` is not: no fault is reported, and an instance of one class is handed to a function
that takes the other. -/
theorem class_arguments_differ :
    twoClasses.check.1.diagnostics = [] ∧
      ∃ m f, twoClasses.check.2.registry.find? "a" = some m ∧
        twoClasses.check.2.registry.functionAt? "b" 0 = some f ∧
        f.params.map (·.ty) = [.named "P"] ∧
        ∃ node callee arg span, .call node (.ident callee "f") [.new arg "P" span []] ∈ m.exprs ∧
          (twoClasses.check.2.registry.names "a").binding? callee.id = some (.function "b" 0) ∧
          (twoClasses.check.2.registry.check
            (twoClasses.check.2.registry.names "a")).typeOf? arg.id = some (.named "P") ∧
          twoClasses.check.2.registry.findClass? "P" "a" ≠
            twoClasses.check.2.registry.findClass? "P" "b" := by
  obtain ⟨hclean, -, hcall, -, hb, -, hf, -, harg, -, ha, hbClass, -⟩ := twoClasses_run
  obtain ⟨m, hm, node, callee, arg, span, he, hcallee, hargId⟩ := exists_of_handsOver hcall
  obtain ⟨f, hfind, hparams⟩ := Option.map_eq_some_iff.1 hf
  refine ⟨hclean, m, f, hm, hfind, hparams, node, callee, arg, span, he, hcallee ▸ hb,
    hargId ▸ harg, ?_⟩
  intro heq
  rw [heq, hbClass] at ha
  exact absurd ha (by decide)

end MgLang
