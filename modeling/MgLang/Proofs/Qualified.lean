import MgLang.Compilation
import MgLang.Proofs.DeclaredTypes
import MgLang.Proofs.Joins
/-!
# Names behind the short name of a module

A function or class of an import can be named in two ways: by its bare name, and behind the short
name of the import. The bare name means the last symbol of that name that may be used; behind the
short name it means the first, whether it may be used or not. `qualified_declaration` says so and
that both are the same as long as the import has one symbol of the name, and
`qualified_names_differ` shows a program in which they are not.
-/

namespace MgLang

open Check

/-! ### The symbols of a module -/

namespace Module

/-- The symbols that the declarations of a module are. -/
def declaredSymbols (m : Module) : List Symbol :=
  m.decls.functionSymbols m.path ++ m.decls.classSymbols m.path

/-- The symbols that the module at a path may use. -/
def symbolsFor (m : Module) (user : String) : List Symbol :=
  m.symbols.filter fun s => s.isPublic || m.path == user

/-- The last symbol of that name that the module at a path may use. -/
def lastFor? (m : Module) (user name : String) : Option Symbol :=
  ((m.symbolsFor user).filter (·.name == name)).getLast?

theorem symbols_eq_append (m : Module) :
    m.symbols = Builtin.symbols m.path m.package ++ m.declaredSymbols := by
  rw [m.symbols_eq, Declarations.symbols, List.append_assoc, declaredSymbols]

end Module

section

variable {m : Module} {s : Symbol}

/-- A declared symbol stands for a function or a class of the module. -/
theorem decl_of_declared (hs : s ∈ m.declaredSymbols) :
    s.module = m.path ∧ ((∃ i, s.decl = .function i) ∨ ∃ i, s.decl = .classAt i) := by
  rcases List.mem_append.1 hs with hs | hs
  · obtain ⟨⟨f, i⟩, -, rfl⟩ := List.mem_map.1 hs
    exact ⟨rfl, .inl ⟨i, rfl⟩⟩
  · obtain ⟨⟨c, i⟩, -, rfl⟩ := List.mem_map.1 hs
    exact ⟨rfl, .inr ⟨i, rfl⟩⟩

theorem owner?_of_declared (hs : s ∈ m.declaredSymbols) : s.binding.owner? = some m.path := by
  obtain ⟨hm, ⟨i, hi⟩ | ⟨i, hi⟩⟩ := decl_of_declared hs <;>
    simp [Symbol.binding, Binding.owner?, hm, hi]

theorem owner?_of_builtin {path : String} {package : Package}
    (hs : s ∈ Builtin.symbols path package) : s.binding.owner? = none := by
  unfold Builtin.symbols at hs
  split at hs
  · obtain ⟨name, -, rfl⟩ := List.mem_map.1 hs
    rfl
  · cases hs

/-- Of the symbols of a module, those of its functions and classes are declared in it. -/
theorem declared_of_owner? (hs : s ∈ m.symbols) {owner : String}
    (ho : s.binding.owner? = some owner) : s ∈ m.declaredSymbols ∧ owner = m.path := by
  rw [m.symbols_eq_append] at hs
  rcases List.mem_append.1 hs with hs | hs
  · rw [owner?_of_builtin hs] at ho
    cases ho
  · rw [owner?_of_declared hs] at ho
    exact ⟨hs, (Option.some.inj ho).symm⟩

end

/-! ### What a bare name means -/

theorem lookup_symbols (ss : List Symbol) (name : String) :
    (ss.map fun s => (s.name, s.binding)).lookup name =
      (ss.find? (·.name == name)).map (·.binding) := by
  induction ss with
  | nil => rfl
  | cons s ss ih =>
    rw [List.map_cons, Keyed.lookup_cons, List.find?_cons, ih]
    by_cases h : name = s.name
    · simp [h]
    · have hs : (s.name == name) = false := beq_false_of_ne (Ne.symm h)
      rw [if_neg h, hs]

/-- Of symbols that are declared one after the other, the last of a name counts. -/
theorem lookup_reverse_symbols (ss : List Symbol) (name : String) :
    (ss.map fun s => (s.name, s.binding)).reverse.lookup name =
      (ss.filter (·.name == name)).getLast?.map (·.binding) := by
  rw [← List.map_reverse, lookup_symbols, List.getLast?_filter]

theorem exists_of_lookup_flatMap {α : Type} {xs : List α} {f : α → Env} {name : String}
    {b : Binding} (h : (xs.flatMap f).lookup name = some b) :
    ∃ x ∈ xs, (f x).lookup name = some b := by
  induction xs with
  | nil => cases h
  | cons x xs ih =>
    rw [List.flatMap_cons, List.lookup_append] at h
    cases hx : (f x).lookup name with
    | some b' =>
      rw [hx] at h
      exact ⟨x, List.mem_cons_self, hx.trans h⟩
    | none =>
      rw [hx] at h
      obtain ⟨y, hy, hl⟩ := ih h
      exact ⟨y, List.mem_cons_of_mem _ hy, hl⟩

section

variable {r : Registry} {m i : Module} {path name owner : String} {b : Binding} {s : Symbol}

theorem mem_of_lastFor? {user : String} (h : m.lastFor? user name = some s) :
    s ∈ m.symbols ∧ s.name = name ∧ (s.isPublic || m.path == user) = true := by
  obtain ⟨hs, hn⟩ := List.mem_filter.1 (List.mem_of_getLast? h)
  obtain ⟨hs, hu⟩ := List.mem_filter.1 hs
  exact ⟨hs, beq_iff_eq.1 hn, hu⟩

/-- Its own symbols a module may use. -/
theorem lastFor?_own (m : Module) (name : String) :
    m.lastFor? m.path name = (m.symbols.filter (·.name == name)).getLast? := by
  have hall : m.symbolsFor m.path = m.symbols := List.filter_eq_self.2 fun s _ => by simp
  rw [Module.lastFor?, hall]

theorem lastFor?_of_ne {user : String} (h : m.path ≠ user) (name : String) :
    m.lastFor? user name = (m.publicSymbols.filter (·.name == name)).getLast? := by
  have hpublic : m.symbolsFor user = m.publicSymbols := by
    unfold Module.symbolsFor Module.publicSymbols
    simp only [beq_false_of_ne h, Bool.or_false]
  rw [Module.lastFor?, hpublic]

/-- A function or class that a module declares itself is the last symbol of its name. -/
theorem lastFor?_of_lookup_own (h : m.ownNames.reverse.lookup name = some b) :
    ∃ s, m.lastFor? m.path name = some s ∧ s.binding = b := by
  unfold Module.ownNames at h
  rw [lookup_reverse_symbols] at h
  obtain ⟨s, hs, hb⟩ := Option.map_eq_some_iff.1 h
  refine ⟨s, ?_, hb⟩
  rw [lastFor?_own, m.symbols_eq_append, List.filter_append, List.getLast?_append,
    Module.declaredSymbols, hs]
  rfl

theorem owner?_of_lookup_builtin (h : Builtin.names.reverse.lookup name = some b) :
    b.owner? = none := by
  obtain ⟨before, behind, he, -⟩ := List.lookup_eq_some_iff.1 h
  have hmem : (name, b) ∈ Builtin.names := List.mem_reverse.1 (by simp [he])
  rcases List.mem_append.1 hmem with hmem | hmem
  · obtain ⟨x, -, hx⟩ := List.mem_map.1 hmem
    rw [← (Prod.mk.inj hx).2]
    rfl
  · rw [(Prod.mk.inj (List.mem_singleton.1 hmem)).2]
    rfl

/-- A function or class that an import brings is its last public symbol of the name. -/
theorem getLast?_of_lookup_exports (h : i.exports.reverse.lookup name = some b)
    (hb : b.owner? = some owner) :
    i.path = owner ∧ ∃ s ∈ i.declaredSymbols, s.name = name ∧ s.binding = b ∧
      (i.publicSymbols.filter (·.name == name)).getLast? = some s := by
  unfold Module.exports at h
  rw [List.reverse_append, List.reverse_singleton, List.singleton_append, Keyed.lookup_cons] at h
  split at h
  · cases h
    cases hb
  · rw [lookup_reverse_symbols] at h
    obtain ⟨s, hs, rfl⟩ := Option.map_eq_some_iff.1 h
    obtain ⟨hpublic, hn⟩ := List.mem_filter.1 (List.mem_of_getLast? hs)
    obtain ⟨hdeclared, howner⟩ := declared_of_owner? (List.mem_filter.1 hpublic).1 hb
    exact ⟨howner.symm, s, hdeclared, beq_iff_eq.1 hn, rfl, hs⟩

/-- A name that means a function or a class from the scope of a module means the last symbol of that
name that the module may use, among those of the module that declares it. -/
theorem lastFor?_of_lookup (hm : r.find? path = some m) (h : (r.rootEnv m).lookup name = some b)
    (hb : b.owner? = some owner) :
    ∃ o last, r.find? owner = some o ∧ o.lastFor? path name = some last ∧ last.binding = b := by
  have hpath := Registry.path_of_find? hm
  unfold Registry.rootEnv Registry.rootNames at h
  rw [List.reverse_append, List.reverse_append, List.lookup_append, List.lookup_append] at h
  cases hown : m.ownNames.reverse.lookup name with
  | some b' =>
    rw [hown] at h
    cases h
    obtain ⟨last, hlast, rfl⟩ := lastFor?_of_lookup_own hown
    obtain ⟨-, rfl⟩ := declared_of_owner? (mem_of_lastFor? hlast).1 hb
    exact ⟨m, last, hpath.symm ▸ hm, hpath ▸ hlast, rfl⟩
  | none =>
    cases hbuiltin : Builtin.names.reverse.lookup name with
    | some b' =>
      rw [hown, hbuiltin] at h
      cases h
      rw [owner?_of_lookup_builtin hbuiltin] at hb
      cases hb
    | none =>
      rw [hown, hbuiltin, List.reverse_flatMap] at h
      obtain ⟨i, hi, h⟩ := exists_of_lookup_flatMap h
      obtain ⟨rfl, last, hdeclared, rfl, rfl, hlast⟩ := getLast?_of_lookup_exports h hb
      have hfind := Registry.find?_of_mem_importedModules (List.mem_reverse.1 hi)
      -- If the module imports itself, then the name would be among its own.
      have hother : i.path ≠ path := by
        intro hself
        rw [hself, hm] at hfind
        obtain rfl := Option.some.inj hfind
        have hmem : (last.name, last.binding) ∈ m.ownNames.reverse :=
          List.mem_reverse.2 (List.mem_map_of_mem hdeclared)
        exact bne_iff_ne.1 (List.lookup_eq_none_iff.1 hown _ hmem) rfl
      exact ⟨i, last, hfind, (lastFor?_of_ne hother _).trans hlast, rfl⟩

end

/-! ### What a name means behind a module -/

section

variable {cx : CheckContext} {o : Module} {path name : String} {x : Symbol} {ty : Ty}

/-- Behind the short name of a module, the type is that of the first symbol of the name, which is
reported if the module that is checked may not use it. -/
theorem moduleMemberTy_of_symbol? (ho : cx.registry.find? path = some o)
    (hx : o.symbol? name = some x) (hd : x ∈ o.declaredSymbols)
    (hty : cx.registry.declaredTy? x.binding = some ty) (span : Span) :
    cx.moduleMemberTy path name span = (do
      unless cx.mayUse x.isPublic o do
        Check.report (.visibilityViolation name path) span
      return ty) := by
  obtain rfl := Registry.path_of_find? ho
  unfold CheckContext.moduleMemberTy
  rw [ho]
  dsimp only
  rw [hx]
  obtain ⟨hmodule, ⟨i, hi⟩ | ⟨i, hi⟩⟩ := decl_of_declared hd
  · have hf : (o.decls.functions[i]?).map (·.signature) = some ty := by
      simpa [Symbol.binding, hi, hmodule, Registry.declaredTy?, Registry.functionAt?, ho] using hty
    simp only [hi, hf, Option.getD_some]
  · have hc : (o.decls.classes[i]?).map (Ty.named ·.name) = some ty := by
      simpa [Symbol.binding, hi, hmodule, Registry.declaredTy?, Registry.classAt?, ho] using hty
    simp only [hi, hc, Option.getD_some]

/-- The whole access has that type, and nothing else is reported of it. -/
theorem checkExpr_aliased {object : Expr} (ha : cx.names.aliased? object = some path)
    (ho : cx.registry.find? path = some o) (hx : o.symbol? name = some x)
    (hd : x ∈ o.declaredSymbols) (hty : cx.registry.declaredTy? x.binding = some ty)
    (node : Node) (span : Span) (s : Checker) :
    (checkExpr cx (.member node object name span)).result s = ty ∧
      (checkExpr cx (.member node object name span)).reported s =
        if cx.mayUse x.isPublic o then [] else [⟨.visibilityViolation name path, span⟩] := by
  have hbuiltin := Names.isBuiltin_of_aliased? ha
  rw [checkExpr_member_aliased cx hbuiltin ha, moduleMemberTy_of_symbol? ho hx hd hty]
  by_cases hu : cx.mayUse x.isPublic o = true
  · rw [if_pos hu, if_pos hu]
    exact ⟨rfl, by simp [reported]⟩
  · rw [if_neg hu, if_neg hu]
    exact ⟨rfl, by simp [reported]⟩

end

namespace CheckContext

/-- Identifiers that refer to that have the type that it has by declaration. -/
def TakesBare (cx : CheckContext) (b : Binding) : Prop :=
  ∃ ty, cx.registry.declaredTy? b = some ty ∧
    ∀ (node : Node) name s, cx.names.binding? node.id = some b →
      (checkExpr cx (.ident node name)).result s = ty

/-- Behind that expression the name means a symbol of that module: it has the type that the symbol
has by declaration, and is reported if the module that is checked may not use the symbol. -/
def TakesBehind (cx : CheckContext) (object : Expr) (name : String) (o : Module) (x : Symbol) :
    Prop :=
  ∃ ty, cx.registry.declaredTy? x.binding = some ty ∧
    ∀ node span s, (checkExpr cx (.member node object name span)).result s = ty ∧
      (checkExpr cx (.member node object name span)).reported s =
        if cx.mayUse x.isPublic o then [] else [⟨.visibilityViolation name o.path, span⟩]

end CheckContext

section

variable {r : Registry} {path name owner : String} {b : Binding}

theorem Binding.Named.exists_declaredTy? (h : b.Named r name) (hb : b.owner? = some owner) :
    ∃ ty, r.declaredTy? b = some ty := by
  cases b with
  | function path idx =>
    obtain ⟨d, hd, -⟩ := h
    obtain ⟨f, hf, -⟩ := Option.map_eq_some_iff.1 hd
    exact ⟨f.signature, congrArg (Option.map FunctionDecl.signature) hf⟩
  | classAt path idx =>
    obtain ⟨d, hd, -⟩ := h
    obtain ⟨c, hc, -⟩ := Option.map_eq_some_iff.1 hd
    exact ⟨.named c.name, congrArg (Option.map fun c : ClassDecl => Ty.named c.name) hc⟩
  | _ => cases hb

/-- What names a module names no built-in namespace. -/
theorem Names.isNamespace_of_aliased? {names : Names} {object : Expr}
    (ha : names.aliased? object = some path) : Builtin.isNamespace path = false := by
  obtain ⟨node, name, rfl⟩ := Names.exists_ident_of_aliased? ha
  simp only [Names.aliased?] at ha
  split at ha
  · split at ha
    · cases ha
    · next hn =>
      cases ha
      simpa using hn
  · cases ha

/-- A module that is no built-in namespace has no other symbols than those it declares. -/
theorem mem_declaredSymbols {m : Module} (hm : Builtin.isNamespace m.path = false) {s : Symbol}
    (hs : s ∈ m.symbols) : s ∈ m.declaredSymbols := by
  rw [m.symbols_eq_append] at hs
  refine (List.mem_append.1 hs).resolve_left fun hs => ?_
  have hnone : Builtin.members? m.path = none := by simpa [Builtin.isNamespace] using hm
  simp [Builtin.symbols, hnone] at hs

/-- **What a name means behind the short name of a module.** A bare name that is bound to a function
or a class of a module is bound to the last symbol of that name that may be used there. Behind the
short name of the module it means the first symbol of that name, even if it may not be used, which
is then reported. Both are the same symbol as long as the module has only one of that name. -/
theorem qualified_declaration {m : Module} (hm : r.find? path = some m) {ref : Reference}
    (href : ref ∈ (r.names path).references) (hb : ref.binding.owner? = some owner) {object : Expr}
    (ha : (r.names path).aliased? object = some owner) :
    ∃ o first last, r.find? owner = some o ∧
      (o.lastFor? path ref.name = some last ∧ last.binding = ref.binding ∧
        (r.checkContext path m).TakesBare ref.binding) ∧
      (o.symbol? ref.name = some first ∧ first.binding.owner? = some owner ∧
        (r.checkContext path m).TakesBehind object ref.name o first) ∧
      ((o.symbols.filter (·.name == ref.name)).length ≤ 1 →
        first.binding = ref.binding ∧
          (r.checkContext path m).mayUse first.isPublic o = true) := by
  have hroot := lookup_rootEnv_of_reference hm href (by rw [hb]; rfl)
  obtain ⟨o, last, ho, hlast, hbinding⟩ := lastFor?_of_lookup hm hroot hb
  obtain rfl := Registry.path_of_find? ho
  obtain ⟨hmem, hname, huse⟩ := mem_of_lastFor? hlast
  -- The first symbol of the name is there, as the last is.
  have hsome : (o.symbol? ref.name).isSome :=
    List.find?_isSome.2 ⟨last, hmem, by simpa using hname⟩
  obtain ⟨first, hfirst⟩ := Option.isSome_iff_exists.1 hsome
  have hmem' := List.mem_of_find?_eq_some hfirst
  have hdeclared := mem_declaredSymbols (Names.isNamespace_of_aliased? ha) hmem'
  have howner := owner?_of_declared hdeclared
  obtain ⟨ty, hty⟩ := (named_of_mem_references href).exists_declaredTy? hb
  obtain ⟨ty', hty'⟩ := (Symbol.named ho hmem').exists_declaredTy? howner
  refine ⟨o, first, last, ho, ⟨hlast, hbinding, ty, hty, ?_⟩, ⟨hfirst, howner, ty', hty', ?_⟩, ?_⟩
  · intro node name s hn
    exact result_identTy hn hty s
  · intro node span s
    exact checkExpr_aliased ha ho hfirst hdeclared hty' node span s
  · intro hone
    have hlast : last ∈ o.symbols.filter (·.name == ref.name) :=
      List.mem_filter.2 ⟨hmem, by simpa using hname⟩
    have hfirst := List.mem_filter.2 ⟨hmem', List.find?_some hfirst⟩
    have hlength := Nat.le_antisymm hone (List.length_pos_of_mem hlast)
    obtain ⟨x, hx⟩ := List.length_eq_one_iff.1 hlength
    rw [hx, List.mem_singleton] at hlast hfirst
    rw [hfirst, ← hlast]
    refine ⟨hbinding, ?_⟩
    show (last.isPublic || o.path == m.path) = true
    rw [Registry.path_of_find? hm]
    exact huse

end

/-- A module has a private function `x` in front of a public one, and another module uses both by
their bare names and behind the short name of the module, together with a function `y`. -/
def hiddenFirst : Compilation :=
  (({} : Compilation).add "n.mg"
    "priv fn x() \x7b \x7d fn x(a: int) \x7b \x7d fn y() \x7b \x7d" (.root "app")).add
    "main.mg" "using n; fn f() \x7b x(1); n.x(1); y(); n.y(); \x7d" (.root "app")

theorem hiddenFirst_run :
    let r := hiddenFirst.check.2.registry
    (r.find? "main").isSome ∧
      ((r.find? "n").any fun o => (o.symbols.filter (·.name == "y")).length ≤ 1) ∧
      (r.names "main").references =
        #[⟨"x", 0, ⟨"main.mg", 18, 19⟩, .function "n" 1⟩,
          ⟨"n", 3, ⟨"main.mg", 24, 25⟩, .namespaceOf "n"⟩,
          ⟨"y", 7, ⟨"main.mg", 32, 33⟩, .function "n" 2⟩,
          ⟨"n", 9, ⟨"main.mg", 37, 38⟩, .namespaceOf "n"⟩] ∧
      (r.names "main").aliased? (.ident ⟨9, ⟨"main.mg", 37, 38⟩⟩ "n") = some "n" ∧
      (r.check (r.names "main")).typeOf? 0 = some (.fn [.int] .void) ∧
      (r.check (r.names "main")).typeOf? 4 = some (.fn [] .void) ∧
      hiddenFirst.check.1.diagnostics =
        [⟨.visibilityViolation "x" "n", ⟨"main.mg", 26, 27⟩⟩,
          ⟨.arityMismatch "x" 0 1, ⟨"main.mg", 24, 30⟩⟩] := by
  decide +kernel

/-- There is only one `y`, and the bare name and the access mean it. -/
theorem qualified_declaration_hiddenFirst :
    let r := hiddenFirst.check.2.registry
    let object := Expr.ident ⟨9, ⟨"main.mg", 37, 38⟩⟩ "n"
    ∃ m o y, r.find? "main" = some m ∧ r.find? "n" = some o ∧
      (⟨"y", 7, ⟨"main.mg", 32, 33⟩, .function "n" 2⟩ : Reference) ∈ (r.names "main").references ∧
      (r.names "main").aliased? object = some "n" ∧
      o.symbol? "y" = some y ∧ y.binding = .function "n" 2 ∧
      (r.checkContext "main" m).TakesBare y.binding ∧
      (r.checkContext "main" m).TakesBehind object "y" o y ∧
      (r.checkContext "main" m).mayUse y.isPublic o = true := by
  obtain ⟨hmain, hn, hrefs, ha, -⟩ := hiddenFirst_run
  obtain ⟨m, hm⟩ := Option.isSome_iff_exists.1 hmain
  have href : (⟨"y", 7, ⟨"main.mg", 32, 33⟩, .function "n" 2⟩ : Reference) ∈
      (hiddenFirst.check.2.registry.names "main").references := by
    simp [hrefs]
  obtain ⟨o, first, last, ho, ⟨-, -, hbare⟩, ⟨hfirst, -, hbehind⟩, hone⟩ :=
    qualified_declaration hm href rfl ha
  obtain ⟨hbinding, huse⟩ := hone (by simpa [ho] using hn)
  exact ⟨m, o, first, hm, ho, href, ha, hfirst, hbinding, hbinding ▸ hbare, hbehind, huse⟩

/-- The bare `x` is the public function, and the `x` behind `n` is the private one: it has the type
of that function, is reported because it is private, and called with one argument too many. -/
theorem qualified_names_differ :
    let r := hiddenFirst.check.2.registry
    (⟨"x", 0, ⟨"main.mg", 18, 19⟩, .function "n" 1⟩ : Reference) ∈ (r.names "main").references ∧
      (⟨"n", 3, ⟨"main.mg", 24, 25⟩, .namespaceOf "n"⟩ : Reference) ∈
        (r.names "main").references ∧
      (r.check (r.names "main")).typeOf? 0 = some (.fn [.int] .void) ∧
      (r.check (r.names "main")).typeOf? 4 = some (.fn [] .void) ∧
      hiddenFirst.check.1.diagnostics =
        [⟨.visibilityViolation "x" "n", ⟨"main.mg", 26, 27⟩⟩,
          ⟨.arityMismatch "x" 0 1, ⟨"main.mg", 24, 30⟩⟩] := by
  obtain ⟨-, -, hrefs, -, hbare, hbehind, hdiagnostics⟩ := hiddenFirst_run
  refine ⟨?_, ?_, hbare, hbehind, hdiagnostics⟩ <;> simp [hrefs]

end MgLang
