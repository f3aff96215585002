import MgLang.Proofs.TypesAlike
/-!
# Modules are checked separately

A module depends on another one through its outline. If the bodies, the initial values or the
imports of one module are changed and its outline stays, every other module gets the findings that it
had (`separate_checking`): what its imports name, what its identifiers refer to, and its types.
-/

namespace MgLang

namespace Registry

/-- The registries differ in what one module keeps to itself, and in the numbers of expressions. -/
structure SameBut (ρ : Nat → Nat) (changed : String) (r r' : Registry) : Prop where
  others : ∀ path, path ≠ changed → r'.find? path = (r.find? path).map (Module.renumber ρ)
  outline : (r'.find? changed).map Module.outline = (r.find? changed).map Module.outline

namespace SameBut

variable {ρ : Nat → Nat} {changed path : String} {r r' : Registry}

theorem alike (h : r.SameBut ρ changed r') : r.Alike r' := by
  intro path
  by_cases hp : path = changed
  · rw [hp]
    exact h.outline
  · rw [h.others path hp, Option.map_map]
    exact congrArg (Option.map · _) (funext (Module.outline_renumber ρ))

/-- The imports of the other modules name what they named. -/
theorem importsOf (h : r.SameBut ρ changed r') (hp : path ≠ changed) :
    r'.importsOf path = r.importsOf path := by
  refine h.alike.importsOf ?_
  rw [h.others path hp, Option.map_map]
  rfl

end SameBut

/-- **Modules depend on each other through their outlines.** If registries differ in the bodies, the
initial values and the imports of one module, every other module has the same imports, the same
references and scopes, the same types and the same faults in both. -/
theorem separate_checking {ρ : Nat → Nat} (hρ : Function.Injective ρ) {changed : String}
    {r r' : Registry} (h : r.SameBut ρ changed r') {path : String} (hp : path ≠ changed) :
    r'.resolveImports path = r.resolveImports path ∧
      r'.names path = (r.names path).renumber ρ ∧
      r'.check (r'.names path) = (r.check (r.names path)).renumber ρ := by
  refine ⟨?_, h.alike.names (h.others path hp), h.alike.check hρ (h.others path hp)⟩
  unfold resolveImports
  rw [h.importsOf hp]

/-- A module `lib` with a function `twice(n: int) -> int` that returns the given value. -/
def library (usings : List Using) (value : Expr) : Module where
  path := "lib"
  package := .root "app"
  decls :=
    { usings
      functions :=
        [{ name := "twice"
           params := [⟨"n", .int, ⟨"lib.mg", 9, 15⟩⟩]
           ret := .int
           body := ⟨[.returnStmt (some value) ⟨"lib.mg", 26, 35⟩], ⟨"lib.mg", 24, 37⟩⟩
           isPublic := true
           isStatic := false
           nameSpan := ⟨"lib.mg", 3, 8⟩
           span := ⟨"lib.mg", 0, 37⟩ }] }

/-- `using lib; fn f() { twice(true); }`, where the import names `lib`. -/
def client : Module where
  path := "main"
  package := .root "app"
  resolvedImports := ["lib"]
  decls :=
    { usings := [⟨"lib", ⟨"main.mg", 6, 9⟩⟩]
      functions :=
        [{ name := "f"
           params := []
           ret := .void
           body :=
            ⟨[.expr (.call ⟨12, ⟨"main.mg", 20, 31⟩⟩ (.ident ⟨10, ⟨"main.mg", 20, 25⟩⟩ "twice")
              [.bool ⟨11, ⟨"main.mg", 26, 30⟩⟩ true])], ⟨"main.mg", 18, 34⟩⟩
           isPublic := true
           isStatic := false
           nameSpan := ⟨"main.mg", 14, 15⟩
           span := ⟨"main.mg", 11, 34⟩ }] }

/-- A library returns another value and imports something that is not there; the numbers of the
client are one higher. The client still calls the same function and has the same fault. -/
theorem separate_checking_client :
    let old := ((Registry.empty.insert (library [] (.ident ⟨0, ⟨"lib.mg", 33, 34⟩⟩ "n"))).insert
      client)
    let new := ((Registry.empty.insert (library [⟨"gone", ⟨"lib.mg", 6, 10⟩⟩]
      (.unary ⟨1, ⟨"lib.mg", 33, 35⟩⟩ .negate (.ident ⟨0, ⟨"lib.mg", 34, 35⟩⟩ "n")))).insert
        (client.renumber (· + 1)))
    old.SameBut (· + 1) "lib" new ∧
      (new.names "main").references.toList =
        [⟨"twice", 11, ⟨"main.mg", 20, 25⟩, .function "lib" 0⟩] ∧
      (new.check (new.names "main")).errors =
        [⟨.typeMismatch "int" "bool", ⟨"main.mg", 26, 30⟩⟩] := by
  intro old new
  have hsame : old.SameBut (· + 1) "lib" new := by
    refine ⟨fun path hp => ?_, rfl⟩
    by_cases hm : path = "main"
    · subst hm
      rfl
    · have hn (m m' : Module) (hl : m.path = "lib") (hc : m'.path = "main") :
          ((Registry.empty.insert m).insert m').find? path = none := by
        rw [find?_insert, find?_insert, hl, hc, if_neg hm, if_neg hp]
        rfl
      rw [hn _ _ rfl rfl, hn _ _ rfl rfl, Option.map_none]
  have hp : "main" ≠ "lib" := by decide
  have h := separate_checking (fun _ _ => Nat.succ.inj) hsame hp
  have hr : (old.names "main").references.toList =
      [⟨"twice", 10, ⟨"main.mg", 20, 25⟩, .function "lib" 0⟩] := by
    decide
  refine ⟨hsame, ?_, ?_⟩
  · rw [h.2.1, Names.renumber, Array.toList_map, hr]
    rfl
  · rw [h.2.2]
    decide

end Registry

end MgLang
