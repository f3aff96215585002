import MgLang.Keyed
/-!
# Scopes

A stack of lexical scopes, the innermost first. A look-up sees the innermost scope that has the
name, so inner declarations hide outer ones. The stack also keeps the imports that hold in all its
scopes, and remembers how deep it has been.
-/

namespace MgLang

/-- Scopes that bind names to values of type `α`. -/
structure ScopeStack (α : Type) where
  /-- The open scopes, innermost first. In a scope, the latest declaration stands first. -/
  frames : List (List (String × α)) := []
  /-- The imports that hold in every scope. -/
  imports : List String := []
  /-- The greatest number of scopes that were open at once. -/
  maxDepth : Nat := 0

namespace ScopeStack

variable {α : Type}

instance : Inhabited (ScopeStack α) := ⟨{}⟩

/-- No scope, and the given imports (`ScopeStack::with_imports`). -/
def withImports (imports : List String) : ScopeStack α :=
  { imports }

/-- The number of open scopes. -/
def depth (s : ScopeStack α) : Nat :=
  s.frames.length

/-- Opens a scope (`ScopeStack::push`). -/
def push (s : ScopeStack α) : ScopeStack α :=
  { s with frames := [] :: s.frames, maxDepth := max s.maxDepth (s.depth + 1) }

/-- Closes the innermost scope, if one is open (`ScopeStack::pop`). -/
def pop (s : ScopeStack α) : ScopeStack α :=
  { s with frames := s.frames.tail }

/-- Binds a name in the innermost scope (`ScopeStack::declare`). Nothing happens if no scope is
open. -/
def declare (s : ScopeStack α) (name : String) (value : α) : ScopeStack α :=
  match s.frames with
  | [] => s
  | frame :: outer => { s with frames := ((name, value) :: frame) :: outer }

/-- The value of a name in the innermost scope that has the name (`ScopeStack::lookup`). -/
def lookup (s : ScopeStack α) (name : String) : Option α :=
  s.frames.findSome? (·.lookup name)

/-- Every name that can be seen, with its value, in the order of the names
(`ScopeStack::visible`). -/
def visible (s : ScopeStack α) : Keyed α :=
  .ofList s.frames.flatten.reverse

/-! ### How the operations act on look-up and depth -/

@[simp, grind =] theorem depth_push (s : ScopeStack α) : s.push.depth = s.depth + 1 := rfl

@[simp, grind =] theorem depth_pop (s : ScopeStack α) : s.pop.depth = s.depth - 1 := by
  simp [pop, depth]

@[simp, grind =] theorem depth_declare (s : ScopeStack α) (name : String) (value : α) :
    (s.declare name value).depth = s.depth := by
  unfold declare depth
  split <;> simp_all

@[simp, grind =] theorem frames_pop_push (s : ScopeStack α) : s.push.pop.frames = s.frames := rfl

@[simp, grind =] theorem lookup_push (s : ScopeStack α) (name : String) :
    s.push.lookup name = s.lookup name := by
  simp [push, lookup, List.findSome?]

theorem lookup_declare (s : ScopeStack α) (h : s.frames ≠ []) (name : String) (value : α)
    (x : String) :
    (s.declare name value).lookup x = if x = name then some value else s.lookup x := by
  unfold declare lookup
  split
  · contradiction
  · next heq => grind [Keyed.lookup_cons]

end ScopeStack

end MgLang
