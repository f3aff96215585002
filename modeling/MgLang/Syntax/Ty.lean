/-!
# Types

The types of the language. A class is known by its name alone; which class that is depends on the
module that uses the name. `Ty.unknown` cannot be written in a source text: it stands where no type
could be found, and everything is compatible with it.
-/

namespace MgLang

/-- A type (`Type`). -/
inductive Ty where
  | int | float | string | bool | void
  /-- Functions from `params` to `ret`. -/
  | fn (params : List Ty) (ret : Ty)
  /-- The instances of a class. -/
  | named (name : String)
  /-- A value or nothing. -/
  | option (inner : Ty)
  | array (inner : Ty)
  /-- No type could be determined. -/
  | unknown
deriving Repr, Inhabited

namespace Ty

/-! ### Equality -/

mutual

/-- Structural equality. -/
def same : Ty → Ty → Bool
  | int, int | float, float | string, string | bool, bool | void, void => true
  | fn ps r, fn qs s => sameAll ps qs && same r s
  | named m, named n => m == n
  | option a, option b => same a b
  | array a, array b => same a b
  | unknown, unknown => true
  | _, _ => false

/-- Structural equality of lists of types. -/
def sameAll : List Ty → List Ty → Bool
  | [], [] => true
  | p :: ps, q :: qs => same p q && sameAll ps qs
  | _, _ => false

end

mutual

theorem eq_of_same : ∀ {a b : Ty}, same a b = true → a = b := by
  intro a b h
  cases a <;> cases b <;> simp only [same, Bool.and_eq_true, beq_iff_eq] at h <;>
    first
      | rfl
      | contradiction
      | (rw [h])
      | (rw [eq_of_same h])
      | (rw [eq_of_sameAll h.1, eq_of_same h.2])

theorem eq_of_sameAll : ∀ {ps qs : List Ty}, sameAll ps qs = true → ps = qs
  | [], [], _ => rfl
  | p :: ps, q :: qs, h => by
    simp only [sameAll, Bool.and_eq_true] at h
    rw [eq_of_same h.1, eq_of_sameAll h.2]

end

mutual

theorem same_self : ∀ a : Ty, same a a = true := by
  intro a
  cases a with
  | fn ps r => simp only [same, sameAll_self ps, same_self r, Bool.and_self]
  | option a => simp only [same, same_self a]
  | array a => simp only [same, same_self a]
  | _ => simp [same]

theorem sameAll_self : ∀ ps : List Ty, sameAll ps ps = true
  | [] => rfl
  | p :: ps => by simp only [sameAll, same_self p, sameAll_self ps, Bool.and_self]

end

theorem same_iff {a b : Ty} : same a b = true ↔ a = b :=
  ⟨eq_of_same, fun h => h ▸ same_self a⟩

instance : DecidableEq Ty := fun a b => decidable_of_iff (same a b = true) same_iff

/-! ### The form in which a type is shown -/

mutual

/-- The type as it is shown in a message (the `Display` of `Type`). -/
def text : Ty → String
  | int => "int"
  | float => "float"
  | string => "string"
  | bool => "bool"
  | void => "void"
  | fn ps r => "fn(" ++ ", ".intercalate (texts ps) ++ ") -> " ++ text r
  | named name => name
  | option a => "Option<" ++ text a ++ ">"
  | array a => text a ++ "[]"
  | unknown => "?"

/-- The types of a list as they are shown in a message. -/
def texts : List Ty → List String
  | [] => []
  | a :: as => text a :: texts as

end

/-! ### The classes that a type names -/

mutual

/-- The names of classes in a type, from left to right. -/
def classNames : Ty → List String
  | named name => [name]
  | option a | array a => classNames a
  | fn ps r => classNamesAll ps ++ classNames r
  | int | float | string | bool | void | unknown => []

/-- The names of classes in a list of types, from left to right. -/
def classNamesAll : List Ty → List String
  | [] => []
  | a :: as => classNames a ++ classNamesAll as

end

/-! ### Classes of types -/

/-- Values of the type can be calculated with (`Type::is_numeric`). -/
def isNumeric : Ty → Bool
  | int | float | unknown => true
  | _ => false

/-- No type was determined (`Type::is_unknown`). -/
def isUnknown : Ty → Bool
  | unknown => true
  | _ => false

end Ty

end MgLang
