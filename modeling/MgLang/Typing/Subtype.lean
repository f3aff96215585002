import MgLang.Syntax.Ty
/-!
# Subtyping

When a value of one type can be stored where another is expected, and at which type two values can
be used together. An integer can be used as a fractional number, and an unknown type as any other.

`is_assignable` exchanges its arguments at the parameters of functions. `flows` says in which order
they stand, so that the recursion is on both types at once.
-/

namespace MgLang.Ty

mutual

/-- With `forward`, a value of type `a` can be stored where `b` is expected; without it, a value of
type `b` can be stored where `a` is expected. Parameters of functions go the other way. -/
def flows (forward : Bool) (a b : Ty) : Bool :=
  match a, b with
  | unknown, _ => true
  | _, unknown => true
  | int, float => forward
  | float, int => !forward
  | option a, option b => flows forward a b
  | array a, array b => flows forward a b
  | fn ps r, fn qs s => flowsAll (!forward) ps qs && flows forward r s
  | a, b => a == b

/-- The lists are equally long, and their members compare pairwise as `flows` says. -/
def flowsAll (forward : Bool) (ps qs : List Ty) : Bool :=
  match ps, qs with
  | [], [] => true
  | p :: ps, q :: qs => flows forward p q && flowsAll forward ps qs
  | _, _ => false

end

/-- A value of type `a` can be stored where `b` is expected (`is_assignable`). -/
def isAssignable (a b : Ty) : Bool :=
  flows true a b

/-- The type at which values of both types can be used: the type itself if they are equal, and
`float` for an integer and a fractional number (`common_type`). -/
def common? : Ty → Ty → Option Ty
  | unknown, b => some b
  | a, unknown => some a
  | int, float => some float
  | float, int => some float
  | option a, option b => (common? a b).map option
  | array a, array b => (common? a b).map array
  | a, b => if a = b then some a else none

end MgLang.Ty
