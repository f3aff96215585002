/-!
# Byte lengths

Offsets count the bytes of a text in UTF-8, while the functions that take a text apart walk its
characters. `byteLength` joins the two views.
-/

namespace MgLang

/-- The number of bytes that the characters take in UTF-8. -/
def byteLength (cs : List Char) : Nat :=
  cs.foldr (fun c n => c.utf8Size + n) 0

@[simp, grind =] theorem byteLength_nil : byteLength [] = 0 := rfl

@[simp, grind =] theorem byteLength_cons (c : Char) (cs : List Char) :
    byteLength (c :: cs) = c.utf8Size + byteLength cs := rfl

@[simp, grind =] theorem byteLength_append (as bs : List Char) :
    byteLength (as ++ bs) = byteLength as + byteLength bs := by
  induction as with
  | nil => simp
  | cons a as ih => simp [ih, Nat.add_assoc]

end MgLang
