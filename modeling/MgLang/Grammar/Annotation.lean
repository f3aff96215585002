import MgLang.Grammar.Cursor
import MgLang.Grammar.Power
/-!
# Reading type annotations

A type is a primitive name, a class name, `Option<T>`, `Array<T>` or a function type, followed by
any number of `[]`. `readTyHead` goes by the table that `create_token_type_lookups` fills with what
can begin a type.
-/

namespace MgLang

/-- The type that a word names on its own. -/
def primitiveTy? : TokenKind → Option Ty
  | .intType => some .int
  | .floatType => some .float
  | .stringType => some .string
  | .boolType => some .bool
  | .voidType => some .void
  | _ => none

/-- The types that are written around another one between angle brackets. -/
def wrapper? : String → Option (Ty → Ty)
  | "Option" => some .option
  | "Array" => some .array
  | _ => none

/-- Reads a primitive type (`parse_primitive_type`). Any other token is stepped over before it is
reported. -/
def readPrimitiveTy (c : Cursor) : Step 1 c Ty :=
  match h : primitiveTy? c.kind with
  | some ty => (c.take (by rintro he; simp [he, primitiveTy?] at h)).map fun _ => ty
  | none => .fail c.unexpected c.advance

mutual

/-- Reads a type (`parse_type`). At a power of `Power.call` or more the `[]` after it are left
unread. -/
def readTy (c : Cursor) (power : Power) : Step 1 c Ty :=
  (readTyHead c).andThen fun ty c _ => readTySuffixes c power ty
termination_by 4 * c.weight + 3

/-- Reads a type without the `[]` after it. -/
def readTyHead (c : Cursor) : Step 1 c Ty :=
  match c.kind with
  | .intType | .floatType | .stringType | .boolType | .voidType => readPrimitiveTy c
  | .identifier => readNamedTy c
  | .kwFn => readFnTy c
  | _ => .fail (c.expected "expected a type") c
termination_by 4 * c.weight + 2

/-- Reads the name of a class, or a wrapper with the type inside it (`parse_symbol_type`). Without
an angle bracket the name of a wrapper is a class name like any other. -/
def readNamedTy (c : Cursor) : Step 1 c Ty :=
  (c.expect .identifier).andThen fun name c _ =>
    match wrapper? name.value, c.kind with
    | some wrap, .less =>
      ((c.expect .less).andThen fun _ c _ =>
        (readTy c .default).andThen fun inner c _ =>
          (c.expect .greater).map fun _ => wrap inner).weaken
    | _, _ => .done c (.named name.value)
termination_by 4 * c.weight + 1

/-- Reads a function type (`parse_function_type`). Without an arrow nothing is returned. -/
def readFnTy (c : Cursor) : Step 1 c Ty :=
  (c.expect .kwFn).andThen fun _ c _ =>
    (c.expect .openParen).andThen fun _ c _ =>
      (readTys c).andThen fun params c _ =>
        (c.accept .arrow).andThen fun arrow c _ =>
          if arrow then (readTy c .default).weaken.map fun ret => .fn params ret
          else .done c (.fn params .void)
termination_by 4 * c.weight + 1

/-- Reads types separated by commas, up to and including the parenthesis that closes them. -/
def readTys (c : Cursor) : Step 1 c (List Ty) :=
  if c.kind = .closeParen then (c.expect .closeParen).map fun _ => []
  else
    (readTy c .default).andThen fun ty c _ =>
      (c.accept .comma).andThen fun comma c _ =>
        if comma then (readTys c).map fun tys => ty :: tys
        else (c.expect .closeParen).map fun _ => [ty]
termination_by 4 * c.weight + 4

/-- Reads the `[]` after a type (`parse_array_type`). -/
def readTySuffixes (c : Cursor) (power : Power) (ty : Ty) : Step 0 c Ty :=
  if c.kind = .openBracket ∧ power < .call then
    ((c.expect .openBracket).andThen fun _ c _ =>
      (c.expect .closeBracket).andThen fun _ c _ => readTySuffixes c power (.array ty)).weaken
  else .done c ty
termination_by 4 * c.weight

end

/-- Reads the return type of a function. Without an arrow nothing is returned. -/
def readReturnTy (c : Cursor) : Step 0 c Ty :=
  (c.accept .arrow).andThen fun arrow c _ =>
    if arrow then (readTy c .default).weaken else .done c .void

end MgLang
