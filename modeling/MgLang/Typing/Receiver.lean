import MgLang.Scope.Binding
import MgLang.Module.Registry
/-!
# What stands before a dot

The meaning of a name behind a dot depends on what stands before it: a built-in namespace, another
module under its short name, a class, or a value. And the types of values that are no instances of
a class have members of their own.
-/

namespace MgLang

/-- The type of a member that every array, string or optional value has (`builtin_member_type`). -/
def Ty.builtinMember? (receiver : Ty) (member : String) : Option Ty :=
  match receiver with
  | .array inner =>
    match member with
    | "length" | "len" => some (.fn [] .int)
    | "isEmpty" => some (.fn [] .bool)
    | "push" => some (.fn [inner] .void)
    | "pop" => some (.fn [] (.option inner))
    | "contains" => some (.fn [inner] .bool)
    | _ => none
  | .string =>
    match member with
    | "length" | "len" => some (.fn [] .int)
    | "isEmpty" => some (.fn [] .bool)
    | "contains" | "startsWith" | "endsWith" => some (.fn [.string] .bool)
    | "trim" | "toLower" | "toUpper" => some (.fn [] .string)
    | _ => none
  | .option inner =>
    match member with
    | "isSome" | "isNone" => some (.fn [] .bool)
    | "unwrap" => some (.fn [] inner)
    | "unwrapOr" => some (.fn [inner] inner)
    | _ => none
  | _ => none

namespace Names

/-- The expression is a built-in namespace or something that one offers, or stands below such a
thing (`is_builtin_namespace`). Nothing is known about the members of those. -/
def isBuiltin (n : Names) : Expr → Bool
  | .ident node _ =>
    match n.binding? node.id with
    | some (.namespaceOf path) => Builtin.isNamespace path
    | some (.builtin _ _) => true
    | _ => false
  | .member _ object _ _ => isBuiltin n object
  | _ => false

/-- The path of the module that the expression names by its short name (`module_alias`). Built-in
namespaces do not count. -/
def aliased? (n : Names) : Expr → Option String
  | .ident node _ =>
    match n.binding? node.id with
    | some (.namespaceOf path) => if Builtin.isNamespace path then none else some path
    | _ => none
  | _ => none

/-- The expression names a class, and not a value (`static_receiver`). -/
def isClass (n : Names) (r : Registry) : Expr → Bool
  | .ident node _ =>
    match n.binding? node.id with
    | some (.classAt _ _) => true
    | _ => false
  | .member _ object name _ =>
    match (n.aliased? object).bind fun path => (r.find? path).bind (·.symbol? name) with
    | some symbol => symbol.kind == .classType
    | none => false
  | _ => false

/-- The intrinsic function that the expression names. -/
def intrinsic? (n : Names) : Expr → Option String
  | .ident node _ =>
    match n.binding? node.id with
    | some (.intrinsic name) => some name
    | _ => none
  | _ => none

end Names

end MgLang
