import MgLang.Keyed
/-!
# The built-in library

The namespaces below `Std` and the names they offer. They have no source text: a name in one of
them has no known type and no declaration.
-/

namespace MgLang

/-- What a top-level name stands for. -/
inductive SymbolKind where
  | function
  | classType
  | value
deriving DecidableEq, Repr

/-- The kind as it is shown to a user. -/
def SymbolKind.text : SymbolKind → String
  | function => "function"
  | classType => "class"
  | value => "variable"

namespace Builtin

/-- The namespace above all others. -/
def root : String := "Std"

/-- The functions that can be called without any import (`INTRINSICS`). -/
def intrinsics : List String :=
  ["print", "println", "eprint", "eprintln", "readLine"]

/-- The built-in names that stand for values. -/
def constants : List String :=
  ["PI", "E"]

/-- Every namespace with the names it offers (`BUILTIN_MODULES`). -/
def namespaces : Keyed (List String) :=
  .ofList
    [("Std",
      ["print", "println", "eprint", "eprintln", "readLine", "IO", "Parse", "Option", "Math",
       "String", "Array", "Map", "Set", "File", "Network", "Time", "Random", "System"]),
     ("Std.IO",
      ["print", "println", "eprint", "eprintln", "readLine", "read", "readChar", "readFile",
       "writeFile", "appendFile"]),
     ("Std.Parse", ["parseInt", "parseFloat", "parseBool"]),
     ("Std.Option", ["isSome", "isNone", "unwrap", "unwrapOr"]),
     ("Std.Math",
      ["sqrt", "sin", "cos", "tan", "asin", "acos", "atan", "atan2", "abs", "pow", "exp", "log",
       "log10", "log2", "floor", "ceil", "round", "min", "max", "clamp", "PI", "E"]),
     ("Std.String",
      ["length", "isEmpty", "trim", "toLower", "toUpper", "startsWith", "endsWith", "contains",
       "replace", "split", "join", "repeat", "substring"]),
     ("Std.Array",
      ["length", "isEmpty", "push", "pop", "contains", "reverse", "sort", "indexOf", "clear"]),
     ("Std.Map",
      ["create", "insert", "get", "getOr", "contains", "remove", "size", "isEmpty", "clear",
       "keys", "values"]),
     ("Std.Set",
      ["create", "insert", "contains", "remove", "size", "isEmpty", "clear", "toArray", "union_",
       "intersection", "difference"]),
     ("Std.File",
      ["exists", "isFile", "isDirectory", "createDir", "remove", "removeAll", "copy", "rename",
       "size", "readFile", "writeFile", "appendFile", "Handle", "Mode", "Seek", "open", "close",
       "read", "write", "read_bytes", "write_u32", "write_u64", "seek", "tell", "flush"]),
     ("Std.Network",
      ["HttpServer", "HttpRequest", "HttpResponse", "jsonResponse", "htmlResponse",
       "textResponse", "redirectResponse", "urlEncode", "urlDecode", "parseQuery", "ping",
       "getLocalIP", "httpGet", "Status", "serveFile", "HTTP", "WebSocket", "TCP", "UDP",
       "Security", "JSON", "Routing"]),
     ("Std.Network.HTTP", []), ("Std.Network.JSON", []), ("Std.Network.Routing", []),
     ("Std.Network.Security", []), ("Std.Network.TCP", []), ("Std.Network.UDP", []),
     ("Std.Network.WebSocket", []),
     ("Std.Time", ["now", "sleep", "timestamp"]),
     ("Std.Random", ["randInt", "randFloat", "randBool"]),
     ("Std.System", ["exit", "getEnv", "execute"])]

/-- The names that a namespace offers, `none` for any other path (`builtin_members`). -/
def members? (path : String) : Option (List String) :=
  namespaces.get? path

/-- The path is that of a built-in namespace (`is_builtin_module`). -/
def isNamespace (path : String) : Bool :=
  (members? path).isSome

/-- The function can be called without any import (`is_intrinsic`). -/
def isIntrinsic (name : String) : Bool :=
  intrinsics.contains name

/-- What a built-in name stands for: apart from the constants, a name that begins with a capital
letter of ASCII is a type or a namespace (`builtin_member_kind`). -/
def kindOf (name : String) : SymbolKind :=
  if constants.contains name then .value
  else
    match name.toList with
    | c :: _ => if c.isUpper then .classType else .function
    | [] => .function

end Builtin

end MgLang
