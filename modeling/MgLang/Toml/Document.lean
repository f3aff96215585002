import MgLang.Toml.Number
/-!
# TOML documents

The reader for values and for the lines of a document. `parse?` is the tree that a document stands
for. It fails if the text is no document, or says something twice.
-/

namespace MgLang.Toml

namespace Reader

/-! ### Values -/

/-- A value that holds no other. -/
def scalar : Reader Toml := do
  if (← ahead ['"']) || (← ahead ['\'']) then return .string (← string)
  else if ← accept "true".toList then return .boolean true
  else if ← accept "false".toList then return .boolean false
  else date <|> number

/-- The items of an array up to its closing bracket. A comma may stand behind the last. The limit
has to exceed their number. -/
def arrayItems (value : Reader Toml) : Nat → Reader (List Toml)
  | 0 => failure
  | limit + 1 => do
    blank
    if ← accept [']'] then return []
    let item ← value
    blank
    if ← accept [','] then
      return item :: (← arrayItems value limit)
    else
      exact [']']
      return [item]

/-- An array. -/
def array (value : Reader Toml) : Reader Toml := do
  exact ['[']
  return .array (← arrayItems value ((← get).length + 1))

/-- A key with its value, up to the end of the value. -/
def pair (value : Reader Toml) : Reader ((List String × String) × Toml) := do
  let k ← key
  exact ['=']
  spaces
  return (k, ← value)

/-- Adds keys with their values to a table, one after the other. -/
def insertAll (es : Entries) : List ((List String × String) × Toml) → Option Entries
  | [] => some es
  | ((above, key), value) :: rest => (insert above key value es).bind fun es => insertAll es rest

/-- A table between braces. It stands on one line, and no comma stands behind its last entry. -/
def inlineTable (value : Reader Toml) : Reader Toml := do
  exact ['\x7b']
  spaces
  if ← accept ['\x7d'] then return .table .inline []
  let entry : Reader ((List String × String) × Toml) := do
    let e ← pair value
    spaces
    return e
  let entries ← separated [','] entry ((← get).length + 1)
  exact ['\x7d']
  match insertAll [] entries with
  | some es => return .table .inline es
  | none => failure

/-- A value, with arrays and tables in it at most so deep. -/
def value : Nat → Reader Toml
  | 0 => scalar
  | depth + 1 => array (value depth) <|> inlineTable (value depth) <|> scalar

/-! ### Lines -/

/-- What has been read of a document. -/
structure Draft where
  /-- All entries. -/
  entries : Entries := []
  /-- The path of the last header. -/
  header : List String := []

/-- A header in brackets. -/
def headerIn (opening closing : List Char) : Reader (List String × String) := do
  exact opening
  let k ← key
  exact closing
  lineRest
  return k

/-- Goes on with the table of a header, once that has been opened. -/
def Draft.under (k : List String × String) (opened : Option Entries) : Option Draft :=
  opened.map fun entries => ⟨entries, k.1 ++ [k.2]⟩

/-- What a line adds to a document. -/
def line (d : Draft) : Reader Draft := do
  spaces
  if ← ahead ['#'] then
    lineRest
    return d
  else if ← ahead ['[', '['] then
    let k ← headerIn ['[', '['] [']', ']']
    Draft.under k (openElement k.1 k.2 d.entries)
  else if ← ahead ['['] then
    let k ← headerIn ['['] [']']
    Draft.under k (openTable k.1 k.2 d.entries)
  else if (← optional newline).isSome then
    return d
  else
    let ((above, key), v) ← pair (value (nestingLimit - 1))
    lineRest
    let entries ← modifyAt d.header (insert above key v) d.entries
    return { d with entries }

/-- Reads lines to the end of the document. The limit has to exceed their number. -/
def lines : Nat → Draft → List Char → Option Draft
  | 0, _, _ => none
  | limit + 1, d, cs =>
    if cs.all isSpace then some d
    else (line d cs).bind fun (d, rest) => lines limit d rest

end Reader

/-- The tree that a document stands for. A byte order mark at its beginning does not count. -/
def parse? (text : String) : Option Entries :=
  let cs := text.toList
  let body := (['\ufeff'].isPrefixOf? cs).getD cs
  (Reader.lines (body.length + 1) {} body).map (·.entries)

end MgLang.Toml
