/-!
# Values of a TOML document

The tree that a document stands for, and the three ways in which a document adds to it: a key with
a value, the header of a table, and the header of one more element of an array of tables. A table
remembers how it came to be, since that decides what may still be added to it.
-/

namespace MgLang

namespace Toml

/-- How a table came to be. -/
inductive Origin where
  /-- Written between braces. Nothing can be added to it. -/
  | inline
  /-- By a key with dots. Keys with dots can add to it, and a header cannot open it. -/
  | dotted
  /-- As something above a table that a header opened. One header can still open it. -/
  | implied
  /-- By a header of its own. -/
  | header
deriving DecidableEq, Repr

end Toml

/-- A value of a document. -/
inductive Toml where
  | string (value : String)
  | integer (value : Int)
  /-- A number that is no integer, as it was written. -/
  | float (numeral : String)
  | boolean (value : Bool)
  /-- A date, a time or both, in the usual form. -/
  | date (text : String)
  | array (items : List Toml)
  | table (origin : Toml.Origin) (entries : List (String × Toml))
  /-- The tables that headers with double brackets opened, in their order. -/
  | tables (items : List (List (String × Toml)))

namespace Toml

/-- The keys of a table with their values, in the order in which they were added. -/
abbrev Entries : Type := List (String × Toml)

/-- Puts a value in the place of the one that the key has. -/
def replace (key : String) (value : Toml) (es : Entries) : Entries :=
  es.map fun e => if e.1 = key then (key, value) else e

/-- Adds a key to a table, below the tables that the keys before it name. Those tables have to be
made of such keys themselves. -/
def insert : List String → String → Toml → Entries → Option Entries
  | [], key, value, es => if (es.lookup key).isSome then none else some (es ++ [(key, value)])
  | k :: ks, key, value, es =>
    match es.lookup k with
    | none => (insert ks key value []).map fun inner => es ++ [(k, table .dotted inner)]
    | some (table origin inner) =>
      if origin = .dotted ∨ (origin = .implied ∧ ks ≠ []) then
        (insert ks key value inner).map fun inner => replace k (table origin inner) es
      else none
    | some (tables items) =>
      if ks = [] then none
      else
        (insert ks key value (items.getLast?.getD [])).map fun last =>
          replace k (tables (items.dropLast ++ [last])) es
    | some _ => none

/-- Changes the table at a path of headers. Tables that are not there yet are implied, and an array
of tables stands for its last element. -/
def modifyAt : List String → (Entries → Option Entries) → Entries → Option Entries
  | [], f, es => f es
  | k :: ks, f, es =>
    match es.lookup k with
    | none => (modifyAt ks f []).map fun inner => es ++ [(k, table .implied inner)]
    | some (table .inline _) => none
    | some (table origin inner) =>
      (modifyAt ks f inner).map fun inner => replace k (table origin inner) es
    | some (tables items) =>
      (modifyAt ks f (items.getLast?.getD [])).map fun last =>
        replace k (tables (items.dropLast ++ [last])) es
    | some _ => none

/-- Opens the table of a header. -/
def openTable (above : List String) (key : String) : Entries → Option Entries :=
  modifyAt above fun es =>
    match es.lookup key with
    | none => some (es ++ [(key, table .header [])])
    | some (table .implied inner) => some (replace key (table .header inner) es)
    | some _ => none

/-- Opens one more element of the array of tables of a header. -/
def openElement (above : List String) (key : String) : Entries → Option Entries :=
  modifyAt above fun es =>
    match es.lookup key with
    | none => some (es ++ [(key, tables [[]])])
    | some (tables items) => some (replace key (tables (items ++ [[]])) es)
    | some _ => none

end Toml

end MgLang
