import MgLang.Source.Span
import MgLang.Text.Quoted
/-!
# Diagnostics

What can be wrong with a program. A `Cause` says what is wrong and with which names, a
`Diagnostic` says where. The wording of a cause is decided here and nowhere else: its name, its
message, and the advice that goes with it.
-/

namespace MgLang

/-- What is wrong (`ErrorImpl`). -/
inductive Cause where
  /-- No token starts with this character. -/
  | unrecognisedToken (token : String)
  /-- The token cannot stand here. -/
  | unexpectedToken (token : String)
  /-- The token cannot stand here, and `message` says what could. -/
  | unexpectedTokenDetailed (token message : String)
  /-- The numeral has no value that fits. -/
  | numberParseError (token : String)
  /-- A `using` directive names no loaded module. -/
  | moduleNotFound (path : String)
  /-- Two packages provide the same module. -/
  | moduleConflict (path existing incoming : String)
  /-- The name is bound to nothing. -/
  | undefinedIdentifier (name : String)
  /-- No module has such a class. -/
  | undefinedClass (name : String)
  /-- The name is private to another module. -/
  | visibilityViolation (name module : String)
  /-- A value of one type stands where another is needed. -/
  | typeMismatch (expected received : String)
  /-- A call has too many or too few arguments. -/
  | arityMismatch (name : String) (expected received : Nat)
  /-- The type or module has no such member. -/
  | unknownMember (type member : String)
deriving DecidableEq, Repr

/-- Something wrong at a place (`Error`). -/
structure Diagnostic where
  /-- What is wrong. -/
  cause : Cause
  /-- Where it is wrong. -/
  span : Span
deriving DecidableEq, Repr

namespace Cause

/-- The name of the kind of fault (`Error::get_error_name`). -/
def name : Cause → String
  | unrecognisedToken _ => "UnrecognisedToken"
  | unexpectedToken _ => "UnexpectedToken"
  | unexpectedTokenDetailed _ _ => "UnexpectedTokenDetailed"
  | numberParseError _ => "NumberParseError"
  | moduleNotFound _ => "ModuleNotFound"
  | moduleConflict _ _ _ => "ModuleConflict"
  | undefinedIdentifier _ => "UndefinedIdentifier"
  | undefinedClass _ => "UndefinedClass"
  | visibilityViolation _ _ => "VisibilityViolation"
  | typeMismatch _ _ => "TypeMismatch"
  | arityMismatch _ _ _ => "ArityMismatch"
  | unknownMember _ _ => "UnknownMember"

/-- The fault in one line (the `Display` of `ErrorImpl`). Pieces of source text are quoted; paths
and plain names are not. -/
def message : Cause → String
  | unrecognisedToken token => s!"unrecognised token: {quoted token}"
  | unexpectedToken token => s!"unexpected token: {quoted token}"
  | unexpectedTokenDetailed token message =>
    s!"unexpected token ({quoted message}): {quoted token}"
  | numberParseError token => s!"error parsing number: {quoted token}"
  | moduleNotFound path => s!"cannot find module: {path}"
  | moduleConflict path existing incoming =>
    s!"module {quoted path} registered by both {quoted existing} and {quoted incoming}"
  | undefinedIdentifier name => s!"undefined identifier: {name}"
  | undefinedClass name => s!"undefined class: {name}"
  | visibilityViolation name module => s!"{quoted name} is private to module {quoted module}"
  | typeMismatch expected received =>
    s!"types do not match: expected {quoted expected}, received {quoted received}"
  | arityMismatch name expected received =>
    s!"wrong number of arguments to {quoted name}: expected {expected}, received {received}"
  | unknownMember type member => s!"type {quoted type} has no member {quoted member}"

/-- What to look at, where there is more to say than the name of the fault (`Error::get_tip`). -/
def tip? : Cause → Option String
  | unrecognisedToken _ => none
  | unexpectedToken token =>
    some s!"Unexpected token: `{token}`, did you miss a semicolon?"
  | unexpectedTokenDetailed token message => some s!"Unexpected token: `{token}`, {message}"
  | numberParseError token =>
    some s!"Invalid number: `{token}`, is it above the integer limit?"
  | moduleNotFound path =>
    some s!"Cannot find module `{path}`, check the `using` path and the package's src/ layout"
  | moduleConflict path existing incoming =>
    some s!"Module `{path}` is provided by both `{existing}` and `{incoming}`"
  | undefinedIdentifier name => some s!"`{name}` is not declared in this scope"
  | undefinedClass name => some s!"No class named `{name}` in any loaded module"
  | visibilityViolation name module =>
    some s!"`{name}` is private to `{module}`, mark it `pub` to use it here"
  | typeMismatch expected received =>
    some s!"Expected type `{expected}`, received `{received}`"
  | arityMismatch name expected received =>
    some s!"`{name}` expects {expected} arguments, received {received}"
  | unknownMember type member => some s!"Type `{type}` has no member `{member}`"

end Cause

end MgLang
