import MgLang.Main
import MgLang.Proofs.Lexical
import MgLang.Proofs.CheckRun
import MgLang.Proofs.Locals
import MgLang.Proofs.Rules
import MgLang.Proofs.Silence
import MgLang.Proofs.Bare
import MgLang.Proofs.Printing
import MgLang.Proofs.RoundTrip
import MgLang.Proofs.Precedence
import MgLang.Proofs.ClassNames
import MgLang.Proofs.Advancing
import MgLang.Proofs.Numbering
import MgLang.Proofs.Reachable
import MgLang.Proofs.Declared
import MgLang.Proofs.DeclaredTypes
import MgLang.Proofs.ClassTypes
import MgLang.Proofs.Determined
import MgLang.Proofs.Outline
import MgLang.Proofs.NamesAlike
import MgLang.Proofs.TypesAlike
import MgLang.Proofs.Separate
import MgLang.Proofs.FailedImport
import MgLang.Proofs.Shift
import MgLang.Proofs.Moving
import MgLang.Proofs.Entries
import MgLang.Proofs.History
import MgLang.Proofs.Registrations
import MgLang.Proofs.Lasting
import MgLang.Proofs.Lexemes
import MgLang.Proofs.Lossless
import MgLang.Proofs.Scanning
import MgLang.Proofs.Holes
import MgLang.Proofs.Annotations
import MgLang.Proofs.Privacy
import MgLang.Proofs.Spots
import MgLang.Proofs.Finding
import MgLang.Proofs.CursorLookup
import MgLang.Proofs.Progress
import MgLang.Proofs.LoadFaults
import MgLang.Proofs.Covering
import MgLang.Proofs.RenamedTypes
import MgLang.Proofs.Places
import MgLang.Proofs.Regions
import MgLang.Proofs.Staying
import MgLang.Proofs.Located
import MgLang.Proofs.Layout
import MgLang.Proofs.Parses
import MgLang.Proofs.Prompt
import MgLang.Proofs.Foresight
import MgLang.Proofs.Subtyping
import MgLang.Proofs.Joins
import MgLang.Proofs.Unknown
import MgLang.Proofs.Qualified
import MgLang.Proofs.Escaped
import MgLang.Proofs.Interpolation
import MgLang.Proofs.TyText
import MgLang.Proofs.Identifiers
import MgLang.Proofs.ShownAlike
import MgLang.Proofs.Mismatch
import MgLang.Proofs.Importing
import MgLang.Proofs.Nesting
import MgLang.Proofs.Completion
import MgLang.Proofs.Lines
import MgLang.Proofs.Caret
import MgLang.Proofs.Leaves
import MgLang.Proofs.Rereading
import MgLang.Proofs.Unbound
import MgLang.Proofs.Munch
import MgLang.Proofs.Frames
import MgLang.Proofs.Standing
import MgLang.Proofs.Routes
