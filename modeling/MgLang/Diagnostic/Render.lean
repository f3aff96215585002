import MgLang.Diagnostic.Basic
import MgLang.Source.Line
import MgLang.Text.Blank
/-!
# Diagnostics as text

A diagnostic is shown with the line it points into, and a caret under the place:

```text
Error: TypeMismatch (Expected type `int`, received `bool`)
-> main.mg
   |
20 | let a = 1 + true;
   | --------^
```
-/

namespace MgLang.Diagnostic

/-- The text after at least as many fill characters as bring it to `width`. -/
def padLeft (width : Nat) (fill : Char) (text : List Char) : List Char :=
  List.replicate (width - text.length) fill ++ text

/-- Spaces and tabs at the start of a line are not shown. -/
def isIndent (c : Char) : Bool :=
  c == ' ' || c == '\t'

/-- The first line of a rendered diagnostic, without its newline. -/
def heading (d : Diagnostic) : String :=
  match d.cause.tip? with
  | none => s!"Error: {d.cause.name}"
  | some tip => s!"Error: {d.cause.name} ({tip})"

/-- The line with the caret line under it. The caret stands as many dashes in as there are bytes
between the indentation and the place. -/
def excerpt (line : Line) : String :=
  let number := (toString line.number).toList
  let margin := padLeft (number.length + 2) ' ' ['|']
  let removed := (line.text.takeWhile isIndent).length
  let shown := trimEnd (line.text.drop removed)
  let caret := padLeft (line.offset - removed + 1) '-' ['^']
  String.ofList
    (margin ++ ['\n'] ++ number ++ [' ', '|', ' '] ++ shown ++ ['\n'] ++
      margin ++ [' '] ++ caret ++ ['\n'])

/-- The diagnostic against the text of the file it points into (`render_error`). A place past the
end of the text has no line, and the message stands in its stead. -/
def render (d : Diagnostic) (source : String) : String :=
  let body :=
    match lineAt? source.toList d.span.start with
    | none => s!"   {d.cause.message}\n"
    | some line => excerpt line
  s!"{d.heading}\n-> {d.span.file}\n{body}"

end MgLang.Diagnostic
